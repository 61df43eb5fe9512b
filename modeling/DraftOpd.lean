import DraftOpd.Retraction
import DraftOpd.OverlapAgreement
import DraftOpd.Lossless
import DraftOpd.Normaliser
import DraftOpd.TvBlockCount
import DraftOpd.TvRollout
import DraftOpd.PagedOwnership
import DraftOpd.LossInvariance
import DraftOpd.MambaTrack
import DraftOpd.TeacherBranch
import DraftOpd.ResponseScatter
import DraftOpd.Collectives
import DraftOpd.SpecGenerate
import DraftOpd.DraftSegments
import DraftOpd.OverInvariant
import DraftOpd.SamplingLossless
import DraftOpd.RejectedSelection
import DraftOpd.ReplayBlocks
import DraftOpd.TargetDistribution
import DraftOpd.VocabParallel
import DraftOpd.BlockMask
import DraftOpd.Eagle3Rows
import DraftOpd.Eagle3Chain
import DraftOpd.RandomAnchors
import DraftOpd.TvErrors
import DraftOpd.FirstToken
import DraftOpd.LayerIds
import DraftOpd.BlockLoss
import DraftOpd.MaskSelect
import DraftOpd.VocabMaps
import DraftOpd.PoolTable
import DraftOpd.CompactWindow
import DraftOpd.ReplayMismatch
import DraftOpd.StopFold
import DraftOpd.ReplayTracker
import DraftOpd.Heapq
import DraftOpd.KarmarkarKarp
import DraftOpd.SeqlenBalancing
import DraftOpd.MicroBatches
import DraftOpd.Dispatch
import DraftOpd.BalanceBatch
import DraftOpd.TrainerLoop
import DraftOpd.FutureMap
import DraftOpd.Forest
import DraftOpd.RadixCache
import DraftOpd.RadixPrefix
import DraftOpd.RadixInsert
import DraftOpd.RadixLocks
import DraftOpd.RadixEvict
import DraftOpd.RadixRun
