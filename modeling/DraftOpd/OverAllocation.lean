import DraftOpd.PagedKv
import DraftOpd.Ragged

/-!
# Over-allocation in the v2 worker

With overlapped scheduling the slots of the next verify block are reserved before the last
block's commit is known. `prepareForDecode` is `DFlashDraftInputV2.prepare_for_decode`
(`speculative/dflash_info_v2.py:84-194`) with pages of one slot : it reserves up to
`2 * block_size` positions past the lengths the scheduler sees. `verifySlots` is the gather
of the worker (`speculative/dflash_worker_v2.py:265-275`), which reads the block's slots
from `req_to_token` at the lengths on the device. `filterBatch` and `mergeBatch` are the
scheduler's batch operations with those of the draft input
(`dflash_info_v2.py:196-225`).

The allocator is a parameter : what it answers to a call.
-/

namespace DraftOpd

/-- What preparing or changing a batch can raise. -/
inductive OverError where
  | invalidBlockSize (blockSize : ℕ)
  | outOfMemory (numTokens : ℕ)
  | indexOutOfRange
  | missingFutureIndices
  deriving DecidableEq, Repr

/-- `DFlashDraftInputV2`, less the per-request rows that no modelled function reads. -/
structure DraftInputV2 where
  verifiedId : List ℤ
  newSeqLens : List ℕ
  futureIndices : Option (List ℕ)

/-- A request of the batch : its id, and how many positions of its row are mapped. -/
structure OverReq where
  rid : ℕ
  kvAllocatedLen : ℕ

/-- `ScheduleBatch`, as far as the over-allocation is concerned. -/
structure OverBatch where
  reqs : List OverReq
  reqPoolIndices : List ℕ
  /-- `batch.seq_lens`, as `prepare_for_decode` sees it. -/
  seqLens : List ℕ
  /-- `batch.seq_lens`, as the worker finds it on the device when the forward runs. -/
  deviceLens : List ℕ
  seqLensCpu : List ℕ
  seqLensSum : ℕ
  specInfo : DraftInputV2

variable {β : Type}

/-- Indexing a tensor with a tensor of indices. -/
def takeIndices (xs : List β) (indices : List ℕ) : Except OverError (List β) :=
  match gather xs indices with
  | some ys => .ok ys
  | none => .error .indexOutOfRange

namespace DraftInputV2

/-- `DFlashDraftInputV2.filter_batch`. -/
def filterBatch (d : DraftInputV2) (newIndices : List ℕ) : Except OverError DraftInputV2 :=
  match d.futureIndices with
  | some indices => do return { d with futureIndices := some (← takeIndices indices newIndices) }
  | none => do
    return { d with
      verifiedId := ← takeIndices d.verifiedId newIndices
      newSeqLens := ← takeIndices d.newSeqLens newIndices }

/-- `DFlashDraftInputV2.merge_batch` ; it asserts that both have future indices or none. -/
def mergeBatch (d other : DraftInputV2) : Except OverError DraftInputV2 :=
  match d.futureIndices with
  | some indices =>
    match other.futureIndices with
    | some rest => .ok { d with futureIndices := some (indices ++ rest) }
    | none => .error .missingFutureIndices
  | none => .ok { d with
      verifiedId := d.verifiedId ++ other.verifiedId
      newSeqLens := d.newSeqLens ++ other.newSeqLens }

end DraftInputV2

namespace OverBatch

/-- `nxt_kv_lens = maximum(cur_kv_lens, committed_kv_lens + 2 * block_size)`. -/
def nxtKvLens (b : OverBatch) (blockSize : ℕ) : List ℕ :=
  List.zipWith (fun cur seqLen => max cur (seqLen + 2 * blockSize))
    (b.reqs.map (·.kvAllocatedLen)) b.seqLens

/-- `num_needed_tokens`. -/
def numNeededTokens (b : OverBatch) (blockSize : ℕ) : ℕ :=
  (List.zipWith (fun nxt cur => nxt - cur) (b.nxtKvLens blockSize)
    (b.reqs.map (·.kvAllocatedLen))).sum

/-- `alloc_token_slots`, called when slots are needed at all ; `alloc` is the allocator. -/
def allocTokenSlots (alloc : ℕ → Option (List ℕ)) (numTokens : ℕ) :
    Except OverError (List ℕ) :=
  if 0 < numTokens then
    match alloc numTokens with
    | some slots => .ok slots
    | none => .error (.outOfMemory numTokens)
  else .ok []

/-- `prepare_for_decode` with a page size of one : the batch, the table, and the slots taken
from the allocator. -/
def prepareForDecode (b : OverBatch) (blockSize : ℕ) (alloc : ℕ → Option (List ℕ))
    (reqToToken : ReqToToken) : Except OverError (OverBatch × ReqToToken × List ℕ) :=
  if b.reqs = [] then .ok (b, reqToToken, [])
  else if blockSize ≤ 0 then .error (.invalidBlockSize blockSize)
  else do
    let cur := b.reqs.map (·.kvAllocatedLen)
    let nxt := b.nxtKvLens blockSize
    let slots ← allocTokenSlots alloc (b.numNeededTokens blockSize)
    let table := if 0 < b.numNeededTokens blockSize
      then assignReqToTokenPool reqToToken (b.reqPoolIndices.zip (cur.zip nxt)) slots
      else reqToToken
    return ({ b with
      reqs := List.zipWith (fun req len => { req with kvAllocatedLen := len }) b.reqs nxt
      seqLensCpu := nxt
      seqLensSum := nxt.sum }, table, slots)

/-- Every tensor of the batch, and its draft input, indexed by `keepIndices`. -/
def filterIndices (b : OverBatch) (keepIndices : List ℕ) : Except OverError OverBatch := do
  let reqs ← takeIndices b.reqs keepIndices
  let reqPoolIndices ← takeIndices b.reqPoolIndices keepIndices
  let seqLens ← takeIndices b.seqLens keepIndices
  let deviceLens ← takeIndices b.deviceLens keepIndices
  let seqLensCpu ← takeIndices b.seqLensCpu keepIndices
  let specInfo ← b.specInfo.filterBatch keepIndices
  return {
    reqs, reqPoolIndices, seqLens, deviceLens, seqLensCpu, seqLensSum := seqLens.sum, specInfo }

/-- `ScheduleBatch.filter_batch` (`schedule_batch.py:2054-2133`). -/
def filterBatch (b : OverBatch) (keepIndices : List ℕ) : Except OverError OverBatch :=
  if keepIndices = [] then .ok { b with reqs := [] }
  else if keepIndices.length = b.reqs.length then .ok b
  else b.filterIndices keepIndices

/-- `ScheduleBatch.merge_batch` (`schedule_batch.py:2135-2186`). -/
def mergeBatch (b other : OverBatch) : Except OverError OverBatch := do
  let specInfo ← b.specInfo.mergeBatch other.specInfo
  return {
    reqs := b.reqs ++ other.reqs
    reqPoolIndices := b.reqPoolIndices ++ other.reqPoolIndices
    seqLens := b.seqLens ++ other.seqLens
    deviceLens := b.deviceLens ++ other.deviceLens
    seqLensCpu := b.seqLensCpu ++ other.seqLensCpu
    seqLensSum := b.seqLensSum + other.seqLensSum
    specInfo }

/-- How the scheduler adds the last prefill batch to the running one
(`scheduler.py:2009-2014`). -/
def mergeLast (running last : OverBatch) : Except OverError OverBatch :=
  if last.reqs = [] then .ok running
  else if running.reqs = [] then .ok last
  else running.mergeBatch last

/-- The slots of the verify blocks (`assign_extend_cache_locs`), from the lengths on the
device. -/
def verifySlots (b : OverBatch) (blockSize : ℕ) (reqToToken : ReqToToken) : List ℕ :=
  (b.reqPoolIndices.zip b.deviceLens).flatMap fun row =>
    (List.range' row.2 blockSize).map (reqToToken row.1)

/-- The batch after a verify : the worker's next draft input takes the old one's place
(`scheduler.py:2425-2439`), and the next `prepare_for_decode` will see the lengths `seen`. -/
def afterVerify (b : OverBatch) (commitLens seen : List ℕ) (bonus : List ℤ)
    (future : List ℕ) : OverBatch :=
  { b with
    seqLens := seen
    deviceLens := List.zipWith (· + ·) b.deviceLens commitLens
    specInfo :=
      { verifiedId := bonus
        newSeqLens := List.zipWith (· + ·) b.deviceLens commitLens
        futureIndices := some future } }

end OverBatch

end DraftOpd
