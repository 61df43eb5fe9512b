import DraftOpd.ReplayBlocks
import DraftOpd.SortedSet
import DraftOpd.StopFold

/-!
# The tracker of replay blocks

The trainer tallies the replay blocks of each rollout : the tokens of each category, and for each
half of the training how many blocks resumed at each position (`update_rollout`). The rows are
read one after the other, and each is checked when it is reached. A call that raises keeps what
it has counted until then.

`updateRollout_logs` : a call records the blocks that its input has before the place where it
raises (`RolloutCall.counted`), which are all of them when it returns. After any calls the token
counts add up to the drafted tokens of the counted blocks. While the tracker has their anchor
positions, the anchor counts add up to their number, and those of the rejected ones to the first
rejected tokens (`replay_tracker_tallies`).
-/

namespace DraftOpd

/-! ## The metadata of a rollout -/

/-- The keys of a half's anchor counts. -/
inductive AnchorBucket where
  | position (pos : ℤ)
  | fullAcceptAfterBlock
deriving DecidableEq, Repr

/-- The exceptions of `update_rollout`. -/
inductive TrackerError where
  | sampleCount (samples expected : ℕ)
  | notAnInteger
  | missingMetadata
  | lengthMismatch (sampleIdx accepted drafted : ℕ)
  | block (e : ReplayError)
  | anchorPosition (bucket maxAnchorPosition : ℤ)
  | keyError (bucket : AnchorBucket)
deriving DecidableEq, Repr

/-- The error is about the anchor position of a block. -/
def TrackerError.AtAnchor : TrackerError → Prop
  | anchorPosition _ _ => True
  | keyError _ => True
  | _ => False

/-- A call did not end at an anchor position. -/
def AwayFromAnchors (outcome : Option TrackerError) : Prop :=
  ∀ e, outcome = some e → ¬ e.AtAnchor

theorem awayFromAnchors_none : AwayFromAnchors none := fun _ h => by cases h

/-- A metadata value after `_to_python`. A scalar is what `int` makes of it, if it does. -/
inductive Nested where
  | none
  | scalar (int : Option ℤ)
  | list (xs : List Nested)
  | tuple (xs : List Nested)

namespace Nested

/-- `int(value)`. -/
def toInt : Nested → Except TrackerError ℤ
  | scalar (some i) => .ok i
  | _ => .error .notAnInteger

/-- `_as_list` (`replay_distribution.py:63-71`). -/
def asList : Nested → List Nested
  | none => []
  | list xs => xs
  | tuple xs => xs
  | v => [v]

mutual

/-- `flatten_item` (`replay_distribution.py:75-84`). -/
def flattenItem : Nested → Except TrackerError (List ℤ)
  | none => .ok []
  | scalar i => do return [← toInt (scalar i)]
  | list xs => flattenItems xs
  | tuple xs => flattenItems xs

/-- The loop of `flatten_item`. -/
def flattenItems : List Nested → Except TrackerError (List ℤ)
  | [] => .ok []
  | x :: xs => do return (← flattenItem x) ++ (← flattenItems xs)

end

end Nested

/-- `_normalize_nested` (`replay_distribution.py:74-98`). -/
def normalizeNested (values : Nested) (batchSize : ℕ) : Except TrackerError (List (List ℤ)) :=
  match values with
  | .none => .ok (List.replicate batchSize [])
  | values =>
    let values := match values with
      | .list xs => xs
      | v => [v]
    let values := if batchSize = 1 then [Nested.list values] else values
    if values.length ≠ batchSize then .error (.sampleCount values.length batchSize)
    else values.mapM Nested.flattenItem

/-- The arguments of a call of `update_rollout`. A key that is not there is `none`. -/
structure RolloutCall where
  batchSize : ℕ
  acceptedLengths : Option Nested
  draftedLengths : Option Nested
  globalSteps : Option Nested
  fallbackGlobalStep : ℤ

/-- What the loop over the samples reads of one of them. -/
structure ReplayRow where
  sampleIdx : ℕ
  acceptedLengths : List ℤ
  draftedLengths : List ℤ
  globalStep : Nested

namespace RolloutCall

/-- `global_steps` (`replay_distribution.py:159-161`). -/
def rowSteps (call : RolloutCall) : List Nested :=
  let globalSteps := (call.globalSteps.getD .none).asList
  if globalSteps.length ≠ call.batchSize then
    List.replicate call.batchSize (.scalar (some call.fallbackGlobalStep))
  else globalSteps

/-- The samples, after the checks on the whole batch (`replay_distribution.py:143-163`). -/
def rows (call : RolloutCall) : Except TrackerError (List ReplayRow) := do
  let acceptedLengths ← normalizeNested (call.acceptedLengths.getD .none) call.batchSize
  let draftedLengths ← normalizeNested (call.draftedLengths.getD .none) call.batchSize
  if call.acceptedLengths.isNone || call.draftedLengths.isNone then .error .missingMetadata
  else .ok ((acceptedLengths.zip (draftedLengths.zip call.rowSteps)).zipIdx.map
    fun row => ⟨row.2, row.1.1, row.1.2.1, row.1.2.2⟩)

end RolloutCall

theorem length_normalizeNested {values : Nested} {batchSize : ℕ} {rows : List (List ℤ)}
    (h : normalizeNested values batchSize = .ok rows) : rows.length = batchSize := by
  unfold normalizeNested at h
  split at h
  · rw [← Except.ok.inj h, List.length_replicate]
  · dsimp only at h
    split_ifs at h with hone hlen hlen
    · rw [← (of_mapM_ok h).length_eq]
      exact not_not.mp hlen
    · rw [← (of_mapM_ok h).length_eq]
      exact not_not.mp hlen

theorem RolloutCall.length_rowSteps (call : RolloutCall) :
    call.rowSteps.length = call.batchSize := by
  unfold rowSteps
  dsimp only
  split_ifs with h
  · exact List.length_replicate
  · exact not_not.mp h

/-- The loop reads every sample : the lists it zips have the batch's length. -/
theorem RolloutCall.length_rows {call : RolloutCall} {rows : List ReplayRow}
    (h : call.rows = .ok rows) : rows.length = call.batchSize := by
  unfold RolloutCall.rows at h
  obtain ⟨acceptedLengths, ha, h⟩ := of_bind_ok h
  obtain ⟨draftedLengths, hd, h⟩ := of_bind_ok h
  split_ifs at h
  rw [← Except.ok.inj h, List.length_map, List.length_zipIdx, List.length_zip,
    List.length_zip, length_normalizeNested ha, length_normalizeNested hd,
    call.length_rowSteps, min_self, min_self]

/-! ## The counters -/

/-- `replay_anchor_bucket` (`replay_distribution.py:45-52`). -/
def replayAnchorBucket (acceptedLength draftedLength : ℤ) : Except ReplayError AnchorBucket :=
  let r := max acceptedLength 0
  let length := max draftedLength 0
  if r > length then .error (.acceptedExceedsDrafted r length)
  else if r = length then .ok .fullAcceptAfterBlock
  else .ok (.position (r + 1))

/-- The keys that a half's anchor counts start with. -/
def anchorBuckets : List AnchorBucket :=
  (List.range 16).map (fun (i : ℕ) => AnchorBucket.position (i + 1)) ++ [.fullAcceptAfterBlock]

theorem nodup_anchorBuckets : anchorBuckets.Nodup := by decide

theorem position_mem_anchorBuckets {pos : ℤ} :
    AnchorBucket.position pos ∈ anchorBuckets ↔ 1 ≤ pos ∧ pos ≤ 16 := by
  simp only [anchorBuckets, List.mem_append, List.mem_map, List.mem_range,
    AnchorBucket.position.injEq, List.mem_singleton, reduceCtorEq, or_false]
  constructor
  · rintro ⟨i, hi, rfl⟩
    omega
  · rintro ⟨hlow, hhigh⟩
    exact ⟨(pos - 1).toNat, by omega, by omega⟩

/-- The anchor counts of one half, which keep their keys. -/
structure AnchorCounts where
  counts : Dict AnchorBucket ℤ
  keys_eq : counts.keys = anchorBuckets

namespace AnchorCounts

/-- The counts of a new tracker (`replay_distribution.py:126-131`). -/
def zero : AnchorCounts where
  counts := ⟨anchorBuckets.map fun bucket => (bucket, 0), by
    rw [List.map_map]
    exact (List.map_id anchorBuckets).symm ▸ nodup_anchorBuckets⟩
  keys_eq := by
    rw [Dict.keys, List.map_map]
    exact List.map_id anchorBuckets

/-- `anchor_counts[half_name][bucket] += 1`, where the bucket is there. -/
def increment (a : AnchorCounts) (bucket : AnchorBucket) : Option AnchorCounts :=
  match h : a.counts.get? bucket with
  | none => none
  | some n => some ⟨a.counts.set bucket (n + 1), by
      rw [Dict.keys_set_of_mem _ (Dict.mem_keys_iff.mpr (by rw [h]; exact Option.some_ne_none n)),
        a.keys_eq]⟩

/-- The sum of the counts. -/
def total (a : AnchorCounts) : ℤ := a.counts.sumWhere fun _ => true

/-- The sum of the counts of the positions. -/
def partials (a : AnchorCounts) : ℤ := a.counts.sumWhere (· ≠ .fullAcceptAfterBlock)

theorem increment_eq_none_iff {a : AnchorCounts} {bucket : AnchorBucket} :
    a.increment bucket = none ↔ bucket ∉ anchorBuckets := by
  rw [← a.keys_eq, Dict.mem_keys_iff, not_not]
  unfold increment
  split
  case h_1 h => exact iff_of_true rfl h
  case h_2 n h =>
    refine iff_of_false (Option.some_ne_none _) ?_
    rw [h]
    exact Option.some_ne_none n

theorem sumWhere_increment {a a' : AnchorCounts} {bucket : AnchorBucket}
    (h : a.increment bucket = some a') (p : AnchorBucket → Bool) :
    a'.counts.sumWhere p = a.counts.sumWhere p + if p bucket then 1 else 0 := by
  unfold increment at h
  split at h
  case h_1 => cases h
  case h_2 n hget =>
    rw [← Option.some.inj h]
    exact Dict.sumWhere_set_add hget 1 p

end AnchorCounts

/-- The halves of the training. -/
inductive TrainingHalf where
  | firstHalf
  | secondHalf
deriving DecidableEq, Repr

/-- The settings of a `ReplayDistributionTracker`. -/
structure TrackerSettings where
  totalTrainingSteps : ℤ
  maxAnchorPosition : ℤ
deriving DecidableEq, Repr

/-- The counters of a `ReplayDistributionTracker` that `update_rollout` writes. -/
structure ReplayCounters where
  compositionCounts : ReplayCounts
  anchorCounts : TrainingHalf → AnchorCounts

/-- `composition_counts[category] += count` for the categories of a block. -/
def ReplayCounts.add (c d : ReplayCounts) : ReplayCounts :=
  ⟨c.accepted + d.accepted, c.firstRejected + d.firstRejected,
    c.postRejectionSuffix + d.postRejectionSuffix⟩

namespace ReplayCounters

/-- The counters of a new tracker. -/
def zero : ReplayCounters := ⟨⟨0, 0, 0⟩, fun _ => .zero⟩

/-- `total_replay_token_count` (`replay_distribution.py:136-137`). -/
def totalReplayTokenCount (s : ReplayCounters) : ℤ :=
  s.compositionCounts.accepted + s.compositionCounts.firstRejected +
    s.compositionCounts.postRejectionSuffix

/-- The sum of the anchor counts. -/
def anchorTotal (s : ReplayCounters) : ℤ :=
  (s.anchorCounts .firstHalf).total + (s.anchorCounts .secondHalf).total

/-- The sum of the anchor counts of the positions. -/
def anchorPartials (s : ReplayCounters) : ℤ :=
  (s.anchorCounts .firstHalf).partials + (s.anchorCounts .secondHalf).partials

end ReplayCounters

/-! ## The calls -/

/-- The anchor position of a bucket exceeds the largest one (`replay_distribution.py:178`). -/
def AnchorBucket.exceeds : AnchorBucket → ℤ → Option ℤ
  | position pos, maxAnchorPosition => if pos > maxAnchorPosition then some pos else none
  | fullAcceptAfterBlock, _ => none

namespace TrackerSettings

variable (cfg : TrackerSettings)

/-- `_half_name` (`replay_distribution.py:139-140`). -/
def halfName (globalStep : ℤ) : TrainingHalf :=
  if 2 * globalStep ≤ cfg.totalTrainingSteps then .firstHalf else .secondHalf

/-- The body of the loop over the blocks (`replay_distribution.py:171-182`). -/
def updateBlock (half : TrainingHalf) (s : ReplayCounters) (block : ℤ × ℤ) :
    ReplayCounters × Option TrackerError :=
  if block.2 ≤ 0 then (s, none)
  else
    match replayBlockCounts block.1 block.2 with
    | .error e => (s, some (.block e))
    | .ok counts =>
      -- the tokens are counted before the anchor position is checked
      let s := { s with compositionCounts := s.compositionCounts.add counts }
      match replayAnchorBucket block.1 block.2 with
      | .error e => (s, some (.block e))
      | .ok bucket =>
        match bucket.exceeds cfg.maxAnchorPosition with
        | some pos => (s, some (.anchorPosition pos cfg.maxAnchorPosition))
        | none =>
          match (s.anchorCounts half).increment bucket with
          | none => (s, some (.keyError bucket))
          | some counts =>
            ({ s with anchorCounts := Function.update s.anchorCounts half counts }, none)

/-- The body of the loop over the samples (`replay_distribution.py:164-182`). -/
def updateRow (s : ReplayCounters) (row : ReplayRow) : ReplayCounters × Option TrackerError :=
  if row.acceptedLengths.length ≠ row.draftedLengths.length then
    (s, some (.lengthMismatch row.sampleIdx row.acceptedLengths.length row.draftedLengths.length))
  else
    match row.globalStep.toInt with
    | .error e => (s, some e)
    | .ok globalStep =>
      foldUntil (cfg.updateBlock (cfg.halfName globalStep)) s
        (row.acceptedLengths.zip row.draftedLengths)

/-- `update_rollout` (`replay_distribution.py:142-182`). -/
def updateRollout (s : ReplayCounters) (call : RolloutCall) :
    ReplayCounters × Option TrackerError :=
  match call.rows with
  | .error e => (s, some e)
  | .ok rows => foldUntil cfg.updateRow s rows

/-- The counters after one call after another, whether they return or raise. -/
def afterCalls (s : ReplayCounters) (calls : List RolloutCall) : ReplayCounters :=
  calls.foldl (fun s call => (cfg.updateRollout s call).1) s

end TrackerSettings

/-! ## The blocks a call counts -/

/-- A block whose tokens are counted. -/
structure CountedBlock where
  half : TrainingHalf
  acceptedLength : ℤ
  draftedLength : ℤ
  drafted_pos : 0 < draftedLength
  accepted_le : max acceptedLength 0 ≤ draftedLength

namespace CountedBlock

/-- The block as the metadata has it. -/
def lengths (b : CountedBlock) : ℤ × ℤ := (b.acceptedLength, b.draftedLength)

/-- The number of accepted tokens. -/
def accepted (b : CountedBlock) : ℤ := max b.acceptedLength 0

/-- The first rejected tokens of the block : one, or none when it was accepted whole. -/
def rejected (b : CountedBlock) : ℤ := if b.accepted < b.draftedLength then 1 else 0

/-- The tokens of the block by category. -/
def counts (b : CountedBlock) : ReplayCounts :=
  ⟨b.accepted, b.rejected, b.draftedLength - b.accepted - b.rejected⟩

/-- Where the target goes on after the block. -/
def bucket (b : CountedBlock) : AnchorBucket :=
  if b.accepted = b.draftedLength then .fullAcceptAfterBlock else .position (b.accepted + 1)

/-- The block was accepted whole, or the target goes on at a position that the tracker has. -/
def Anchored (cfg : TrackerSettings) (b : CountedBlock) : Prop :=
  b.accepted = b.draftedLength ∨
    b.accepted + 1 ≤ cfg.maxAnchorPosition ∧ b.accepted + 1 ≤ 16

instance (cfg : TrackerSettings) (b : CountedBlock) : Decidable (b.Anchored cfg) :=
  inferInstanceAs (Decidable (_ ∨ _ ∧ _))

/-- What the anchor position of the block raises. -/
def anchorError (cfg : TrackerSettings) (b : CountedBlock) : Option TrackerError :=
  match b.bucket.exceeds cfg.maxAnchorPosition with
  | some pos => some (.anchorPosition pos cfg.maxAnchorPosition)
  | none => if b.bucket ∈ anchorBuckets then none else some (.keyError b.bucket)

theorem replayBlockCounts_eq (b : CountedBlock) :
    replayBlockCounts b.acceptedLength b.draftedLength = .ok b.counts := by
  have hle : b.accepted ≤ b.draftedLength := b.accepted_le
  have hsuffix : 0 ≤ b.draftedLength - b.accepted - b.rejected := by
    unfold rejected
    split_ifs <;> omega
  unfold replayBlockCounts
  rw [max_eq_left b.drafted_pos.le]
  refine (if_neg (not_lt.mpr hle)).trans ?_
  exact congrArg (fun suffix => Except.ok (ReplayCounts.mk b.accepted b.rejected suffix))
    (max_eq_left hsuffix)

theorem replayAnchorBucket_eq (b : CountedBlock) :
    replayAnchorBucket b.acceptedLength b.draftedLength = .ok b.bucket := by
  unfold replayAnchorBucket bucket accepted
  rw [max_eq_left b.drafted_pos.le]
  dsimp only
  rw [if_neg (not_lt.mpr b.accepted_le)]
  split_ifs <;> rfl

theorem anchored_iff {cfg : TrackerSettings} {b : CountedBlock} :
    b.Anchored cfg ↔
      b.bucket.exceeds cfg.maxAnchorPosition = none ∧ b.bucket ∈ anchorBuckets := by
  have hnonneg : 0 ≤ b.accepted := le_max_right _ _
  unfold Anchored bucket
  split_ifs with hfull
  · exact iff_of_true (Or.inl hfull) ⟨rfl, by decide⟩
  · rw [position_mem_anchorBuckets, AnchorBucket.exceeds, ite_eq_right_iff]
    simp only [reduceCtorEq, imp_false, not_lt, hfull, false_or]
    exact and_congr_right fun _ => ⟨fun h => ⟨by omega, h⟩, And.right⟩

theorem anchored_of_anchorError {cfg : TrackerSettings} {b : CountedBlock}
    (h : AwayFromAnchors (b.anchorError cfg)) : b.Anchored cfg := by
  rw [anchored_iff]
  unfold anchorError at h
  cases hexc : b.bucket.exceeds cfg.maxAnchorPosition with
  | some pos =>
    rw [hexc] at h
    exact absurd trivial (h _ rfl)
  | none =>
    refine ⟨rfl, ?_⟩
    by_contra hmem
    rw [hexc] at h
    exact absurd trivial (h _ (if_neg hmem))

end CountedBlock

namespace TrackerSettings

variable (cfg : TrackerSettings)

/-- Add a block to the counters : its tokens, and its anchor position if the tracker has it. -/
def record (s : ReplayCounters) (b : CountedBlock) : ReplayCounters where
  compositionCounts := s.compositionCounts.add b.counts
  anchorCounts := if b.Anchored cfg then
      Function.update s.anchorCounts b.half
        (((s.anchorCounts b.half).increment b.bucket).getD (s.anchorCounts b.half))
    else s.anchorCounts

/-- A block of the metadata as a counted one, unless it drafts nothing or accepts too much. -/
def readBlock (half : TrainingHalf) (block : ℤ × ℤ) : List CountedBlock × Option TrackerError :=
  if hpos : block.2 ≤ 0 then ([], none)
  else if hle : max block.1 0 ≤ block.2 then
    let b : CountedBlock := ⟨half, block.1, block.2, not_le.mp hpos, hle⟩
    ([b], b.anchorError cfg)
  else ([], some (.block (.acceptedExceedsDrafted (max block.1 0) block.2)))

/-- The counted blocks of a sample. -/
def readRow (row : ReplayRow) : List CountedBlock × Option TrackerError :=
  if row.acceptedLengths.length ≠ row.draftedLengths.length then
    ([], some (.lengthMismatch row.sampleIdx row.acceptedLengths.length row.draftedLengths.length))
  else
    match row.globalStep.toInt with
    | .error e => ([], some e)
    | .ok globalStep =>
      readUntil (cfg.readBlock (cfg.halfName globalStep))
        (row.acceptedLengths.zip row.draftedLengths)

/-- The counted blocks of a call. -/
def readCall (call : RolloutCall) : List CountedBlock × Option TrackerError :=
  match call.rows with
  | .error e => ([], some e)
  | .ok rows => readUntil cfg.readRow rows

/-- The loop's body on a block that is counted. -/
theorem updateBlock_counted (s : ReplayCounters) (b : CountedBlock) :
    cfg.updateBlock b.half s b.lengths = (cfg.record s b, b.anchorError cfg) := by
  have hcounts : replayBlockCounts b.lengths.1 b.lengths.2 = .ok b.counts :=
    b.replayBlockCounts_eq
  have hbucket : replayAnchorBucket b.lengths.1 b.lengths.2 = .ok b.bucket :=
    b.replayAnchorBucket_eq
  unfold updateBlock
  rw [if_neg (show ¬ b.lengths.2 ≤ 0 from not_le.mpr b.drafted_pos), hcounts, hbucket]
  unfold record CountedBlock.anchorError
  simp only [CountedBlock.anchored_iff]
  cases b.bucket.exceeds cfg.maxAnchorPosition with
  | some pos => simp
  | none =>
    cases hinc : (s.anchorCounts b.half).increment b.bucket with
    | none =>
      have hmem := AnchorCounts.increment_eq_none_iff.mp hinc
      simp [hmem]
    | some counts =>
      have hmem : b.bucket ∈ anchorBuckets := by
        by_contra hmem
        rw [AnchorCounts.increment_eq_none_iff.mpr hmem] at hinc
        cases hinc
      simp [hmem]

theorem updateBlock_logs (half : TrainingHalf) :
    Logs (cfg.updateBlock half) cfg.record (cfg.readBlock half) := by
  intro s block
  unfold readBlock
  split_ifs with hpos hle
  · exact if_pos hpos
  · exact cfg.updateBlock_counted s ⟨half, block.1, block.2, not_le.mp hpos, hle⟩
  · have herr : replayBlockCounts block.1 block.2 =
        .error (.acceptedExceedsDrafted (max block.1 0) block.2) := by
      unfold replayBlockCounts
      rw [max_eq_left (not_le.mp hpos).le]
      exact if_pos (not_le.mp hle)
    unfold updateBlock
    rw [if_neg hpos, herr]
    rfl

theorem updateRow_logs : Logs cfg.updateRow cfg.record cfg.readRow := by
  intro s row
  unfold updateRow readRow
  split_ifs with hlen
  · rfl
  · cases row.globalStep.toInt with
    | error e => rfl
    | ok globalStep => exact foldUntil_logs (cfg.updateBlock_logs _) s _

theorem updateRollout_logs : Logs cfg.updateRollout cfg.record cfg.readCall := by
  intro s call
  unfold updateRollout readCall
  cases call.rows with
  | error e => rfl
  | ok rows => exact foldUntil_logs cfg.updateRow_logs s rows

end TrackerSettings

/-! ## All the blocks of a call -/

/-- The drafted blocks of a sample. -/
def ReplayRow.draftedBlocks (row : ReplayRow) : List (ℤ × ℤ) :=
  (row.acceptedLengths.zip row.draftedLengths).filter fun block => 0 < block.2

/-- The drafted blocks of a call whose metadata can be read. -/
def RolloutCall.draftedBlocks (call : RolloutCall) : List (ℤ × ℤ) :=
  match call.rows with
  | .error _ => []
  | .ok rows => rows.flatMap ReplayRow.draftedBlocks

/-- The blocks whose tokens a call counts, in the order of its samples. -/
def RolloutCall.counted (call : RolloutCall) (cfg : TrackerSettings) : List CountedBlock :=
  (cfg.readCall call).1

namespace TrackerSettings

variable (cfg : TrackerSettings)

theorem readBlock_reads (half : TrainingHalf) : Reads (cfg.readBlock half) CountedBlock.lengths
    (fun block => [block].filter fun block => 0 < block.2) := by
  intro block
  unfold readBlock
  split_ifs with hpos hle
  · exact ⟨List.nil_prefix, fun _ => by simp [hpos]⟩
  · have hitems : [block].filter (fun block => 0 < block.2) = [block] := by
      simpa using hpos
    dsimp only
    rw [hitems]
    exact ⟨List.prefix_rfl, fun _ => rfl⟩
  · exact ⟨List.nil_prefix, fun hnone => by cases hnone⟩

theorem readRow_reads : Reads cfg.readRow CountedBlock.lengths ReplayRow.draftedBlocks := by
  intro row
  unfold readRow
  split_ifs with hlen
  · exact ⟨List.nil_prefix, fun hnone => by cases hnone⟩
  · cases row.globalStep.toInt with
    | error e => exact ⟨List.nil_prefix, fun hnone => by cases hnone⟩
    | ok globalStep =>
      have hblocks := readUntil_reads (cfg.readBlock_reads (cfg.halfName globalStep))
        (row.acceptedLengths.zip row.draftedLengths)
      rwa [← List.filter_flatMap, List.flatMap_singleton'] at hblocks

theorem readCall_reads : Reads cfg.readCall CountedBlock.lengths RolloutCall.draftedBlocks := by
  intro call
  unfold readCall RolloutCall.draftedBlocks
  cases call.rows with
  | error e => exact ⟨List.prefix_rfl, fun _ => rfl⟩
  | ok rows => exact readUntil_reads cfg.readRow_reads rows

theorem anchored_of_readBlock {half : TrainingHalf} (block : ℤ × ℤ) :
    AwayFromAnchors (cfg.readBlock half block).2 →
      ∀ b ∈ (cfg.readBlock half block).1, b.Anchored cfg := by
  unfold readBlock
  split_ifs with hpos hle
  · simp
  · intro hends b hb
    rw [List.mem_singleton.mp hb]
    exact CountedBlock.anchored_of_anchorError hends
  · simp

theorem anchored_of_readRow (row : ReplayRow) : AwayFromAnchors (cfg.readRow row).2 →
    ∀ b ∈ (cfg.readRow row).1, b.Anchored cfg := by
  unfold readRow
  split_ifs with hlen
  · simp
  · cases row.globalStep.toInt with
    | error e => simp
    | ok globalStep =>
      exact readUntil_forall AwayFromAnchors awayFromAnchors_none cfg.anchored_of_readBlock _

/-- A call that does not raise at an anchor position has counted anchored blocks only. -/
theorem anchored_of_readCall {call : RolloutCall} (h : AwayFromAnchors (cfg.readCall call).2) :
    ∀ b ∈ call.counted cfg, b.Anchored cfg := by
  unfold RolloutCall.counted
  unfold readCall at h ⊢
  cases hrows : call.rows with
  | error e => simp
  | ok rows =>
    rw [hrows] at h
    exact readUntil_forall AwayFromAnchors awayFromAnchors_none cfg.anchored_of_readRow rows h

end TrackerSettings

/-! ## What the counters add up to -/

namespace TrackerSettings

variable {cfg : TrackerSettings}

theorem totalReplayTokenCount_record (s : ReplayCounters) (b : CountedBlock) :
    (cfg.record s b).totalReplayTokenCount = s.totalReplayTokenCount + b.draftedLength := by
  simp only [record, ReplayCounters.totalReplayTokenCount, ReplayCounts.add, CountedBlock.counts]
  omega

/-- A recorded block is one more in a sum over the buckets of both halves. -/
theorem sumWhere_record (s : ReplayCounters) {b : CountedBlock} (hb : b.Anchored cfg)
    (p : AnchorBucket → Bool) :
    ((cfg.record s b).anchorCounts .firstHalf).counts.sumWhere p +
        ((cfg.record s b).anchorCounts .secondHalf).counts.sumWhere p =
      (s.anchorCounts .firstHalf).counts.sumWhere p +
        (s.anchorCounts .secondHalf).counts.sumWhere p + if p b.bucket then 1 else 0 := by
  have hmem := (CountedBlock.anchored_iff.mp hb).2
  cases hinc : (s.anchorCounts b.half).increment b.bucket with
  | none => exact absurd hmem (AnchorCounts.increment_eq_none_iff.mp hinc)
  | some counts =>
    have hsum := AnchorCounts.sumWhere_increment hinc p
    have hrecord : (cfg.record s b).anchorCounts =
        Function.update s.anchorCounts b.half counts := by
      rw [record, if_pos hb, hinc, Option.getD_some]
    rw [hrecord]
    cases hhalf : b.half with
    | firstHalf =>
      rw [hhalf] at hsum
      rw [Function.update_self, Function.update_of_ne (by decide), hsum]
      omega
    | secondHalf =>
      rw [hhalf] at hsum
      rw [Function.update_self, Function.update_of_ne (by decide), hsum]
      omega

end TrackerSettings

/-- The counters are those of a new tracker that counted the blocks. -/
structure Tallies (cfg : TrackerSettings) (s : ReplayCounters) (blocks : List CountedBlock) :
    Prop where
  tokens : s.totalReplayTokenCount = (blocks.map CountedBlock.draftedLength).sum
  anchors : (∀ b ∈ blocks, b.Anchored cfg) → s.anchorTotal = blocks.length
  partials : (∀ b ∈ blocks, b.Anchored cfg) →
    s.anchorPartials = s.compositionCounts.firstRejected

namespace Tallies

variable {cfg : TrackerSettings} {s : ReplayCounters} {blocks : List CountedBlock}

theorem zero : Tallies cfg .zero [] :=
  ⟨rfl, fun _ => by decide, fun _ => by decide⟩

theorem record (h : Tallies cfg s blocks) (b : CountedBlock) :
    Tallies cfg (cfg.record s b) (blocks ++ [b]) where
  tokens := by
    rw [TrackerSettings.totalReplayTokenCount_record, h.tokens]
    simp
  anchors hall := by
    have hsum := TrackerSettings.sumWhere_record s (hall b (by simp)) fun _ => true
    have hold := h.anchors fun c hc => hall c (List.mem_append_left _ hc)
    unfold ReplayCounters.anchorTotal AnchorCounts.total at hold ⊢
    rw [hsum, hold]
    simp
  partials hall := by
    have hsum := TrackerSettings.sumWhere_record s (hall b (by simp)) (· ≠ .fullAcceptAfterBlock)
    have hold := h.partials fun c hc => hall c (List.mem_append_left _ hc)
    -- the block is under a position when a token of it was rejected
    have hrejected : (if decide (b.bucket ≠ .fullAcceptAfterBlock) then 1 else 0) = b.rejected := by
      have hle : b.accepted ≤ b.draftedLength := b.accepted_le
      unfold CountedBlock.bucket CountedBlock.rejected
      by_cases hfull : b.accepted = b.draftedLength
      · simp [hfull]
      · simp [hfull, lt_of_le_of_ne hle hfull]
    rw [hrejected] at hsum
    unfold ReplayCounters.anchorPartials AnchorCounts.partials at hold ⊢
    rw [hsum, hold]
    rfl

theorem foldl (h : Tallies cfg s blocks) (bs : List CountedBlock) :
    Tallies cfg (bs.foldl cfg.record s) (blocks ++ bs) := by
  induction bs generalizing s blocks with
  | nil => rwa [List.append_nil]
  | cons b bs ih =>
    rw [List.foldl_cons, ← List.singleton_append, ← List.append_assoc]
    exact ih (h.record b)

theorem updateRollout (h : Tallies cfg s blocks) (call : RolloutCall) :
    Tallies cfg (cfg.updateRollout s call).1 (blocks ++ call.counted cfg) := by
  rw [cfg.updateRollout_logs]
  exact h.foldl _

theorem afterCalls (h : Tallies cfg s blocks) (calls : List RolloutCall) :
    Tallies cfg (cfg.afterCalls s calls) (blocks ++ calls.flatMap (·.counted cfg)) := by
  induction calls generalizing s blocks with
  | nil => rwa [List.flatMap_nil, List.append_nil]
  | cons call calls ih =>
    rw [List.flatMap_cons, ← List.append_assoc]
    exact ih (h.updateRollout call)

end Tallies

/-- What a call, whether it returns or raises, does to the counters. -/
structure CallCounts (cfg : TrackerSettings) (s : ReplayCounters) (call : RolloutCall) :
    Prop where
  /-- The loop has a row for every sample. -/
  samples : ∀ rows, call.rows = .ok rows → rows.length = call.batchSize
  /-- A check on the whole batch raises before anything is counted. -/
  rejected : ∀ e, call.rows = .error e → cfg.updateRollout s call = (s, some e)
  /-- The counted blocks are the first of the drafted ones. -/
  counted_prefix : (call.counted cfg).map CountedBlock.lengths <+: call.draftedBlocks
  /-- A call that returns has counted every drafted block. -/
  of_return : (cfg.updateRollout s call).2 = none →
    (call.counted cfg).map CountedBlock.lengths = call.draftedBlocks
  /-- A counted block without an anchor position makes the call raise there. -/
  anchored : AwayFromAnchors (cfg.updateRollout s call).2 →
    ∀ b ∈ call.counted cfg, b.Anchored cfg
  /-- The counters get the counted blocks and nothing else. -/
  counters : (∀ b ∈ call.counted cfg, b.Anchored cfg) →
    (cfg.updateRollout s call).1 = (call.counted cfg).foldl cfg.record s
  /-- A call that raises before the first drafted block leaves the counters. -/
  unchanged : call.counted cfg = [] → (cfg.updateRollout s call).1 = s

theorem callCounts (cfg : TrackerSettings) (s : ReplayCounters) (call : RolloutCall) :
    CallCounts cfg s call := by
  have hlogs : cfg.updateRollout s call =
      ((call.counted cfg).foldl cfg.record s, (cfg.readCall call).2) :=
    cfg.updateRollout_logs s call
  obtain ⟨hfirst, hall⟩ := cfg.readCall_reads call
  refine ⟨fun rows => RolloutCall.length_rows, fun e he => ?_, hfirst, fun hnone => hall ?_,
    fun hends => cfg.anchored_of_readCall ?_, fun _ => ?_, fun hnil => ?_⟩
  · rw [TrackerSettings.updateRollout, he]
  · rwa [hlogs] at hnone
  · rwa [hlogs] at hends
  · rw [hlogs]
  · rw [hlogs, hnil]
    rfl

/-- After any calls, returning or raising, the counters add up over the counted blocks, and each
call counts the blocks before the place where it raises. -/
theorem replay_tracker_tallies (cfg : TrackerSettings) (calls : List RolloutCall) :
    Tallies cfg (cfg.afterCalls .zero calls) (calls.flatMap (·.counted cfg)) ∧
      ∀ (s : ReplayCounters) (call : RolloutCall), CallCounts cfg s call :=
  ⟨Tallies.zero.afterCalls calls, callCounts cfg⟩

-- token-aligned lists of one sample : a block accepted whole, one not at all, one up to three
-- tokens
example :
    (TrackerSettings.updateRollout ⟨2, 16⟩ .zero
      { batchSize := 1
        acceptedLengths := some (.list [.list [.list [.scalar (some 16)], .list [],
          .list [.scalar (some 0)], .list [.scalar (some 3)]]])
        draftedLengths := some (.list [.list [.list [.scalar (some 16)], .list [],
          .list [.scalar (some 16)], .list [.scalar (some 16)]]])
        globalSteps := some (.list [.scalar (some 1)])
        fallbackGlobalStep := 1 }).1.compositionCounts = ⟨19, 2, 27⟩ := by
  decide

/-- The second sample has one accepted length and two drafted ones. The first is counted before
the call raises. -/
theorem update_rollout_keeps_earlier_rows :
    let cfg : TrackerSettings := ⟨2, 16⟩
    let call : RolloutCall :=
      { batchSize := 2
        acceptedLengths := some (.list [.list [.scalar (some 1)], .list [.scalar (some 2)]])
        draftedLengths := some (.list [.list [.scalar (some 3)],
          .list [.scalar (some 4), .scalar (some 5)]])
        globalSteps := none
        fallbackGlobalStep := 1 }
    (cfg.updateRollout .zero call).2 = some (.lengthMismatch 1 1 2) ∧
      (cfg.updateRollout .zero call).1 ≠ .zero := by
  refine ⟨by decide, fun h => ?_⟩
  exact absurd (congrArg ReplayCounters.totalReplayTokenCount h) (by decide)

end DraftOpd
