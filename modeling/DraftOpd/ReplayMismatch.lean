import DraftOpd.ReplayBlocks
import DraftOpd.SortedSet
import DraftOpd.TensorOps
import Mathlib.Algebra.Order.BigOperators.Group.List
import Mathlib.Algebra.Order.Ring.Rat
import Mathlib.Data.Int.Interval

/-!
# The mismatch of the replay blocks

The trainer counts the tokens of a replay block from its two lengths (`replay_block_counts`). The
model measures the divergence of the draft on the same blocks, and selects the states offset by
offset : it clips the lengths to the block, and drops the offsets that are out of bounds
(`_compute_replay_dis_mismatch`).

`replay_mismatch_groups` : the accepted, first rejected and suffix states are the matched states,
each once, so their numbers and divergences add up. A group has at most as many states as the
trainer counts, since clipping changes the accepted length only of blocks that it leaves nothing
rejected of (`interval_clipped_le`). With nothing to clip or drop the numbers are equal.
-/

namespace DraftOpd

/-! ## The plan -/

/-- A replay block of the batch, with its entry of the mask. -/
structure ReplayBlock where
  anchorIndex : ℤ
  acceptedLength : ℤ
  draftedLength : ℤ
  mask : Bool
deriving DecidableEq, Repr

/-- A sample with its replay blocks. -/
structure ReplaySample where
  promptLen : ℤ
  responseLen : ℤ
  /-- The sample's row of the attention mask, if there is one. -/
  attentionMask : Option (List ℤ)
  blocks : List ReplayBlock
deriving DecidableEq, Repr

/-- A block of the plan. -/
structure PlannedBlock where
  anchorPosition : ℤ
  acceptedLength : ℤ
  draftedLength : ℤ
  keep : Bool
deriving DecidableEq, Repr

namespace ReplaySample

/-- `valid_seq_lens` of a sample. -/
def validSeqLen (s : ReplaySample) (seqLen : ℕ) : ℤ :=
  match s.attentionMask with
  | some row => row.sum
  | none => seqLen

/-- The position of a block's anchor in the sequence. -/
def fullAnchor (s : ReplaySample) (block : ReplayBlock) : ℤ :=
  if block.anchorIndex < 0 then s.promptLen - 1 else s.promptLen + block.anchorIndex

/-- One block of `_build_replay_dis_anchor_plan` (`dflash_student.py:533-549`). -/
def planBlock (s : ReplaySample) (seqLen : ℕ) (draftBlockSize : ℤ) (block : ReplayBlock) :
    PlannedBlock :=
  let validLen := min (s.promptLen + s.responseLen) seqLen
  if !block.mask then ⟨0, 0, 0, false⟩
  else if block.draftedLength ≤ 0 then ⟨0, 0, 0, false⟩
  else
    let draftedLen := min block.draftedLength (draftBlockSize - 1)
    let acceptedLen := max 0 (min block.acceptedLength draftedLen)
    let fullAnchor := s.fullAnchor block
    if fullAnchor < 0 ∨ fullAnchor ≥ validLen then ⟨0, 0, 0, false⟩
    else ⟨fullAnchor, acceptedLen, draftedLen, true⟩

end ReplaySample

/-- `_build_replay_dis_anchor_plan` (`dflash_student.py:504-551`). -/
def buildReplayDisAnchorPlan (samples : List ReplaySample) (seqLen : ℕ) (draftBlockSize : ℤ) :
    List (List PlannedBlock) :=
  samples.map fun s => s.blocks.map (s.planBlock seqLen draftBlockSize)

/-! ## The groups -/

/-- The groups of the metrics. -/
inductive ReplayGroup where
  | matchedTargetTrajectory
  | acceptedReplay
  | firstRejectedReplay
  | postRejectionSuffixReplay
deriving DecidableEq, Repr

/-- The states of a group, by their offset and the accepted length of their block. -/
def ReplayGroup.mask (group : ReplayGroup) (blockOffset acceptedLen : ℤ) : Bool :=
  match group with
  | .matchedTargetTrajectory => true
  | .acceptedReplay => decide (blockOffset ≤ acceptedLen)
  | .firstRejectedReplay => decide (blockOffset = acceptedLen + 1)
  | .postRejectionSuffixReplay => decide (blockOffset > acceptedLen + 1)

/-- The two metrics of a group. -/
structure ReplayMetrics where
  sumKl : ℚ
  numStates : ℕ
deriving DecidableEq, Repr

/-- A block of the batch, where it stands in the plan. -/
structure ReplayEntry where
  batchIdx : ℕ
  blockId : ℕ
  block : PlannedBlock
  validSeqLen : ℤ

/-- The entries of the plan, row by row, as `torch.nonzero` lists them. -/
def replayEntries (plan : List (List PlannedBlock)) (validSeqLens : List ℤ) :
    List ReplayEntry :=
  (plan.zip validSeqLens).zipIdx.flatMap fun x => x.1.1.zipIdx.map fun y =>
    ⟨x.2, y.2, y.1, x.1.2⟩

/-- The entry has a state at the offset : it is active, and its label is in bounds. -/
def ReplayEntry.selects (e : ReplayEntry) (blockOffset : ℤ) : Bool :=
  let rowIndex := e.block.anchorPosition + (blockOffset - 1)
  let labelIndex := rowIndex + 1
  e.block.keep && decide (blockOffset ≤ e.block.draftedLength) &&
    decide (labelIndex < e.validSeqLen)

section Mismatch

variable {H : Type} (draftForward : List (List PlannedBlock) → ℕ → ℤ → H)
  (targetLmHidden : ℕ → ℤ → H) (kl : H → H → ℚ)

/-- `_compute_reverse_kl_sums` (`dflash_student.py:479-502`), for the divergence of one state. -/
def computeReverseKlSums (chunkSize : ℕ) (states : List (H × H)) : ReplayMetrics :=
  if states.length = 0 then ⟨0, 0⟩
  else (chunks chunkSize states).foldl (fun acc chunk =>
    ⟨acc.sumKl + (chunk.map fun x => kl x.1 x.2).sum, acc.numStates + chunk.length⟩) ⟨0, 0⟩

/-- The states that the loop over the offsets selects for a group (`dflash_student.py:624-656`). -/
def selectedStates (draftBlockSize : ℤ) (draftHidden : ℕ → ℤ → H) (entries : List ReplayEntry)
    (group : ReplayGroup) : List (H × H) :=
  (intRange 1 draftBlockSize).flatMap fun blockOffset =>
    ((entries.filter fun e => e.selects blockOffset).filter fun e =>
      group.mask blockOffset e.block.acceptedLength).map fun e =>
        (draftHidden e.batchIdx (e.blockId * draftBlockSize + blockOffset),
          targetLmHidden e.batchIdx (e.block.anchorPosition + (blockOffset - 1)))

/-- `_compute_replay_dis_mismatch` (`dflash_student.py:553-672`) ; there are no samples when one of
the replay tensors is missing. -/
def computeReplayDisMismatch (seqLen : ℕ) (draftBlockSize : ℤ) (lmHeadChunkSize : ℕ)
    (samples : Option (List ReplaySample)) (group : ReplayGroup) : ReplayMetrics :=
  match samples with
  | none => ⟨0, 0⟩
  | some samples =>
    if !samples.any fun s => s.blocks.any ReplayBlock.mask then ⟨0, 0⟩
    else
      let plan := buildReplayDisAnchorPlan samples seqLen draftBlockSize
      if !plan.any fun row => row.any PlannedBlock.keep then ⟨0, 0⟩
      else
        let draftHidden := draftForward plan
        let entries := replayEntries plan (samples.map fun s => s.validSeqLen seqLen)
        computeReverseKlSums kl lmHeadChunkSize
          (selectedStates targetLmHidden draftBlockSize draftHidden entries group)

variable {draftForward targetLmHidden kl}

/-! ## The sums -/

theorem foldl_chunks (states : List (List (H × H))) : ∀ acc : ReplayMetrics,
    states.foldl (fun acc chunk => ⟨acc.sumKl + (chunk.map fun x => kl x.1 x.2).sum,
      acc.numStates + chunk.length⟩) acc =
      ⟨acc.sumKl + (states.flatten.map fun x => kl x.1 x.2).sum,
        acc.numStates + states.flatten.length⟩ := by
  induction states with
  | nil => simp
  | cons chunk states ih =>
    intro acc
    rw [List.foldl_cons, ih, List.flatten_cons, List.map_append, List.sum_append,
      List.length_append, add_assoc, Nat.add_assoc]

theorem computeReverseKlSums_eq {chunkSize : ℕ} (hchunk : 0 < chunkSize)
    (states : List (H × H)) : computeReverseKlSums kl chunkSize states =
      ⟨(states.map fun x => kl x.1 x.2).sum, states.length⟩ := by
  unfold computeReverseKlSums
  split_ifs with hnil
  · rw [List.eq_nil_of_length_eq_zero hnil]
    rfl
  · rw [foldl_chunks, flatten_chunks hchunk, zero_add, Nat.zero_add]

/-- Blocks that are not kept have no states. -/
theorem selectedStates_eq_nil {draftBlockSize : ℤ} {draftHidden : ℕ → ℤ → H}
    {plan : List (List PlannedBlock)} (validSeqLens : List ℤ)
    (h : ∀ row ∈ plan, ∀ block ∈ row, block.keep = false) (group : ReplayGroup) :
    selectedStates targetLmHidden draftBlockSize draftHidden
      (replayEntries plan validSeqLens) group = [] := by
  refine List.flatMap_eq_nil_iff.mpr fun blockOffset _ => ?_
  have hnone : (replayEntries plan validSeqLens).filter (fun e => e.selects blockOffset) = [] := by
    refine List.filter_eq_nil_iff.mpr fun e he => ?_
    obtain ⟨x, hx, he⟩ := List.mem_flatMap.mp he
    obtain ⟨y, hy, rfl⟩ := List.mem_map.mp he
    have hrow := (List.of_mem_zip (List.fst_mem_of_mem_zipIdx hx)).1
    simp [ReplayEntry.selects, h _ hrow _ (List.fst_mem_of_mem_zipIdx hy)]
  rw [hnone]
  rfl

/-- The early returns are those of an empty selection. -/
theorem computeReplayDisMismatch_eq {seqLen : ℕ} {draftBlockSize : ℤ} {lmHeadChunkSize : ℕ}
    (hchunk : 0 < lmHeadChunkSize) (samples : List ReplaySample) (group : ReplayGroup) :
    computeReplayDisMismatch draftForward targetLmHidden kl seqLen draftBlockSize lmHeadChunkSize
        (some samples) group =
      let plan := buildReplayDisAnchorPlan samples seqLen draftBlockSize
      let states := selectedStates targetLmHidden draftBlockSize (draftForward plan)
        (replayEntries plan (samples.map fun s => s.validSeqLen seqLen)) group
      ⟨(states.map fun x => kl x.1 x.2).sum, states.length⟩ := by
  have hempty : (∀ row ∈ buildReplayDisAnchorPlan samples seqLen draftBlockSize,
      ∀ block ∈ row, block.keep = false) →
      (⟨0, 0⟩ : ReplayMetrics) =
      let plan := buildReplayDisAnchorPlan samples seqLen draftBlockSize
      let states := selectedStates targetLmHidden draftBlockSize (draftForward plan)
        (replayEntries plan (samples.map fun s => s.validSeqLen seqLen)) group
      ⟨(states.map fun x => kl x.1 x.2).sum, states.length⟩ := by
    intro h
    dsimp only
    rw [selectedStates_eq_nil _ h]
    rfl
  unfold computeReplayDisMismatch
  dsimp only
  split_ifs with hmask hkeep
  · refine hempty fun row hrow block hblock => ?_
    obtain ⟨s, hs, rfl⟩ := List.mem_map.mp hrow
    obtain ⟨b, hb, rfl⟩ := List.mem_map.mp hblock
    have hnot : b.mask = false := by
      by_contra hb'
      simp only [Bool.not_eq_true', List.any_eq_false, List.any_eq_true, not_exists] at hmask
      exact hmask s hs b ⟨hb, by simpa using hb'⟩
    simp [ReplaySample.planBlock, hnot]
  · refine hempty fun row hrow block hblock => ?_
    by_contra hk
    simp only [Bool.not_eq_true', List.any_eq_false, List.any_eq_true, not_exists] at hkeep
    exact hkeep row hrow block ⟨hblock, by simpa using hk⟩
  · exact computeReverseKlSums_eq hchunk _

/-! ## The partition -/

/-- The selected states with their offsets. -/
def replayStates (draftBlockSize : ℤ) (entries : List ReplayEntry) : List (ℤ × ReplayEntry) :=
  (intRange 1 draftBlockSize).flatMap fun blockOffset =>
    (entries.filter fun e => e.selects blockOffset).map fun e => (blockOffset, e)

theorem selectedStates_eq (draftBlockSize : ℤ) (draftHidden : ℕ → ℤ → H)
    (entries : List ReplayEntry) (group : ReplayGroup) :
    selectedStates targetLmHidden draftBlockSize draftHidden entries group =
      ((replayStates draftBlockSize entries).filter fun x =>
        group.mask x.1 x.2.block.acceptedLength).map fun x =>
          (draftHidden x.2.batchIdx (x.2.blockId * draftBlockSize + x.1),
            targetLmHidden x.2.batchIdx (x.2.block.anchorPosition + (x.1 - 1))) := by
  rw [replayStates, List.filter_flatMap, List.map_flatMap]
  refine List.flatMap_congr fun blockOffset _ => ?_
  rw [List.filter_map, List.map_map]
  rfl

/-- The states of a group. -/
def ReplayGroup.states (group : ReplayGroup) (states : List (ℤ × ReplayEntry)) :
    List (ℤ × ReplayEntry) :=
  states.filter fun x => group.mask x.1 x.2.block.acceptedLength

/-- Every state is in one of the three groups. -/
theorem perm_groups (states : List (ℤ × ReplayEntry)) :
    (ReplayGroup.acceptedReplay.states states ++
      (ReplayGroup.firstRejectedReplay.states states ++
        ReplayGroup.postRejectionSuffixReplay.states states)).Perm
      (ReplayGroup.matchedTargetTrajectory.states states) := by
  have hall : ReplayGroup.matchedTargetTrajectory.states states = states :=
    List.filter_eq_self.mpr fun _ _ => rfl
  let rest := states.filter fun x =>
    !ReplayGroup.acceptedReplay.mask x.1 x.2.block.acceptedLength
  have hfirst : ReplayGroup.firstRejectedReplay.states rest =
      ReplayGroup.firstRejectedReplay.states states := by
    unfold ReplayGroup.states
    rw [List.filter_filter]
    refine List.filter_congr fun x _ => ?_
    simp only [ReplayGroup.mask, Bool.and_eq_decide, Bool.not_eq_true', decide_eq_true_eq,
      decide_eq_false_iff_not, decide_eq_decide]
    omega
  have hsuffix : (rest.filter fun x =>
      !ReplayGroup.firstRejectedReplay.mask x.1 x.2.block.acceptedLength) =
      ReplayGroup.postRejectionSuffixReplay.states states := by
    unfold ReplayGroup.states
    rw [List.filter_filter]
    refine List.filter_congr fun x _ => ?_
    simp only [ReplayGroup.mask, Bool.and_eq_decide, Bool.not_eq_true', decide_eq_false_iff_not,
      decide_eq_decide]
    omega
  have hrest := List.filter_append_perm (fun x =>
    ReplayGroup.firstRejectedReplay.mask x.1 x.2.block.acceptedLength) rest
  rw [hsuffix] at hrest
  change (ReplayGroup.firstRejectedReplay.states rest ++ _).Perm rest at hrest
  rw [hfirst] at hrest
  rw [hall]
  exact (hrest.append_left _).trans (List.filter_append_perm _ states)

end Mismatch

/-! ## Counting by blocks -/

/-- Pairs counted by their first or by their second part. -/
theorem sum_length_filter_comm {α β : Type*} (p : α → β → Bool) (ys : List β) : ∀ xs : List α,
    (xs.map fun x => (ys.filter (p x)).length).sum =
      (ys.map fun y => (xs.filter fun x => p x y).length).sum
  | [] => by simp
  | x :: xs => by
    have hone : (ys.filter (p x)).length = (ys.map fun y => if p x y then 1 else 0).sum := by
      rw [List.sum_map_ite]
      simp
    rw [List.map_cons, List.sum_cons, sum_length_filter_comm p ys xs, hone, ← List.sum_map_add]
    refine congrArg List.sum (List.map_congr_left fun y _ => ?_)
    rw [List.filter_cons]
    split_ifs <;> simp [Nat.add_comm]

/-- The offsets at which a planned block has a state of the group. -/
def PlannedBlock.offsets (block : PlannedBlock) (draftBlockSize validSeqLen : ℤ)
    (group : ReplayGroup) : List ℤ :=
  (intRange 1 draftBlockSize).filter fun blockOffset =>
    (block.keep && decide (blockOffset ≤ block.draftedLength) &&
      decide (block.anchorPosition + (blockOffset - 1) + 1 < validSeqLen)) &&
    group.mask blockOffset block.acceptedLength

theorem length_states (draftBlockSize : ℤ) (entries : List ReplayEntry) (group : ReplayGroup) :
    (group.states (replayStates draftBlockSize entries)).length =
      (entries.map fun e => (e.block.offsets draftBlockSize e.validSeqLen group).length).sum := by
  unfold PlannedBlock.offsets
  rw [← sum_length_filter_comm (fun blockOffset e => (e.block.keep &&
    decide (blockOffset ≤ e.block.draftedLength) &&
    decide (e.block.anchorPosition + (blockOffset - 1) + 1 < e.validSeqLen)) &&
      group.mask blockOffset e.block.acceptedLength) entries (intRange 1 draftBlockSize),
    ReplayGroup.states, replayStates, List.filter_flatMap, List.length_flatMap]
  refine congrArg List.sum (List.map_congr_left fun blockOffset _ => ?_)
  rw [List.filter_map, List.length_map, List.filter_filter]
  refine congrArg List.length (List.filter_congr fun e _ => ?_)
  exact Bool.and_comm _ _

/-- The entries of the plan are the blocks of the samples. -/
theorem map_replayEntries {β : Type*} (f : PlannedBlock → ℤ → β) (samples : List ReplaySample)
    (seqLen : ℕ) (draftBlockSize : ℤ) :
    (replayEntries (buildReplayDisAnchorPlan samples seqLen draftBlockSize)
      (samples.map fun s => s.validSeqLen seqLen)).map (fun e => f e.block e.validSeqLen) =
      samples.flatMap fun s => s.blocks.map fun block =>
        f (s.planBlock seqLen draftBlockSize block) (s.validSeqLen seqLen) := by
  have hrow : ∀ (row : List PlannedBlock) (v : ℤ),
      (row.zipIdx.map fun y => f y.1 v) = row.map fun block => f block v := by
    intro row v
    conv_rhs => rw [← List.zipIdx_map_fst 0 row, List.map_map]
    rfl
  have hzip : (buildReplayDisAnchorPlan samples seqLen draftBlockSize).zip
      (samples.map fun s => s.validSeqLen seqLen) = samples.map fun s =>
        (s.blocks.map (s.planBlock seqLen draftBlockSize), s.validSeqLen seqLen) :=
    List.zip_map'
  have hout : ∀ xs : List (List PlannedBlock × ℤ),
      (xs.zipIdx.flatMap fun x => x.1.1.map fun block => f block x.1.2) =
        xs.flatMap fun x => x.1.map fun block => f block x.2 := by
    intro xs
    conv_rhs => rw [← List.zipIdx_map_fst 0 xs, List.flatMap_map]
  rw [replayEntries, List.map_flatMap, hzip]
  simp only [List.map_map, Function.comp_def, hrow]
  rw [hout, List.flatMap_map]
  simp only [List.map_map, Function.comp_def]

/-! ## The trainer's counts -/

/-- What the trainer counts for a group. -/
def ReplayGroup.count (group : ReplayGroup) (counts : ReplayCounts) : ℤ :=
  match group with
  | .matchedTargetTrajectory =>
    counts.accepted + counts.firstRejected + counts.postRejectionSuffix
  | .acceptedReplay => counts.accepted
  | .firstRejectedReplay => counts.firstRejected
  | .postRejectionSuffixReplay => counts.postRejectionSuffix

/-- The blocks both sides look at : masked, with drafted tokens. -/
def countedBlocks (samples : List ReplaySample) : List (ReplaySample × ReplayBlock) :=
  samples.flatMap fun s => (s.blocks.filter fun block =>
    block.mask && decide (0 < block.draftedLength)).map fun block => (s, block)

/-- `replay_block_counts` of every block. -/
def blockCounts (blocks : List (ReplaySample × ReplayBlock)) :
    Except ReplayError (List ReplayCounts) :=
  blocks.mapM fun x => replayBlockCounts x.2.acceptedLength x.2.draftedLength

/-- A block that nothing is clipped or dropped from. -/
structure ReplaySample.Whole (s : ReplaySample) (seqLen : ℕ) (draftBlockSize : ℤ)
    (block : ReplayBlock) : Prop where
  accepted_nonneg : 0 ≤ block.acceptedLength
  accepted_le : block.acceptedLength ≤ block.draftedLength
  drafted_le : block.draftedLength ≤ draftBlockSize - 1
  anchor_mem : 0 ≤ s.fullAnchor block ∧
    s.fullAnchor block < min (s.promptLen + s.responseLen) seqLen
  label_lt : s.fullAnchor block + block.draftedLength < s.validSeqLen seqLen

theorem replayBlockCounts_ok {a d : ℤ} {counts : ReplayCounts} (hd : 0 < d)
    (h : replayBlockCounts a d = .ok counts) : max a 0 ≤ d ∧ counts.accepted = max a 0 ∧
      counts.firstRejected = min 1 (d - max a 0) ∧
      counts.postRejectionSuffix = max (d - max a 0 - 1) 0 := by
  simp only [replayBlockCounts, max_eq_left hd.le] at h
  split_ifs at h with hraise hlt
  · obtain rfl := Except.ok.inj h
    refine ⟨by omega, rfl, ?_, rfl⟩
    dsimp only
    omega
  · obtain rfl := Except.ok.inj h
    refine ⟨by omega, rfl, ?_, ?_⟩ <;> dsimp only <;> omega

/-- A list of offsets in an interval. -/
theorem length_le_of_mem {xs : List ℤ} (hxs : xs.Nodup) {l u : ℤ} (h : ∀ x ∈ xs, l ≤ x ∧ x ≤ u) :
    (xs.length : ℤ) ≤ max (u + 1 - l) 0 := by
  have hsub : xs.toFinset ⊆ Finset.Icc l u := fun x hx =>
    Finset.mem_Icc.mpr (h x (List.mem_toFinset.mp hx))
  have hcard := Finset.card_le_card hsub
  rw [List.toFinset_card_of_nodup hxs, Int.card_Icc] at hcard
  omega

/-- All offsets of an interval. -/
theorem length_eq_of_mem {xs : List ℤ} (hxs : xs.Nodup) {l u : ℤ}
    (h : ∀ x, x ∈ xs ↔ l ≤ x ∧ x ≤ u) : (xs.length : ℤ) = max (u + 1 - l) 0 := by
  have heq : xs.toFinset = Finset.Icc l u := by
    ext x
    rw [List.mem_toFinset, h, Finset.mem_Icc]
  have hcard := congrArg Finset.card heq
  rw [List.toFinset_card_of_nodup hxs, Int.card_Icc] at hcard
  omega

namespace PlannedBlock

variable {block : PlannedBlock} {draftBlockSize validSeqLen : ℤ} {group : ReplayGroup}

theorem nodup_offsets : (block.offsets draftBlockSize validSeqLen group).Nodup :=
  ((pairwise_intRange 1 draftBlockSize).imp ne_of_lt).filter _

theorem mem_offsets {o : ℤ} : o ∈ block.offsets draftBlockSize validSeqLen group ↔
    (1 ≤ o ∧ o < draftBlockSize) ∧ (block.keep = true ∧ o ≤ block.draftedLength ∧
      block.anchorPosition + o < validSeqLen) ∧ group.mask o block.acceptedLength = true := by
  rw [offsets, List.mem_filter, mem_intRange]
  simp only [Bool.and_eq_true, decide_eq_true_eq]
  constructor
  · rintro ⟨hrange, ⟨⟨hkeep, hle⟩, hlt⟩, hmask⟩
    exact ⟨hrange, ⟨hkeep, hle, by omega⟩, hmask⟩
  · rintro ⟨hrange, ⟨hkeep, hle, hlt⟩, hmask⟩
    exact ⟨hrange, ⟨⟨hkeep, hle⟩, by omega⟩, hmask⟩

end PlannedBlock

/-- The first and the last offset of a group in a block with the lengths `a` and `d`. -/
def ReplayGroup.interval (group : ReplayGroup) (a d : ℤ) : ℤ × ℤ :=
  match group with
  | .matchedTargetTrajectory => (1, d)
  | .acceptedReplay => (1, min a d)
  | .firstRejectedReplay => (a + 1, min (a + 1) d)
  | .postRejectionSuffixReplay => (a + 2, d)

theorem ReplayGroup.mask_iff {group : ReplayGroup} {o a d : ℤ} (ho : 1 ≤ o) (hd : o ≤ d) :
    group.mask o a = true ↔ (group.interval a d).1 ≤ o ∧ o ≤ (group.interval a d).2 := by
  cases group <;> simp only [mask, interval, decide_eq_true_eq, true_iff] <;> omega

/-- The trainer counts the offsets of the group. -/
theorem count_eq_interval {a d : ℤ} {counts : ReplayCounts} (hd : 0 < d)
    (h : replayBlockCounts a d = .ok counts) (group : ReplayGroup) :
    group.count counts =
      max ((group.interval (max a 0) d).2 + 1 - (group.interval (max a 0) d).1) 0 := by
  obtain ⟨hle, hacc, hfirst, hsuffix⟩ := replayBlockCounts_ok hd h
  cases group <;>
    simp only [ReplayGroup.count, ReplayGroup.interval, hacc, hfirst, hsuffix] <;> omega

/-- Clipping the lengths of a block makes no group larger : where it changes the accepted length,
nothing of the block is rejected. -/
theorem interval_clipped_le {a d B : ℤ} (hd : 0 < d) (group : ReplayGroup) :
    max ((group.interval (max 0 (min a (min d B))) (min d B)).2 + 1 -
        (group.interval (max 0 (min a (min d B))) (min d B)).1) 0 ≤
      max ((group.interval (max a 0) d).2 + 1 - (group.interval (max a 0) d).1) 0 := by
  cases group <;> simp only [ReplayGroup.interval] <;> omega

namespace ReplaySample

variable {s : ReplaySample} {seqLen : ℕ} {draftBlockSize : ℤ} {block : ReplayBlock}

theorem planBlock_of_not_counted (h : (block.mask && decide (0 < block.draftedLength)) = false) :
    (s.planBlock seqLen draftBlockSize block).keep = false := by
  simp only [planBlock]
  split_ifs with hmask hdrafted
  · rfl
  · rfl
  · rfl
  · rw [Bool.not_eq_true', Bool.not_eq_false] at hmask
    rw [hmask, Bool.true_and, decide_eq_false_iff_not] at h
    omega

/-- A kept block has the clipped lengths. -/
theorem planBlock_of_keep (h : (s.planBlock seqLen draftBlockSize block).keep = true) :
    s.planBlock seqLen draftBlockSize block = ⟨s.fullAnchor block,
      max 0 (min block.acceptedLength (min block.draftedLength (draftBlockSize - 1))),
      min block.draftedLength (draftBlockSize - 1), true⟩ := by
  simp only [planBlock] at h ⊢
  split_ifs at h ⊢
  rfl

theorem offsets_of_not_keep {validSeqLen : ℤ} {group : ReplayGroup}
    (h : (s.planBlock seqLen draftBlockSize block).keep = false) :
    (s.planBlock seqLen draftBlockSize block).offsets draftBlockSize validSeqLen group = [] := by
  refine List.eq_nil_iff_forall_not_mem.mpr fun o ho => ?_
  rw [PlannedBlock.mem_offsets, h] at ho
  exact absurd ho.2.1.1 Bool.false_ne_true

/-- A block has at most the states that the trainer counts. -/
theorem length_offsets_le (hd : 0 < block.draftedLength) {counts : ReplayCounts}
    (h : replayBlockCounts block.acceptedLength block.draftedLength = .ok counts)
    (validSeqLen : ℤ) (group : ReplayGroup) :
    (((s.planBlock seqLen draftBlockSize block).offsets draftBlockSize validSeqLen group).length
      : ℤ) ≤ group.count counts := by
  rw [count_eq_interval hd h group]
  cases hkeep : (s.planBlock seqLen draftBlockSize block).keep with
  | false =>
    rw [offsets_of_not_keep hkeep]
    exact le_max_right _ _
  | true =>
    refine (length_le_of_mem PlannedBlock.nodup_offsets fun o ho => ?_).trans
      (interval_clipped_le (B := draftBlockSize - 1) hd group)
    rw [planBlock_of_keep hkeep, PlannedBlock.mem_offsets] at ho
    obtain ⟨⟨hone, -⟩, ⟨-, hle, -⟩, hmask⟩ := ho
    exact (ReplayGroup.mask_iff hone hle).mp hmask

/-- A whole block has the states that the trainer counts. -/
theorem length_offsets_eq (hmask : block.mask = true) (hd : 0 < block.draftedLength)
    (hwhole : s.Whole seqLen draftBlockSize block) {counts : ReplayCounts}
    (h : replayBlockCounts block.acceptedLength block.draftedLength = .ok counts)
    (group : ReplayGroup) :
    (((s.planBlock seqLen draftBlockSize block).offsets draftBlockSize (s.validSeqLen seqLen)
      group).length : ℤ) = group.count counts := by
  obtain ⟨hnonneg, hle, hdrafted, hanchor, hlabel⟩ := hwhole
  have hplan : s.planBlock seqLen draftBlockSize block =
      ⟨s.fullAnchor block, block.acceptedLength, block.draftedLength, true⟩ := by
    simp only [planBlock, hmask, Bool.not_true]
    rw [if_neg Bool.false_ne_true, if_neg (by omega), if_neg (by omega), min_eq_left hdrafted,
      min_eq_left hle, max_eq_right hnonneg]
  rw [count_eq_interval hd h group, hplan, max_eq_left hnonneg]
  refine length_eq_of_mem PlannedBlock.nodup_offsets fun o => ?_
  rw [PlannedBlock.mem_offsets]
  constructor
  · rintro ⟨⟨hone, -⟩, ⟨-, ho, -⟩, hgroup⟩
    exact (ReplayGroup.mask_iff hone ho).mp hgroup
  · intro ho
    have hbounds : 1 ≤ o ∧ o ≤ block.draftedLength := by
      cases group <;> simp only [ReplayGroup.interval] at ho <;> omega
    exact ⟨⟨hbounds.1, by omega⟩, ⟨rfl, hbounds.2, by dsimp only; omega⟩,
      (ReplayGroup.mask_iff hbounds.1 hbounds.2).mpr ho⟩

end ReplaySample

/-! ## The result -/

theorem sum_le_of_mapM_ok {α β ε : Type*} {f : α → Except ε β} {xs : List α} {ys : List β}
    (h : xs.mapM f = .ok ys) {g : α → ℤ} {k : β → ℤ}
    (hle : ∀ x ∈ xs, ∀ y, f x = .ok y → g x ≤ k y) : (xs.map g).sum ≤ (ys.map k).sum := by
  obtain ⟨hlen, hmem⟩ := List.forall₂_iff_zip.mp (of_mapM_ok h)
  refine List.Forall₂.sum_le_sum (List.forall₂_map_left_iff.mpr (List.forall₂_map_right_iff.mpr
    (List.forall₂_iff_zip.mpr ⟨hlen, fun hxy => ?_⟩)))
  exact hle _ (List.of_mem_zip hxy).1 _ (hmem hxy)

theorem sum_map_filter {α : Type*} {p : α → Bool} {f : α → ℕ} : ∀ {xs : List α},
    (∀ x ∈ xs, p x = false → f x = 0) → ((xs.filter p).map f).sum = (xs.map f).sum
  | [], _ => rfl
  | x :: xs, h => by
    have ih := sum_map_filter fun y hy => h y (List.mem_cons_of_mem _ hy)
    rw [List.filter_cons, List.map_cons, List.sum_cons]
    split_ifs with hx
    · rw [List.map_cons, List.sum_cons, ih]
    · rw [ih, h x List.mem_cons_self (by simpa using hx), Nat.zero_add]

/-- Only the counted blocks have states. -/
theorem sum_countedBlocks {f : ReplaySample → ReplayBlock → ℕ} :
    ∀ {samples : List ReplaySample}, (∀ s ∈ samples, ∀ block ∈ s.blocks,
      (block.mask && decide (0 < block.draftedLength)) = false → f s block = 0) →
    (samples.flatMap fun s => s.blocks.map (f s)).sum =
      ((countedBlocks samples).map fun x => f x.1 x.2).sum
  | [], _ => rfl
  | s :: samples, h => by
    have ih := sum_countedBlocks fun t ht => h t (List.mem_cons_of_mem _ ht)
    unfold countedBlocks at ih ⊢
    rw [List.flatMap_cons, List.sum_append, ih, List.flatMap_cons, List.map_append,
      List.sum_append, List.map_map]
    exact congrArg (· + _) (sum_map_filter (h s List.mem_cons_self)).symm

theorem mem_countedBlocks {samples : List ReplaySample} {x : ReplaySample × ReplayBlock} :
    x ∈ countedBlocks samples ↔
      x.1 ∈ samples ∧ x.2 ∈ x.1.blocks ∧ x.2.mask = true ∧ 0 < x.2.draftedLength := by
  obtain ⟨s, block⟩ := x
  simp only [countedBlocks, List.mem_flatMap, List.mem_map, List.mem_filter, Bool.and_eq_true,
    decide_eq_true_eq, Prod.mk.injEq]
  constructor
  · rintro ⟨s', hs, b, hb, rfl, rfl⟩
    exact ⟨hs, hb⟩
  · rintro ⟨hs, hb⟩
    exact ⟨s, hs, block, hb, rfl, rfl⟩

section Result

variable {H : Type} {draftForward : List (List PlannedBlock) → ℕ → ℤ → H}
  {targetLmHidden : ℕ → ℤ → H} {kl : H → H → ℚ} {seqLen : ℕ} {draftBlockSize : ℤ}
  {lmHeadChunkSize : ℕ}

/-- The states of a group, block by block. -/
theorem numStates_eq (hchunk : 0 < lmHeadChunkSize) (samples : List ReplaySample)
    (group : ReplayGroup) :
    (computeReplayDisMismatch draftForward targetLmHidden kl seqLen draftBlockSize lmHeadChunkSize
      (some samples) group).numStates =
      ((countedBlocks samples).map fun x => ((x.1.planBlock seqLen draftBlockSize x.2).offsets
        draftBlockSize (x.1.validSeqLen seqLen) group).length).sum := by
  rw [computeReplayDisMismatch_eq hchunk]
  dsimp only
  rw [selectedStates_eq, List.length_map]
  change (group.states _).length = _
  rw [length_states, map_replayEntries (fun block validSeqLen =>
    (block.offsets draftBlockSize validSeqLen group).length), sum_countedBlocks]
  intro s _ block _ hnot
  rw [ReplaySample.offsets_of_not_keep (ReplaySample.planBlock_of_not_counted hnot)]
  rfl

/-- The states of the three groups are the matched states. -/
theorem groups_add_up (hchunk : 0 < lmHeadChunkSize) (samples : Option (List ReplaySample)) :
    let metrics := computeReplayDisMismatch draftForward targetLmHidden kl seqLen draftBlockSize
      lmHeadChunkSize samples
    (metrics .acceptedReplay).numStates + ((metrics .firstRejectedReplay).numStates +
        (metrics .postRejectionSuffixReplay).numStates) =
      (metrics .matchedTargetTrajectory).numStates ∧
    (metrics .acceptedReplay).sumKl + ((metrics .firstRejectedReplay).sumKl +
        (metrics .postRejectionSuffixReplay).sumKl) =
      (metrics .matchedTargetTrajectory).sumKl := by
  cases samples with
  | none => exact ⟨rfl, by simp [computeReplayDisMismatch]⟩
  | some samples =>
    have hperm := perm_groups (replayStates draftBlockSize
      (replayEntries (buildReplayDisAnchorPlan samples seqLen draftBlockSize)
        (samples.map fun s => s.validSeqLen seqLen)))
    dsimp only
    simp only [computeReplayDisMismatch_eq hchunk, selectedStates_eq, List.length_map,
      List.map_map]
    refine ⟨?_, ?_⟩
    · have hlen := hperm.length_eq
      rwa [List.length_append, List.length_append] at hlen
    · have hsum := (hperm.map fun x => kl
        (draftForward (buildReplayDisAnchorPlan samples seqLen draftBlockSize) x.2.batchIdx
          (x.2.blockId * draftBlockSize + x.1))
        (targetLmHidden x.2.batchIdx (x.2.block.anchorPosition + (x.1 - 1)))).sum_eq
      rwa [List.map_append, List.map_append, List.sum_append, List.sum_append] at hsum

/-- The groups partition the matched states, and the trainer's counts bound them. -/
theorem replay_mismatch_groups (hchunk : 0 < lmHeadChunkSize)
    (samples : Option (List ReplaySample)) :
    let metrics := computeReplayDisMismatch draftForward targetLmHidden kl seqLen draftBlockSize
      lmHeadChunkSize samples
    ((metrics .acceptedReplay).numStates + ((metrics .firstRejectedReplay).numStates +
          (metrics .postRejectionSuffixReplay).numStates) =
        (metrics .matchedTargetTrajectory).numStates ∧
      (metrics .acceptedReplay).sumKl + ((metrics .firstRejectedReplay).sumKl +
          (metrics .postRejectionSuffixReplay).sumKl) =
        (metrics .matchedTargetTrajectory).sumKl) ∧
    ∀ (rows : List ReplaySample) (counts : List ReplayCounts), samples = some rows →
      blockCounts (countedBlocks rows) = .ok counts →
      (∀ group, ((metrics group).numStates : ℤ) ≤ (counts.map group.count).sum) ∧
      ((∀ x ∈ countedBlocks rows, x.1.Whole seqLen draftBlockSize x.2) →
        ∀ group, ((metrics group).numStates : ℤ) = (counts.map group.count).sum) := by
  refine ⟨groups_add_up hchunk samples, ?_⟩
  rintro rows counts rfl hcounts
  have hnum : ∀ group, ((computeReplayDisMismatch draftForward targetLmHidden kl seqLen
      draftBlockSize lmHeadChunkSize (some rows) group).numStates : ℤ) =
      ((countedBlocks rows).map fun x => (((x.1.planBlock seqLen draftBlockSize x.2).offsets
        draftBlockSize (x.1.validSeqLen seqLen) group).length : ℤ)).sum := by
    intro group
    rw [numStates_eq hchunk, ← Nat.coe_castAddMonoidHom, map_list_sum, List.map_map]
    rfl
  refine ⟨fun group => ?_, fun hwhole group => ?_⟩
  · rw [hnum]
    refine sum_le_of_mapM_ok hcounts fun x hx c hc => ?_
    exact ReplaySample.length_offsets_le (mem_countedBlocks.mp hx).2.2.2 hc _ group
  · rw [hnum]
    refine congrArg List.sum (map_of_mapM_ok hcounts fun x hx c hc => ?_).symm
    obtain ⟨-, -, hmask, hd⟩ := mem_countedBlocks.mp hx
    exact (ReplaySample.length_offsets_eq hmask hd (hwhole x hx) hc group).symm

end Result

/-- A whole block, and one that is clipped to the block size. -/
theorem replay_mismatch_groups_two :
    let samples : List ReplaySample :=
      [⟨2, 6, none, [⟨-1, 1, 3, true⟩, ⟨1, 2, 9, true⟩]⟩]
    let metrics := computeReplayDisMismatch (fun _ _ i => i) (fun _ i => i)
      (fun q p => (q - p : ℚ)) 8 4 2 (some samples)
    blockCounts (countedBlocks samples) = .ok [⟨1, 1, 1⟩, ⟨2, 1, 6⟩] ∧
      metrics .acceptedReplay = ⟨4, 3⟩ ∧ metrics .firstRejectedReplay = ⟨2, 2⟩ ∧
      metrics .postRejectionSuffixReplay = ⟨0, 1⟩ ∧
      (metrics .acceptedReplay).numStates + ((metrics .firstRejectedReplay).numStates +
        (metrics .postRejectionSuffixReplay).numStates) =
          (metrics .matchedTargetTrajectory).numStates ∧
      ∀ group, ((metrics group).numStates : ℤ) ≤
        ([⟨1, 1, 1⟩, ⟨2, 1, 6⟩].map (ReplayGroup.count group)).sum := by
  have hcounts : blockCounts (countedBlocks
      [⟨2, 6, none, [⟨-1, 1, 3, true⟩, ⟨1, 2, 9, true⟩]⟩]) = .ok [⟨1, 1, 1⟩, ⟨2, 1, 6⟩] := by
    decide +kernel
  have hgroups := @replay_mismatch_groups ℤ (fun _ _ i => i) (fun _ i => i)
    (fun q p => (q - p : ℚ)) 8 4 2 (by decide)
    (some [⟨2, 6, none, [⟨-1, 1, 3, true⟩, ⟨1, 2, 9, true⟩]⟩])
  refine ⟨hcounts, ?_, ?_, ?_, hgroups.1.1, (hgroups.2 _ _ rfl hcounts).1⟩ <;> decide +kernel

end DraftOpd
