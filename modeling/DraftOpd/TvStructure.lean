import DraftOpd.TvPlan
import Mathlib.Algebra.Field.Rat

/-!
# The structure of the position plan

A plan that `_build_tv_position_plan` returns is made of blocks with the offsets `1, …, k`
of an anchor of their own (`TvShaped`). The later rejects of a block, and only they, have the
target row `-1` and are listed by its branch (`flatIndices_tvBranchSpecs`).

`tvPlan_structure` is the result for every input, and `computeE2eTvBlockOutputs_ok` says that
the loss of the blocks finds a position in each.
-/

namespace DraftOpd

/-! ## The loss of the blocks -/

/-- `Exact DFLASH TV block has no positions`. -/
structure EmptyBlockError where
  blockIdx : ℕ
deriving DecidableEq, Repr

/-- The running products of `clamp(1 - tv, 0, 1)`. -/
def cumulativeOverlap : ℚ → List ℚ → List ℚ
  | _, [] => []
  | acc, tv :: rest =>
    let overlap := acc * min (max (1 - tv) 0) 1
    overlap :: cumulativeOverlap overlap rest

/-- `tv_distances[block_indices == block_idx]`. -/
def blockTv (tvDistances : List ℚ) (blockIndices : List ℕ) (blockIdx : ℕ) : List ℚ :=
  ((tvDistances.zip blockIndices).filter fun x => x.2 == blockIdx).map Prod.fst

/-- The loss and the expected accept length of a block. -/
def blockOutput (blockTv : List ℚ) : ℚ × ℚ :=
  let expectedAcceptLength := (cumulativeOverlap 1 blockTv).sum
  (1 - expectedAcceptLength / blockTv.length, expectedAcceptLength)

/-- `_compute_e2e_tv_block_outputs` (`dflash_student.py:1348-1368`). -/
def computeE2eTvBlockOutputs (tvDistances : List ℚ) (blockIndices : List ℕ) (blockCount : ℕ) :
    Except EmptyBlockError (List (ℚ × ℚ)) :=
  forRange blockCount fun blockIdx =>
    if blockTv tvDistances blockIndices blockIdx = [] then .error ⟨blockIdx⟩
    else .ok (blockOutput (blockTv tvDistances blockIndices blockIdx))

/-! ## The offsets of a block -/

/-- The rejected offsets of an anchor, from the first to the last. -/
structure SuffixOk (draftBlockSize : ℕ) (byOffset : Dict ℤ ℤ) (first last : ℤ) : Prop where
  offsets : sortedOffsets byOffset = intRange first (last + 1)
  first_pos : 1 ≤ first
  first_le : first ≤ last
  last_lt : last < draftBlockSize

namespace SuffixOk

variable {draftBlockSize : ℕ} {byOffset : Dict ℤ ℤ} {first last : ℤ}
  (h : SuffixOk draftBlockSize byOffset first last)

include h

theorem head : (sortedOffsets byOffset).headD 0 = first := by
  have := h.first_le
  rw [h.offsets, intRange_eq_cons (by omega)]
  rfl

theorem mem_keys {o : ℤ} : o ∈ byOffset.keys ↔ first ≤ o ∧ o ≤ last := by
  rw [← mem_sortedSet, ← sortedOffsets, h.offsets, mem_intRange]
  omega

/-- The accepted offsets and the rejected ones, or the first of these. -/
theorem selectedOffsets_eq (segmentLen : ℤ) (firstTokenOnly : Bool) :
    selectedOffsets (some byOffset) segmentLen firstTokenOnly =
      intRange 1 ((if firstTokenOnly then first else last) + 1) := by
  have hpos := h.first_pos
  have hle := h.first_le
  simp only [selectedOffsets, h.head]
  cases firstTokenOnly with
  | true =>
    have htake : (sortedOffsets byOffset).take 1 = intRange first (first + 1) := by
      rw [h.offsets, intRange_eq_cons (by omega), intRange_eq_cons (by omega : first < first + 1)]
      simp [intRange]
    simp only [if_true, htake]
    exact intRange_append hpos (by omega)
  | false =>
    simp only [Bool.false_eq_true, if_false, h.offsets]
    exact intRange_append hpos (by omega)

theorem isLaterReject_iff {o : ℤ} :
    isLaterReject (some byOffset) o = true ↔ first < o ∧ o ≤ last := by
  simp only [isLaterReject, Option.any_some, decide_eq_true_eq, h.head, h.mem_keys]
  omega

/-- A block has a branch when it selects a later reject. -/
theorem tvBranch_isSome (hlt : first < last) :
    tvBranch (some byOffset) false =
      some ⟨first, (intRange first (last + 1)).map fun o => (byOffset.get? o).getD 0⟩ := by
  have hlen : 1 < (sortedOffsets byOffset).length := by
    rw [h.offsets]
    simp only [intRange, List.length_map, List.length_range]
    omega
  simp only [tvBranch, Option.bind_some, Bool.not_false, true_and, h.head]
  rw [if_pos hlen, h.offsets]

end SuffixOk

/-- The checks on an anchor's rejected drafts leave a contiguous suffix. -/
theorem Sample.suffixOk_of_checks {s : Sample} {draftBlockSize batchIdx : ℕ}
    {cells : List RejectedCell} {index : RejectedIndex}
    (hindex : cells.foldlM (s.indexCell batchIdx draftBlockSize) .empty = .ok index)
    (hsuffixes : ∀ entry ∈ index.entries, s.checkSuffix batchIdx entry = .ok ()) {a : ℤ}
    {byOffset : Dict ℤ ℤ} (hget : index.get? a = some byOffset) :
    ∃ first last, SuffixOk draftBlockSize byOffset first last ∧
      a + first - 1 < (s.validSeqLen : ℤ) := by
  obtain ⟨hindexed, hok⟩ := indexed_of_ok hindex
  have hkeys := hindexed.nonempty a byOffset hget
  have hsuffix := hsuffixes (a, byOffset) (Dict.mem_entries_iff.mpr hget)
  have hrange : ∀ o ∈ sortedOffsets byOffset, 1 ≤ o ∧ o < draftBlockSize := by
    intro o ho
    have hkey := Dict.mem_keys_iff.mp (mem_sortedSet.mp ho)
    obtain ⟨t, ht⟩ := Option.ne_none_iff_exists'.mp hkey
    obtain ⟨cell, hcell, hmask, -, rfl, -⟩ := hindexed.stored a o t (by rw [lookup, hget]; exact ht)
    have hcellOk := hok cell hcell hmask
    exact ⟨hcellOk.offset_pos, hcellOk.offset_lt⟩
  have hne : sortedOffsets byOffset ≠ [] := by rwa [sortedOffsets, Ne, sortedSet_eq_nil]
  unfold checkSuffix at hsuffix
  simp only at hsuffix
  split_ifs at hsuffix with hcontig hrow
  have hoffsets := not_not.mp hcontig
  have hfirst := headD_mem hne 0
  have hlast := getLastD_mem hne 0
  refine ⟨_, _, ⟨hoffsets, (hrange _ hfirst).1, ?_, (hrange _ hlast).2⟩, by omega⟩
  exact headD_le_of_pairwise (pairwise_sortedSet _) hlast 0

theorem Sample.PlanOk.suffixOk {s : Sample} {draftBlockSize batchIdx : ℕ} {firstTokenOnly : Bool}
    {planRow : List AnchorCell} {cells : List RejectedCell} {index : RejectedIndex}
    (h : s.PlanOk draftBlockSize batchIdx firstTokenOnly planRow cells index) {a : ℤ}
    {byOffset : Dict ℤ ℤ} (hget : index.get? a = some byOffset) :
    ∃ first last, SuffixOk draftBlockSize byOffset first last ∧
      a + first - 1 < (s.validSeqLen : ℤ) :=
  Sample.suffixOk_of_checks h.indexed h.suffix hget

/-! ## The shape of a block -/

/-- A block of a sample's row of the plan. -/
structure TvShaped (s : Sample) (draftBlockSize batchIdx : ℕ) (planRow : List AnchorCell)
    (block : TvBlock) : Prop where
  sample : block.sampleIdx = batchIdx
  offsets : ∃ k : ℕ, 1 ≤ k ∧ block.positions.map TvPosition.offset = intRange 1 (k + 1)
  cell : ∃ (j : ℕ) (cell : AnchorCell), planRow[j]? = some cell ∧ cell.keep = true ∧
    cell.anchorPosition = block.fullAnchor ∧
    (cell.segmentLen < draftBlockSize → ∀ p ∈ block.positions, p.offset < draftBlockSize) ∧
    ∀ p ∈ block.positions, p.draftIdx = j * draftBlockSize + p.offset
  target_row : ∀ p ∈ block.positions, p.targetRow =
    if p.isLaterReject then -1 else block.fullAnchor + p.offset - 1
  row_lt : s.BlockOk block
  branch : ∀ p ∈ block.positions, p.isLaterReject = true → block.branch.isSome = true

/-- An offset of a block is at least `1`. -/
theorem TvShaped.offset_pos {s : Sample} {draftBlockSize batchIdx : ℕ} {planRow : List AnchorCell}
    {block : TvBlock} (h : TvShaped s draftBlockSize batchIdx planRow block) {p : TvPosition}
    (hp : p ∈ block.positions) : 1 ≤ p.offset := by
  obtain ⟨k, -, hk⟩ := h.offsets
  have hmem : p.offset ∈ block.positions.map TvPosition.offset := List.mem_map_of_mem hp
  rw [hk, mem_intRange] at hmem
  exact hmem.1

namespace Sample

variable {s : Sample} {draftBlockSize batchIdx : ℕ} {firstTokenOnly : Bool}
  {planRow : List AnchorCell} {cells : List RejectedCell} {index : RejectedIndex}

/-- The last offset of a block, and what it selects. -/
theorem PlanOk.selected (h : s.PlanOk draftBlockSize batchIdx firstTokenOnly planRow cells index)
    (cell : AnchorCell) : ∃ last : ℤ,
      selectedOffsets (index.get? cell.anchorPosition) cell.segmentLen firstTokenOnly =
        intRange 1 (last + 1) ∧
      (cell.segmentLen < draftBlockSize → last < draftBlockSize) := by
  cases hget : index.get? cell.anchorPosition with
  | none => exact ⟨cell.segmentLen, rfl, fun hlt => hlt⟩
  | some byOffset =>
    obtain ⟨first, last, hsuffix, -⟩ := h.suffixOk hget
    have hle := hsuffix.first_le
    have hlt := hsuffix.last_lt
    refine ⟨_, hsuffix.selectedOffsets_eq cell.segmentLen firstTokenOnly, fun _ => ?_⟩
    split_ifs <;> omega

/-- The blocks of a row of the plan. -/
theorem PlanOk.shaped (h : s.PlanOk draftBlockSize batchIdx firstTokenOnly planRow cells index)
    {block : TvBlock}
    (hblock : block ∈ tvBlocks index draftBlockSize batchIdx firstTokenOnly planRow) :
    TvShaped s draftBlockSize batchIdx planRow block := by
  obtain ⟨hmem, hpos⟩ := List.mem_filter.mp hblock
  obtain ⟨x, hx, rfl⟩ := List.mem_map.mp hmem
  obtain ⟨hzip, hkeep⟩ := List.mem_filter.mp hx
  obtain ⟨last, hselected, hlt⟩ := h.selected x.1
  have hoffset : ∀ p ∈ (tvBlock index draftBlockSize batchIdx x.2 firstTokenOnly x.1).positions,
      1 ≤ p.offset ∧ p.offset ≤ last ∧ p.draftIdx = x.2 * draftBlockSize + p.offset ∧
      p.isLaterReject = isLaterReject (index.get? x.1.anchorPosition) p.offset ∧
      p.targetRow = if p.isLaterReject then -1 else x.1.anchorPosition + p.offset - 1 := by
    intro p hp
    obtain ⟨o, ho, rfl⟩ := List.mem_map.mp hp
    rw [hselected, mem_intRange] at ho
    exact ⟨ho.1, Int.lt_add_one_iff.mp ho.2, rfl, rfl, rfl⟩
  have hlast : 1 ≤ last := by
    by_contra hneg
    have hnil : intRange 1 (last + 1) = [] := by
      have hzero : (last + 1 - 1).toNat = 0 := by omega
      rw [intRange, hzero]
      rfl
    have hempty :
        (tvBlock index draftBlockSize batchIdx x.2 firstTokenOnly x.1).positions = [] := by
      rw [tvBlock, hselected, hnil]
      rfl
    rw [TvBlock.hasPosition, hempty] at hpos
    cases hpos
  refine ⟨rfl, ⟨last.toNat, by omega, ?_⟩, ⟨x.2, x.1, ?_, hkeep, rfl, fun hseg p hp => ?_,
    fun p hp => (hoffset p hp).2.2.1⟩, fun p hp => (hoffset p hp).2.2.2.2,
    h.positions x hx, tvBlock_branch _ _ _ _ _ _⟩
  · have hcast : ((last.toNat : ℕ) : ℤ) = last := Int.toNat_of_nonneg (by omega)
    rw [tvBlock, List.map_map, hselected, hcast]
    exact List.map_id _
  · exact List.mem_zipIdx_iff_getElem?.mp hzip
  · exact (hoffset p hp).2.1.trans_lt (hlt hseg)

end Sample

/-! ## The flat lists -/

/-- The later rejects of the blocks are listed by their branches, each once. -/
theorem flatIndices_tvBranchSpecs : ∀ (blocks : List TvBlock) (n : ℕ),
    (∀ block ∈ blocks, ∀ p ∈ block.positions, p.isLaterReject = true → block.branch.isSome = true) →
    (tvBranchSpecs n blocks).flatMap TvBranchSpec.flatIndices =
      (((blocks.flatMap TvBlock.positions).zipIdx n).filter fun x => x.1.isLaterReject).map Prod.snd
  | [], _, _ => rfl
  | block :: blocks, n, h => by
    have hrest := flatIndices_tvBranchSpecs blocks (n + block.positions.length) fun b hb =>
      h b (List.mem_cons_of_mem _ hb)
    have hspec : (block.branchSpec n).toList.flatMap TvBranchSpec.flatIndices =
        ((block.positions.zipIdx n).filter fun x => x.1.isLaterReject).map Prod.snd := by
      cases hbranch : block.branch with
      | some branch => simp [TvBlock.branchSpec, hbranch]
      | none =>
        have hnone : (block.positions.zipIdx n).filter (fun x => x.1.isLaterReject) = [] := by
          rw [List.filter_eq_nil_iff]
          intro x hx hlater
          have hsome := h block List.mem_cons_self x.1 (List.fst_mem_of_mem_zipIdx hx) hlater
          rw [hbranch] at hsome
          cases hsome
        simp [TvBlock.branchSpec, hbranch, hnone]
    rw [tvBranchSpecs, List.flatMap_append, hspec, hrest, List.flatMap_cons, List.zipIdx_append,
      List.filter_append, List.map_append]

/-- An index is listed when its position is a later reject. -/
theorem mem_flatIndices {positions : List TvPosition} {k : ℕ} :
    k ∈ ((positions.zipIdx).filter fun x => x.1.isLaterReject).map Prod.snd ↔
      ∃ p, positions[k]? = some p ∧ p.isLaterReject = true := by
  rw [List.mem_map]
  constructor
  · rintro ⟨x, hx, rfl⟩
    obtain ⟨hzip, hlater⟩ := List.mem_filter.mp hx
    exact ⟨x.1, List.mem_zipIdx_iff_getElem?.mp hzip, hlater⟩
  · rintro ⟨p, hp, hlater⟩
    exact ⟨(p, k), List.mem_filter.mpr ⟨List.mem_zipIdx_iff_getElem?.mpr hp, hlater⟩, rfl⟩

theorem nodup_flatIndices (positions : List TvPosition) :
    (((positions.zipIdx).filter fun x => x.1.isLaterReject).map Prod.snd).Nodup := by
  have hnodup : (positions.zipIdx.map Prod.snd).Nodup := by
    rw [List.zipIdx_map_snd]
    exact List.nodup_range' ..
  exact hnodup.sublist (List.filter_sublist.map _)

/-- The block indices are those of consecutive blocks. -/
theorem blockIndices_eq : ∀ (blocks : List TvBlock) (n : ℕ),
    ((blocks.zipIdx n).flatMap fun x => x.1.positions.map fun _ => x.2) =
      ((blocks.map fun block => block.positions.length).zipIdx n).flatMap fun x =>
        List.replicate x.1 x.2
  | [], _ => rfl
  | block :: blocks, n => by
    rw [List.zipIdx_cons, List.map_cons, List.zipIdx_cons, List.flatMap_cons, List.flatMap_cons,
      blockIndices_eq blocks (n + 1), List.map_const']

/-- The positions in order, with their blocks. -/
def flatPositions (blocks : List TvBlock) : List (TvBlock × TvPosition) :=
  blocks.flatMap fun block => block.positions.map fun p => (block, p)

theorem map_snd_flatPositions (blocks : List TvBlock) :
    (flatPositions blocks).map Prod.snd = blocks.flatMap TvBlock.positions := by
  rw [flatPositions, List.map_flatMap]
  refine List.flatMap_congr fun block _ => ?_
  rw [List.map_map]
  exact List.map_id _

theorem mem_flatPositions {blocks : List TvBlock} {x : TvBlock × TvPosition} :
    x ∈ flatPositions blocks ↔ x.1 ∈ blocks ∧ x.2 ∈ x.1.positions := by
  rw [flatPositions, List.mem_flatMap]
  constructor
  · rintro ⟨block, hblock, hx⟩
    obtain ⟨p, hp, rfl⟩ := List.mem_map.mp hx
    exact ⟨hblock, hp⟩
  · rintro ⟨hblock, hp⟩
    exact ⟨x.1, hblock, List.mem_map_of_mem hp⟩

/-- The sample, anchor and offset of every position. -/
def tvTriples (blocks : List TvBlock) : List (ℕ × ℤ × ℤ) :=
  blocks.flatMap fun block => block.positions.map fun p =>
    (block.sampleIdx, block.fullAnchor, p.offset)

/-- Blocks with anchors of their own have positions of their own. -/
theorem nodup_tvTriples {blocks : List TvBlock}
    (hanchors : (blocks.map fun block => (block.sampleIdx, block.fullAnchor)).Nodup)
    (hoffsets : ∀ block ∈ blocks, (block.positions.map TvPosition.offset).Nodup) :
    (tvTriples blocks).Nodup := by
  rw [tvTriples, List.nodup_flatMap]
  refine ⟨fun block hblock => ?_, ?_⟩
  · have hmap : (block.positions.map fun p => (block.sampleIdx, block.fullAnchor, p.offset)) =
        (block.positions.map TvPosition.offset).map fun o =>
          (block.sampleIdx, block.fullAnchor, o) := by
      rw [List.map_map]
      rfl
    rw [hmap]
    exact (hoffsets block hblock).map fun o o' heq => by simpa using heq
  · refine (List.pairwise_map.mp hanchors).imp fun {block block'} hne x hx hx' => ?_
    obtain ⟨p, -, rfl⟩ := List.mem_map.mp hx
    obtain ⟨p', -, heq⟩ := List.mem_map.mp hx'
    simp only [Prod.mk.injEq] at heq
    exact hne (Prod.ext heq.1.symm heq.2.1.symm)

/-! ## The plan -/

section Plan

variable {draftBlockSize : ℕ} {firstTokenOnly : Bool} {samples : List Sample}
  {planRows : List (List AnchorCell)} {rejectedDrafts : Option (List (List RejectedCell))}
  {plan : TvPlan}

/-- A plan without rejected metadata is one with none in any row. -/
theorem buildTvBlocks_getD : buildTvBlocks draftBlockSize firstTokenOnly samples planRows
    rejectedDrafts = buildTvBlocks draftBlockSize firstTokenOnly samples planRows
      (some (rejectedDrafts.getD [])) := by
  cases rejectedDrafts with
  | some rows => rfl
  | none =>
    have hnil : ∀ i : ℕ, ([] : List (List RejectedCell)).getD i [] = [] := fun i => by simp
    simp only [buildTvBlocks, Option.map_none, Option.getD_none, Option.map_some,
      Option.getD_some, hnil]

theorem nodup_anchors_tvBlocks {s : Sample} {batchIdx : ℕ} {planRow : List AnchorCell}
    {cells : List RejectedCell} {index : RejectedIndex}
    (h : s.PlanOk draftBlockSize batchIdx firstTokenOnly planRow cells index) :
    ((tvBlocks index draftBlockSize batchIdx firstTokenOnly planRow).map
      fun block => (block.sampleIdx, block.fullAnchor)).Nodup := by
  have hsub := (List.filter_sublist (p := TvBlock.hasPosition)
    (l := (planRow.zipIdx.filter fun x => x.1.keep).map fun x =>
      tvBlock index draftBlockSize batchIdx x.2 firstTokenOnly x.1)).map
        fun block => (block.sampleIdx, block.fullAnchor)
  refine List.Nodup.sublist hsub ?_
  have hmap : (((planRow.zipIdx.filter fun x => x.1.keep).map fun x =>
      tvBlock index draftBlockSize batchIdx x.2 firstTokenOnly x.1).map
        fun block => (block.sampleIdx, block.fullAnchor)) =
      (plannedAnchors planRow).map fun a => (batchIdx, a) := by
    rw [plannedAnchors, List.map_map, List.map_map]
    rfl
  rw [hmap]
  exact h.nodup.map fun a a' heq => (Prod.ext_iff.mp heq).2

/-- The blocks of a plan that was returned. -/
theorem of_buildTvPositionPlan_ok
    (h : buildTvPositionPlan draftBlockSize firstTokenOnly samples planRows rejectedDrafts =
      .ok plan) :
    ∃ (blocks : List TvBlock) (indices : ℕ → RejectedIndex), plan = flattenBlocks blocks ∧
      (∀ i < samples.length, (samples.getD i default).PlanOk draftBlockSize i firstTokenOnly
        (planRows.getD i []) ((rejectedDrafts.getD []).getD i []) (indices i)) ∧
      (∀ block, block ∈ blocks ↔ block.sampleIdx < samples.length ∧
        block ∈ tvBlocks (indices block.sampleIdx) draftBlockSize block.sampleIdx firstTokenOnly
          (planRows.getD block.sampleIdx [])) ∧
      (blocks.map fun block => (block.sampleIdx, block.fullAnchor)).Nodup := by
  obtain ⟨blocks, hblocks, rfl⟩ := buildTvPositionPlan_eq_ok.mp h
  rw [buildTvBlocks_getD] at hblocks
  obtain ⟨indices, hok, rfl⟩ := of_buildTvBlocks_ok hblocks
  refine ⟨_, indices, rfl, hok, fun block => ⟨fun hblock => ?_, fun ⟨hlt, hmem⟩ => ?_⟩, ?_⟩
  · obtain ⟨i, hi, hmem⟩ := List.mem_flatMap.mp hblock
    have hi := List.mem_range.mp hi
    have hsample := ((hok i hi).shaped hmem).sample
    rw [hsample]
    exact ⟨hi, hmem⟩
  · exact List.mem_flatMap.mpr ⟨block.sampleIdx, List.mem_range.mpr hlt, hmem⟩
  · rw [List.map_flatMap, List.nodup_flatMap]
    refine ⟨fun i hi => nodup_anchors_tvBlocks (hok i (List.mem_range.mp hi)), ?_⟩
    refine (List.nodup_range (n := samples.length)).imp_of_mem fun {i j} hi hj hne x hx hx' => ?_
    obtain ⟨block, hblock, rfl⟩ := List.mem_map.mp hx
    obtain ⟨block', hblock', heq⟩ := List.mem_map.mp hx'
    have hi' := ((hok i (List.mem_range.mp hi)).shaped hblock).sample
    have hj' := ((hok j (List.mem_range.mp hj)).shaped hblock').sample
    exact hne (hi'.symm.trans ((Prod.ext_iff.mp heq).1.symm.trans hj'))

/-- Every block has a position, so the loss of the blocks is computed. -/
theorem computeE2eTvBlockOutputs_ok {sizes : List ℕ} (hsizes : ∀ k ∈ sizes, 1 ≤ k)
    {tvDistances : List ℚ} {blockIndices : List ℕ}
    (hindices : blockIndices = sizes.zipIdx.flatMap fun x => List.replicate x.1 x.2)
    (hlen : tvDistances.length = blockIndices.length) :
    ∃ outputs, computeE2eTvBlockOutputs tvDistances blockIndices sizes.length = .ok outputs := by
  refine ⟨_, forRange_eq_ok fun blockIdx hblock => if_neg fun hnil => ?_⟩
  have hmem : blockIdx ∈ (tvDistances.zip blockIndices).map Prod.snd := by
    rw [List.map_snd_zip hlen.ge, hindices, List.mem_flatMap]
    refine ⟨(sizes[blockIdx], blockIdx), List.mem_zipIdx_iff_getElem?.mpr
      (List.getElem?_eq_getElem hblock), List.mem_replicate.mpr ⟨?_, rfl⟩⟩
    exact Nat.one_le_iff_ne_zero.mp (hsizes _ (List.getElem_mem hblock))
  obtain ⟨x, hx, heq⟩ := List.mem_map.mp hmem
  rw [blockTv, List.map_eq_nil_iff, List.filter_eq_nil_iff] at hnil
  exact hnil x hx (by simp [heq])

/-- The target row of a position is `-1` for a later reject, and a row of its sample otherwise. -/
theorem targetRow_cases {s : Sample} {batchIdx : ℕ} {planRow : List AnchorCell} {block : TvBlock}
    (h : TvShaped s draftBlockSize batchIdx planRow block) (hanchor : 0 ≤ block.fullAnchor)
    {p : TvPosition} (hp : p ∈ block.positions) :
    (p.targetRow = -1 ↔ p.isLaterReject = true) ∧
      (p.targetRow ≠ -1 → 0 ≤ p.targetRow ∧ p.targetRow < (s.validSeqLen : ℤ)) := by
  have hoffset := h.offset_pos hp
  have hrow := h.target_row p hp
  by_cases hlater : p.isLaterReject = true
  · rw [if_pos hlater] at hrow
    exact ⟨⟨fun _ => hlater, fun _ => hrow⟩, fun hne => absurd hrow hne⟩
  · have hlt := h.row_lt p hp (Bool.eq_false_iff.mpr hlater)
    rw [if_neg hlater] at hrow
    exact ⟨⟨fun heq => (by omega), fun hl => absurd hl hlater⟩, fun _ => by omega⟩

/-- The kept anchors of the plan are positions of the input. -/
def AnchorsNonneg (planRows : List (List AnchorCell)) : Prop :=
  ∀ row ∈ planRows, ∀ cell ∈ row, cell.keep = true → 0 ≤ cell.anchorPosition

/-- The segments of the plan fit the block. -/
def SegmentsFit (draftBlockSize : ℕ) (planRows : List (List AnchorCell)) : Prop :=
  ∀ row ∈ planRows, ∀ cell ∈ row, cell.keep = true → cell.segmentLen < draftBlockSize

theorem mem_row_of_getElem? {i j : ℕ} {cell : AnchorCell}
    (h : (planRows.getD i [])[j]? = some cell) : ∃ row ∈ planRows, cell ∈ row := by
  have hmem := List.mem_of_getElem? h
  by_cases hi : i < planRows.length
  · rw [List.getD_eq_getElem _ _ hi] at hmem
    exact ⟨_, List.getElem_mem hi, hmem⟩
  · rw [List.getD_eq_default _ _ (by omega)] at hmem
    exact absurd hmem List.not_mem_nil

theorem TvShaped.anchor_nonneg {s : Sample} {batchIdx i : ℕ} {block : TvBlock}
    (h : TvShaped s draftBlockSize batchIdx (planRows.getD i []) block)
    (hnonneg : AnchorsNonneg planRows) : 0 ≤ block.fullAnchor := by
  obtain ⟨j, cell, hcell, hkeep, hanchor, -⟩ := h.cell
  obtain ⟨row, hrow, hmem⟩ := mem_row_of_getElem? hcell
  exact hanchor ▸ hnonneg row hrow cell hmem hkeep

/-- Every plan that is returned : no position is emitted twice ; the positions of a block follow
each other, with the offsets `1, …, k` ; the draft index of a position is inside the block of its
anchor ; the target row is `-1` exactly for the positions that one branch lists, once, and
otherwise a row of the sample. -/
theorem tvPlan_structure
    (h : buildTvPositionPlan draftBlockSize firstTokenOnly samples planRows rejectedDrafts =
      .ok plan) :
    ∃ (blocks : List TvBlock) (sizes : List ℕ), plan = flattenBlocks blocks ∧
      (tvTriples blocks).Nodup ∧
      (sizes.length = plan.blockCount ∧ (∀ k ∈ sizes, 1 ≤ k) ∧
        plan.blockIndices = sizes.zipIdx.flatMap (fun x => List.replicate x.1 x.2) ∧
        plan.offsets = sizes.flatMap fun k : ℕ => intRange 1 ((k : ℤ) + 1)) ∧
      (∀ tvDistances : List ℚ, tvDistances.length = plan.blockIndices.length →
        ∃ outputs, computeE2eTvBlockOutputs tvDistances plan.blockIndices plan.blockCount =
          .ok outputs) ∧
      (∀ block ∈ blocks, ∃ (j : ℕ) (cell : AnchorCell),
        (planRows.getD block.sampleIdx [])[j]? = some cell ∧ cell.keep = true ∧
        cell.anchorPosition = block.fullAnchor ∧ ∀ p ∈ block.positions,
          p.draftIdx = j * draftBlockSize + p.offset ∧
          (SegmentsFit draftBlockSize planRows →
            (j * draftBlockSize : ℤ) ≤ p.draftIdx ∧ p.draftIdx < (j + 1) * draftBlockSize)) ∧
      (AnchorsNonneg planRows →
        (plan.branchSpecs.flatMap TvBranchSpec.flatIndices).Nodup ∧
        (∀ k : ℕ, plan.targetRowIndices[k]? = some (-1) ↔
          k ∈ plan.branchSpecs.flatMap TvBranchSpec.flatIndices) ∧
        ∀ (k sample : ℕ) (row : ℤ), plan.targetRowIndices[k]? = some row →
          plan.batchIndices[k]? = some sample → row ≠ -1 →
          0 ≤ row ∧ row < ((samples.getD sample default).validSeqLen : ℤ)) := by
  obtain ⟨blocks, indices, rfl, hok, hblocks, hanchors⟩ := of_buildTvPositionPlan_ok h
  have hshaped : ∀ block ∈ blocks, TvShaped (samples.getD block.sampleIdx default) draftBlockSize
      block.sampleIdx (planRows.getD block.sampleIdx []) block := by
    intro block hblock
    obtain ⟨hlt, hmem⟩ := (hblocks block).mp hblock
    exact (hok _ hlt).shaped hmem
  have hoffsets : ∀ block ∈ blocks, block.positions.map TvPosition.offset =
      intRange 1 ((block.positions.length : ℤ) + 1) ∧ 1 ≤ block.positions.length := by
    intro block hblock
    obtain ⟨k, hk, heq⟩ := (hshaped block hblock).offsets
    have hlen := congrArg List.length heq
    simp only [intRange, List.length_map, List.length_range] at hlen
    have hcast : (block.positions.length : ℤ) = k := by omega
    exact ⟨by rw [hcast]; exact heq, by omega⟩
  have hsizes : ∀ k ∈ blocks.map (fun block => block.positions.length), 1 ≤ k := by
    intro k hk
    obtain ⟨block, hblock, rfl⟩ := List.mem_map.mp hk
    exact (hoffsets block hblock).2
  have hindices : (flattenBlocks blocks).blockIndices =
      (blocks.map fun block => block.positions.length).zipIdx.flatMap fun x =>
        List.replicate x.1 x.2 := blockIndices_eq blocks 0
  refine ⟨blocks, blocks.map fun block => block.positions.length, rfl, ?_, ⟨?_, hsizes,
    hindices, ?_⟩, fun tvDistances hlen => ?_, fun block hblock => ?_, fun hnonneg => ?_⟩
  · refine nodup_tvTriples hanchors fun block hblock => ?_
    rw [(hoffsets block hblock).1]
    exact (pairwise_intRange ..).imp fun hlt => ne_of_lt hlt
  · rw [List.length_map]
    rfl
  · rw [List.flatMap_map]
    exact List.flatMap_congr fun block hblock => (hoffsets block hblock).1
  · obtain ⟨outputs, hout⟩ := computeE2eTvBlockOutputs_ok hsizes hindices hlen
    rw [List.length_map] at hout
    exact ⟨outputs, hout⟩
  · obtain ⟨j, cell, hcell, hkeep, hanchor, hlt, hdraft⟩ := (hshaped block hblock).cell
    obtain ⟨row, hrow, hmem⟩ := mem_row_of_getElem? hcell
    refine ⟨j, cell, hcell, hkeep, hanchor, fun p hp => ⟨hdraft p hp, fun hfit => ?_⟩⟩
    have hpos := (hshaped block hblock).offset_pos hp
    have hsmall := hlt (hfit row hrow cell hmem hkeep) p hp
    rw [hdraft p hp, add_mul, one_mul]
    omega
  · have hcases : ∀ block ∈ blocks, ∀ p ∈ block.positions,
        (p.targetRow = -1 ↔ p.isLaterReject = true) ∧ (p.targetRow ≠ -1 → 0 ≤ p.targetRow ∧
          p.targetRow < ((samples.getD block.sampleIdx default).validSeqLen : ℤ)) := by
      intro block hblock p hp
      exact targetRow_cases (hshaped block hblock) ((hshaped block hblock).anchor_nonneg hnonneg) hp
    have hlisted : (flattenBlocks blocks).branchSpecs.flatMap TvBranchSpec.flatIndices =
        ((blocks.flatMap TvBlock.positions).zipIdx.filter fun x => x.1.isLaterReject).map
          Prod.snd :=
      flatIndices_tvBranchSpecs blocks 0 fun block hblock => (hshaped block hblock).branch
    have hrows : (flattenBlocks blocks).targetRowIndices =
        (blocks.flatMap TvBlock.positions).map TvPosition.targetRow := by
      rw [List.map_flatMap]
      rfl
    rw [hlisted, hrows]
    refine ⟨nodup_flatIndices _, fun k => ?_, fun k sample row hrow hsample hne => ?_⟩
    · rw [mem_flatIndices, List.getElem?_map, Option.map_eq_some_iff]
      refine exists_congr fun p => and_congr_right fun hp => ?_
      obtain ⟨block, hblock, hmem⟩ := List.mem_flatMap.mp (List.mem_of_getElem? hp)
      exact (hcases block hblock p hmem).1
    · have hsamples : (flattenBlocks blocks).batchIndices =
          (flatPositions blocks).map fun x => x.1.sampleIdx := by
        rw [flatPositions, List.map_flatMap]
        simp only [List.map_map]
        rfl
      rw [← map_snd_flatPositions, List.getElem?_map, List.getElem?_map, Option.map_map,
        Option.map_eq_some_iff] at hrow
      obtain ⟨x, hx, rfl⟩ := hrow
      rw [hsamples, List.getElem?_map, hx] at hsample
      obtain rfl := Option.some.inj hsample
      obtain ⟨hblock, hmem⟩ := mem_flatPositions.mp (List.mem_of_getElem? hx)
      exact (hcases x.1 hblock x.2 hmem).2 hne

end Plan

/-! ## The plans of the engine -/

/-- A cell of the anchor plan, which `tvPlan_structure` asks for. -/
def AnchorBlock.Fits (draftBlockSize : ℕ) (block : AnchorBlock) : Prop :=
  0 ≤ block.anchor ∧ block.segmentLen < draftBlockSize

/-- The blocks of a sample are at positions of the input, with segments that fit. -/
theorem sampleAnchorPlan_fits {options : AnchorOptions} {rng : SeededRandom}
    {seqLen batchIdx : ℕ} {s : Sample} {rawRejects : List ℤ}
    {rejectedDrafts : Option (List RejectedCell)} {plan : SamplePlan}
    (hrandom : options.randomResponseAnchorEnabled = false) (hblock : 1 ≤ options.draftBlockSize)
    (h : sampleAnchorPlan options rng seqLen batchIdx s rawRejects rejectedDrafts = .ok plan) :
    ∀ block ∈ plan.blocks, block.Fits options.draftBlockSize := by
  obtain ⟨plan', segments, hplan, hsegments, hblocks⟩ := sampleAnchorPlan_planned options rng
    seqLen batchIdx s rawRejects rejectedDrafts
  obtain rfl : plan' = plan := Except.ok.inj (hplan.symm.trans h)
  rw [PlannedSegments, if_neg (by simp [hrandom])] at hsegments
  obtain ⟨added, hfold, -, hfrom, -⟩ := s.addRejectedAnchors_spec seqLen options.draftBlockSize
    (if options.includeRejectedDraftAnchors then rejectedDrafts.getD [] else [])
    (s.place seqLen segments)
  intro block hmem
  rw [hblocks, hfold] at hmem
  rcases List.mem_append.mp hmem with hmem | hmem
  · obtain ⟨x, hx, hplace⟩ := List.mem_filterMap.mp hmem
    rw [hsegments] at hx
    obtain ⟨p, -, hsegment⟩ := List.mem_filterMap.mp hx
    simp only at hplace hsegment
    split_ifs at hplace with hrange
    split_ifs at hsegment with hlen hrange'
    obtain rfl := Option.some.inj hplace
    obtain rfl := Option.some.inj hsegment
    simp only [AnchorBlock.Fits]
    omega
  · obtain ⟨hzero, cell, -, hadds, hanchor⟩ := hfrom block hmem
    refine ⟨hanchor ▸ hadds.2.2.1, ?_⟩
    rw [hzero]
    omega

/-- The rows of an anchor plan without random anchors are such that the draft indices and the
target rows of the position plan are in their ranges. -/
theorem buildOpdAnchorPlan_fits {options : AnchorOptions} {rng : SeededRandom} {seqLen : ℕ}
    {samples : List Sample} {rejectTokenIndices : List (List ℤ)}
    {rejectedDrafts : Option (List (List RejectedCell))} {plan : AnchorPlan}
    (hrandom : options.randomResponseAnchorEnabled = false) (hblock : 1 ≤ options.draftBlockSize)
    (h : buildOpdAnchorPlan options rng seqLen samples rejectTokenIndices rejectedDrafts =
      .ok plan) :
    AnchorsNonneg plan.rows ∧ SegmentsFit options.draftBlockSize plan.rows := by
  obtain ⟨plans, hbuild, hplans⟩ := buildOpdAnchorPlan_eq options rng seqLen samples
    rejectTokenIndices rejectedDrafts
  obtain rfl := Except.ok.inj (hbuild.symm.trans h)
  have hcells : ∀ row ∈ (padAnchorPlan samples ((List.range samples.length).map plans)).rows,
      ∀ cell ∈ row, cell.keep = true →
        0 ≤ cell.anchorPosition ∧ cell.segmentLen < options.draftBlockSize := by
    intro row hrow cell hcell hkeep
    obtain ⟨plan, hplan, rfl⟩ := List.mem_map.mp hrow
    obtain ⟨i, -, rfl⟩ := List.mem_map.mp hplan
    rcases List.mem_append.mp hcell with hcell | hcell
    · obtain ⟨block, hmem, rfl⟩ := List.mem_map.mp hcell
      exact sampleAnchorPlan_fits hrandom hblock (hplans i) block hmem
    · rw [List.eq_of_mem_replicate hcell] at hkeep
      cases hkeep
  exact ⟨fun row hrow cell hcell hkeep => (hcells row hrow cell hcell hkeep).1,
    fun row hrow cell hcell hkeep => (hcells row hrow cell hcell hkeep).2⟩

/-- A response of six tokens whose first block has two rejected drafts. -/
def suffixSample : Sample where
  inputIds := [1, 2, 3, 4, 5, 6, 7, 8]
  promptLen := 2
  responseLen := 6
  validSeqLen := 8
  rejectTokenIndices := [1]
  anchors := [0, 0]
  offsets := [2, 3]
  tokenIds := [101, 102]
  teacherLogprobs := [⊥, ⊥]

theorem tvPlan_structure_suffixSample : ∃ plan blocks,
    buildTvPositionPlan 6 false [suffixSample] [[⟨2, 4, 2, true⟩]]
      (some [suffixSample.kept false]) = .ok plan ∧
    plan.offsets = [1, 2, 3] ∧ plan.targetRowIndices = [2, 3, -1] ∧
    plan = flattenBlocks blocks ∧ (tvTriples blocks).Nodup ∧
    (∀ block ∈ blocks, ∃ j : ℕ, ∀ p ∈ block.positions,
      (j * 6 : ℤ) ≤ p.draftIdx ∧ p.draftIdx < (j + 1) * 6) ∧
    ∀ k : ℕ, plan.targetRowIndices[k]? = some (-1) ↔
      k ∈ plan.branchSpecs.flatMap TvBranchSpec.flatIndices := by
  have hplan : buildTvPositionPlan 6 false [suffixSample] [[⟨2, 4, 2, true⟩]]
      (some [suffixSample.kept false]) = .ok _ := rfl
  have hfit : SegmentsFit 6 [[⟨2, 4, 2, true⟩]] := by
    unfold SegmentsFit
    decide
  have hnonneg : AnchorsNonneg [[⟨2, 4, 2, true⟩]] := by
    unfold AnchorsNonneg
    decide
  obtain ⟨blocks, sizes, heq, hnodup, -, -, hcells, hrows⟩ := tvPlan_structure hplan
  refine ⟨_, blocks, hplan, rfl, rfl, heq, hnodup, fun block hblock => ?_, (hrows hnonneg).2.1⟩
  obtain ⟨j, -, -, -, -, hdraft⟩ := hcells block hblock
  exact ⟨j, fun p hp => (hdraft p hp).2 hfit⟩

end DraftOpd
