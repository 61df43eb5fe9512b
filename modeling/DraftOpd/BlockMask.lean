import DraftOpd.AnchorPlan
import DraftOpd.TensorOps

/-!
# The attention mask of the draft blocks

The draft model runs all blocks of a batch in one forward. The keys of a sample are its context
followed by the positions of its blocks, and the mask is written twice : as a tensor for SDPA
(`createDflashSdpaMask`) and as a predicate for flex attention (`dflashMaskMod`).

`dflashMaskMod_iff` gives the keys a query may attend. `block_mask_support` : both masks agree, a
query of a kept block attends the context before its anchor and its own block, and this support
does not depend on the other blocks.
-/

namespace DraftOpd

/-- `anchor_positions` and `block_keep_mask` : a row of blocks for every sample. -/
structure BlockLayout where
  numBlocks : ℕ
  rows : List (List AnchorCell)
  length_row : ∀ row ∈ rows, row.length = numBlocks

/-! ## The masks -/

/-- `create_dflash_sdpa_mask` (`dflash_student.py:88-111`). -/
def createDflashSdpaMask (layout : BlockLayout) (seqLen blockSize : ℕ) :
    List (List (List Bool)) :=
  let qLen := layout.numBlocks * blockSize
  let kvLen := seqLen + qLen
  layout.rows.map fun row =>
    let anchorExpanded := repeatInterleave (row.map AnchorCell.anchorPosition) blockSize
    let validBlock := repeatInterleave (row.map AnchorCell.keep) blockSize
    (List.range qLen).map fun q => (List.range kvLen).map fun kv =>
      let maskContext := decide (kv < seqLen) && decide ((kv : ℤ) < anchorExpanded.getD q 0)
      let isDraft := decide (seqLen ≤ kv)
      let kvBlockId := ((kv : ℤ) - seqLen) / blockSize
      let maskDraft := isDraft && decide (((q / blockSize : ℕ) : ℤ) = kvBlockId)
      (maskContext || maskDraft) && validBlock.getD q false

/-- `dflash_mask_mod` of `create_dflash_block_mask` (`dflash_student.py:128-142`). -/
def dflashMaskMod (layout : BlockLayout) (seqLen blockSize b qIdx kvIdx : ℕ) : Bool :=
  let qBlockId := qIdx / blockSize
  let safeQBlockId := min qBlockId (layout.numBlocks - 1)
  let block := (layout.rows.getD b []).getD safeQBlockId .pad
  let isContext := decide (kvIdx < seqLen)
  let maskContext := isContext && decide ((kvIdx : ℤ) < block.anchorPosition)
  let isDraft := decide (seqLen ≤ kvIdx)
  let kvBlockId := ((kvIdx : ℤ) - seqLen) / blockSize
  let maskDraft := isDraft && decide ((qBlockId : ℤ) = kvBlockId)
  let inBounds := decide (qBlockId < layout.numBlocks)
  (maskContext || maskDraft) && block.keep && inBounds

namespace BlockLayout

variable (layout : BlockLayout) (seqLen blockSize : ℕ)

/-- The block `n` of sample `b`. -/
def block (b n : ℕ) : AnchorCell := (layout.rows.getD b []).getD n .pad

variable {layout seqLen blockSize}

theorem getElem?_block {b n : ℕ} (hb : b < layout.rows.length) (hn : n < layout.numBlocks) :
    (layout.rows.getD b [])[n]? = some (layout.block b n) := by
  have hlt : n < (layout.rows.getD b []).length := by rwa [layout.length_row _ (getD_mem hb [])]
  exact (List.getElem?_eq_getElem hlt).trans (congrArg some (List.getD_eq_getElem _ _ hlt).symm)

/-- The predicate on a query of block `n`. -/
theorem dflashMaskMod_eq {b n t : ℕ} (hn : n < layout.numBlocks) (ht : t < blockSize) (kv : ℕ) :
    dflashMaskMod layout seqLen blockSize b (n * blockSize + t) kv =
      (((decide (kv < seqLen) && decide ((kv : ℤ) < (layout.block b n).anchorPosition)) ||
        (decide (seqLen ≤ kv) && decide ((n : ℤ) = ((kv : ℤ) - seqLen) / blockSize))) &&
          (layout.block b n).keep) := by
  have hblock : (n * blockSize + t) / blockSize = n := by
    rw [Nat.mul_comm, Nat.mul_add_div (by omega), Nat.div_eq_of_lt ht, Nat.add_zero]
  have hsafe : min n (layout.numBlocks - 1) = n := by omega
  simp only [dflashMaskMod, hblock, hsafe, hn, decide_true, Bool.and_true]
  rfl

/-- The tensor agrees with the predicate. -/
theorem sdpaMask_eq_maskMod {b q kv : ℕ} (hb : b < layout.rows.length)
    (hq : q < layout.numBlocks * blockSize) (hkv : kv < seqLen + layout.numBlocks * blockSize) :
    (((createDflashSdpaMask layout seqLen blockSize).getD b []).getD q []).getD kv false =
      dflashMaskMod layout seqLen blockSize b q kv := by
  have hsize : 0 < blockSize := Nat.pos_of_ne_zero fun h => by simp [h] at hq
  have hn : q / blockSize < layout.numBlocks := Nat.div_lt_of_lt_mul (by rwa [Nat.mul_comm])
  have ht := Nat.mod_lt q hsize
  have hsplit : q = q / blockSize * blockSize + q % blockSize := (Nat.div_add_mod' q blockSize).symm
  have hexpand : ∀ {β : Type} (f : AnchorCell → β) (d : β),
      (repeatInterleave ((layout.rows.getD b []).map f) blockSize).getD q d =
        f (layout.block b (q / blockSize)) := by
    intro β f d
    have hget := getElem?_repeatInterleave ht ((layout.rows.getD b []).map f) (q / blockSize)
    rw [← hsplit, List.getElem?_map, getElem?_block hb hn] at hget
    rw [List.getD_eq_getElem?_getD, hget]
    rfl
  have hmod : dflashMaskMod layout seqLen blockSize b
      (q / blockSize * blockSize + q % blockSize) kv = _ := dflashMaskMod_eq hn ht kv
  rw [← hsplit] at hmod
  simp only [createDflashSdpaMask]
  rw [getD_map_of_lt _ hb [], getD_map_range _ hq, getD_map_range _ hkv, hexpand, hexpand, hmod]

/-- The keys a query of block `n` attends : the context before the block's anchor, and the
block. -/
theorem dflashMaskMod_iff {b n t kv : ℕ} (hn : n < layout.numBlocks) (ht : t < blockSize)
    (hkeep : (layout.block b n).keep = true) :
    dflashMaskMod layout seqLen blockSize b (n * blockSize + t) kv = true ↔
      kv < seqLen ∧ (kv : ℤ) < (layout.block b n).anchorPosition ∨
        ∃ u < blockSize, kv = seqLen + (n * blockSize + u) := by
  have hdraft : (seqLen ≤ kv ∧ (n : ℤ) = ((kv : ℤ) - seqLen) / blockSize) ↔
      ∃ u < blockSize, kv = seqLen + (n * blockSize + u) := by
    constructor
    · rintro ⟨hle, hdiv⟩
      obtain ⟨j, rfl⟩ := Nat.exists_eq_add_of_le hle
      have hj : n = j / blockSize := by
        rw [Nat.cast_add, add_sub_cancel_left, ← Int.natCast_ediv] at hdiv
        exact Int.ofNat.inj hdiv
      refine ⟨j % blockSize, Nat.mod_lt j (by omega), ?_⟩
      rw [hj, Nat.div_add_mod']
    · rintro ⟨u, hu, rfl⟩
      refine ⟨Nat.le_add_right _ _, ?_⟩
      rw [Nat.cast_add, add_sub_cancel_left, ← Int.natCast_ediv, Nat.mul_comm,
        Nat.mul_add_div (by omega), Nat.div_eq_of_lt hu, Nat.add_zero]
  rw [dflashMaskMod_eq hn ht, hkeep, Bool.and_true, Bool.or_eq_true, Bool.and_eq_true,
    Bool.and_eq_true, decide_eq_true_iff, decide_eq_true_iff, decide_eq_true_iff,
    decide_eq_true_iff, hdraft]

/-! ## The support of a block -/

/-- A key seen from a block : a position of the context, or a position in the blocks counted
from the block's own start. -/
inductive RelativeKey where
  | context (kv : ℕ)
  | draft (offset : ℤ)

/-- The keys the query `t` of block `n` attends, seen from the block. -/
def support (layout : BlockLayout) (seqLen blockSize b n t : ℕ) : Set RelativeKey
  | .context kv => kv < seqLen ∧
      dflashMaskMod layout seqLen blockSize b (n * blockSize + t) kv = true
  | .draft offset => ∃ j < layout.numBlocks * blockSize, (j : ℤ) = n * blockSize + offset ∧
      dflashMaskMod layout seqLen blockSize b (n * blockSize + t) (seqLen + j) = true

/-- The support of a query of a kept block, in terms of its anchor. -/
theorem support_eq {b n t : ℕ} (hn : n < layout.numBlocks) (ht : t < blockSize)
    (hkeep : (layout.block b n).keep = true) :
    layout.support seqLen blockSize b n t = fun
      | .context kv => kv < seqLen ∧ (kv : ℤ) < (layout.block b n).anchorPosition
      | .draft offset => 0 ≤ offset ∧ offset < blockSize := by
  funext key
  cases key with
  | context kv =>
    refine propext (and_congr_right fun hkv => ?_)
    rw [dflashMaskMod_iff hn ht hkeep]
    constructor
    · rintro (h | ⟨u, -, rfl⟩)
      · exact h.2
      · omega
    · exact fun h => Or.inl ⟨hkv, h⟩
  | draft offset =>
    refine propext ⟨?_, fun ⟨hlo, hhi⟩ => ?_⟩
    · rintro ⟨j, -, hj, hmask⟩
      rcases (dflashMaskMod_iff hn ht hkeep).mp hmask with ⟨h, -⟩ | ⟨u, hu, heq⟩
      · omega
      · have hju : j = n * blockSize + u := by omega
        rw [hju, Int.natCast_add, Int.natCast_mul] at hj
        omega
    · obtain ⟨u, rfl⟩ := Int.eq_ofNat_of_zero_le hlo
      have hu : u < blockSize := by omega
      have hroom : n * blockSize + u < layout.numBlocks * blockSize := by
        have hmul := Nat.mul_le_mul_right blockSize hn
        rw [Nat.succ_mul] at hmul
        omega
      exact ⟨n * blockSize + u, hroom, by push_cast; rfl,
        (dflashMaskMod_iff hn ht hkeep).mpr (Or.inr ⟨u, hu, rfl⟩)⟩

end BlockLayout

/-- The two masks agree ; a query of a kept block attends the context before its anchor and its
own block, and a block with the same anchor in another layout has the same support. -/
theorem block_mask_support (layout : BlockLayout) (seqLen blockSize : ℕ) :
    (∀ b < layout.rows.length, ∀ q < layout.numBlocks * blockSize,
      ∀ kv < seqLen + layout.numBlocks * blockSize,
      (((createDflashSdpaMask layout seqLen blockSize).getD b []).getD q []).getD kv false =
        dflashMaskMod layout seqLen blockSize b q kv) ∧
    ∀ b n, n < layout.numBlocks → (layout.block b n).keep = true → ∀ t < blockSize,
      (∀ kv, dflashMaskMod layout seqLen blockSize b (n * blockSize + t) kv = true ↔
        kv < seqLen ∧ (kv : ℤ) < (layout.block b n).anchorPosition ∨
          ∃ u < blockSize, kv = seqLen + (n * blockSize + u)) ∧
      ∀ (other : BlockLayout) (b' n' : ℕ), n' < other.numBlocks →
        (other.block b' n').keep = true →
        (other.block b' n').anchorPosition = (layout.block b n).anchorPosition →
        other.support seqLen blockSize b' n' t = layout.support seqLen blockSize b n t := by
  refine ⟨fun b hb q hq kv hkv => BlockLayout.sdpaMask_eq_maskMod hb hq hkv,
    fun b n hn hkeep t ht => ⟨fun kv => BlockLayout.dflashMaskMod_iff hn ht hkeep,
    fun other b' n' hn' hkeep' hanchor => ?_⟩⟩
  rw [BlockLayout.support_eq hn ht hkeep, BlockLayout.support_eq hn' ht hkeep', hanchor]

/-- Two kept blocks of one sample. -/
def twoBlocks : BlockLayout where
  numBlocks := 2
  rows := [[⟨3, 1, 3, true⟩, ⟨1, 1, 1, true⟩]]
  length_row := by simp

/-- One of them alone. -/
def oneBlock : BlockLayout where
  numBlocks := 1
  rows := [[⟨1, 1, 1, true⟩]]
  length_row := by simp

theorem block_mask_support_twoBlocks :
    (((createDflashSdpaMask twoBlocks 4 2).getD 0 []).getD 2 []).getD 0 false =
      dflashMaskMod twoBlocks 4 2 0 2 0 ∧
    oneBlock.support 4 2 0 0 0 = twoBlocks.support 4 2 0 1 0 := by
  obtain ⟨hmask, hsupport⟩ := block_mask_support twoBlocks 4 2
  exact ⟨hmask 0 (by decide) 2 (by decide) 0 (by decide),
    (hsupport 0 1 (by decide) rfl 0 (by decide)).2 oneBlock 0 0 (by decide) rfl rfl⟩

end DraftOpd
