import DraftOpd.TvStructure
import Mathlib.Algebra.BigOperators.Ring.List
import Mathlib.Algebra.Order.Field.Basic
import Mathlib.Algebra.Order.Ring.Rat
import Mathlib.Tactic.Linarith
import Mathlib.Tactic.Ring

/-!
# The loss of a block

`_compute_e2e_tv_block_outputs` takes for each block the positions that carry its index, in the
order they come, and turns their distances `d₁, …, d_n` into the length a verifier is expected
to accept : the sum over `k` of the product over `i ≤ k` of `1 - d_i` (`expectedLength`). The loss
is the share of the block that is not expected to be accepted.

Dropping the first distance factors it out (`expectedLength_cons`), and the bounds, the exact
cases and the monotonicity are inductions over that. `computeE2eTvBlockOutputs_spec` : they hold
of what the code returns, for every interleaving of the blocks.
-/

namespace DraftOpd

/-! ## The expected length -/

section ExpectedLength

variable {K : Type*} [Field K]

/-- The sum over `k` of the product over `i ≤ k` of `1 - d_i`. -/
def expectedLength (ds : List K) : K :=
  ((List.range ds.length).map fun k => ((ds.take (k + 1)).map (1 - ·)).prod).sum

@[simp] theorem expectedLength_nil : expectedLength ([] : List K) = 0 := rfl

/-- The first distance is in every product. -/
theorem expectedLength_cons (d : K) (ds : List K) :
    expectedLength (d :: ds) = (1 - d) * (1 + expectedLength ds) := by
  unfold expectedLength
  rw [List.length_cons, List.range_succ_eq_map, List.map_cons, List.sum_cons, List.map_map,
    mul_add, mul_one, ← List.sum_map_mul_left]
  simp only [Function.comp_def, List.take_succ_cons, List.map_cons, List.prod_cons,
    List.take_zero, List.map_nil, List.prod_nil, mul_one, Nat.succ_eq_add_one]

variable [LinearOrder K]

/-- Distances between distributions. -/
def UnitDistances (ds : List K) : Prop := ∀ d ∈ ds, 0 ≤ d ∧ d ≤ 1

theorem unitDistances_cons {d : K} {ds : List K} :
    UnitDistances (d :: ds) ↔ (0 ≤ d ∧ d ≤ 1) ∧ UnitDistances ds := List.forall_mem_cons

variable [IsStrictOrderedRing K]

theorem expectedLength_nonneg {ds : List K} (h : UnitDistances ds) : 0 ≤ expectedLength ds := by
  induction ds with
  | nil => exact le_rfl
  | cons d ds ih =>
    obtain ⟨hd, hds⟩ := unitDistances_cons.mp h
    rw [expectedLength_cons]
    exact mul_nonneg (sub_nonneg.mpr hd.2) (add_nonneg zero_le_one (ih hds))

theorem expectedLength_le_length {ds : List K} (h : UnitDistances ds) :
    expectedLength ds ≤ ds.length := by
  induction ds with
  | nil => simp
  | cons d ds ih =>
    obtain ⟨hd, hds⟩ := unitDistances_cons.mp h
    have hrest := expectedLength_nonneg hds
    rw [expectedLength_cons, List.length_cons, Nat.cast_succ]
    calc (1 - d) * (1 + expectedLength ds) ≤ 1 * (1 + expectedLength ds) :=
          mul_le_mul_of_nonneg_right (by linarith) (by linarith)
      _ ≤ ds.length + 1 := by linarith [ih hds]

/-- The whole block is expected to be accepted when all distances are zero. -/
theorem expectedLength_eq_length_iff {ds : List K} (h : UnitDistances ds) :
    expectedLength ds = ds.length ↔ ∀ d ∈ ds, d = 0 := by
  induction ds with
  | nil => simp
  | cons d ds ih =>
    obtain ⟨hd, hds⟩ := unitDistances_cons.mp h
    have hrest := expectedLength_nonneg hds
    have hle := expectedLength_le_length hds
    rw [List.forall_mem_cons, ← ih hds, expectedLength_cons, List.length_cons, Nat.cast_succ]
    constructor
    · intro heq
      have hzero : d = 0 := by
        by_contra hne
        have hpos : 0 < d * (1 + expectedLength ds) :=
          mul_pos (lt_of_le_of_ne hd.1 (Ne.symm hne)) (by linarith)
        linarith
      rw [hzero] at heq
      exact ⟨hzero, by linarith⟩
    · rintro ⟨rfl, heq⟩
      rw [heq]
      ring

/-- Nothing is expected to be accepted when the first distance is one. -/
theorem expectedLength_eq_zero_iff {d : K} {ds : List K} (h : UnitDistances (d :: ds)) :
    expectedLength (d :: ds) = 0 ↔ d = 1 := by
  have hrest := expectedLength_nonneg (unitDistances_cons.mp h).2
  rw [expectedLength_cons, mul_eq_zero, sub_eq_zero, or_iff_left (by linarith)]
  exact eq_comm

/-- Larger distances accept less. -/
theorem expectedLength_anti {ds ds' : List K} (h : UnitDistances ds) (h' : UnitDistances ds')
    (hle : List.Forall₂ (· ≤ ·) ds ds') : expectedLength ds' ≤ expectedLength ds := by
  induction hle with
  | nil => exact le_rfl
  | cons hd hds ih =>
    obtain ⟨hfirst, hrest⟩ := unitDistances_cons.mp h
    obtain ⟨hfirst', hrest'⟩ := unitDistances_cons.mp h'
    have hnonneg := expectedLength_nonneg hrest'
    rw [expectedLength_cons, expectedLength_cons]
    exact mul_le_mul (by linarith) (by linarith [ih hrest hrest']) (by linarith) (by linarith)

end ExpectedLength

/-! ## What the code computes -/

/-- The clamp does nothing to distances between distributions. -/
theorem sum_cumulativeOverlap {ds : List ℚ} (h : UnitDistances ds) (acc : ℚ) :
    (cumulativeOverlap acc ds).sum = acc * expectedLength ds := by
  induction ds generalizing acc with
  | nil => rw [cumulativeOverlap, List.sum_nil, expectedLength_nil, mul_zero]
  | cons d ds ih =>
    obtain ⟨hd, hds⟩ := unitDistances_cons.mp h
    have hclamp : min (max (1 - d) 0) 1 = 1 - d := by
      rw [max_eq_left (by linarith), min_eq_left (by linarith)]
    simp only [cumulativeOverlap, List.sum_cons]
    rw [ih hds, hclamp, expectedLength_cons]
    ring

theorem blockOutput_eq {ds : List ℚ} (h : UnitDistances ds) :
    blockOutput ds = (1 - expectedLength ds / ds.length, expectedLength ds) := by
  rw [blockOutput, sum_cumulativeOverlap h, one_mul]

/-- The distances of a block come from those of the batch. -/
theorem unitDistances_blockTv {tvDistances : List ℚ} (h : UnitDistances tvDistances)
    (blockIndices : List ℕ) (blockIdx : ℕ) :
    UnitDistances (blockTv tvDistances blockIndices blockIdx) := by
  intro d hd
  obtain ⟨x, hx, rfl⟩ := List.mem_map.mp hd
  exact h _ (List.of_mem_zip (List.mem_filter.mp hx).1).1

/-- A block that occurs among the indices has a position. -/
theorem blockTv_ne_nil {tvDistances : List ℚ} {blockIndices : List ℕ} {blockIdx : ℕ}
    (hlen : tvDistances.length = blockIndices.length) (h : blockIdx ∈ blockIndices) :
    blockTv tvDistances blockIndices blockIdx ≠ [] := by
  rw [← List.map_snd_zip hlen.ge] at h
  obtain ⟨x, hx, heq⟩ := List.mem_map.mp h
  rw [blockTv, Ne, List.map_eq_nil_iff, List.filter_eq_nil_iff]
  exact fun hnil => hnil x hx (by simp [heq])

/-- What the code returns for a block depends on the distances of the block alone. -/
theorem getElem?_of_computeE2eTvBlockOutputs {tvDistances : List ℚ} {blockIndices : List ℕ}
    {blockCount : ℕ} {outputs : List (ℚ × ℚ)}
    (h : computeE2eTvBlockOutputs tvDistances blockIndices blockCount = .ok outputs)
    {blockIdx : ℕ} (hblock : blockIdx < blockCount) :
    blockTv tvDistances blockIndices blockIdx ≠ [] ∧
      outputs[blockIdx]? = some (blockOutput (blockTv tvDistances blockIndices blockIdx)) := by
  obtain ⟨hlen, hall⟩ := of_forRange_ok h (0, 0)
  have hbody := hall blockIdx hblock
  split_ifs at hbody with hnil
  refine ⟨hnil, ?_⟩
  rw [Except.ok.inj hbody, List.getD_eq_getElem _ _ (by omega), List.getElem?_eq_getElem]

/-! ## The loss -/

/-- The loss and the expected accept length of a block with the distances `ds`. -/
structure BlockLoss (ds : List ℚ) (loss expected : ℚ) : Prop where
  expected_eq : expected = expectedLength ds
  loss_eq : loss = 1 - expected / ds.length
  expected_mem : 0 ≤ expected ∧ expected ≤ ds.length
  loss_mem : 0 ≤ loss ∧ loss ≤ 1
  loss_eq_zero_iff : loss = 0 ↔ ∀ d ∈ ds, d = 0
  loss_eq_one_iff : loss = 1 ↔ ds.head? = some 1

theorem blockLoss_blockOutput {ds : List ℚ} (h : UnitDistances ds) (hne : ds ≠ []) :
    BlockLoss ds (blockOutput ds).1 (blockOutput ds).2 := by
  have hpos : (0 : ℚ) < ds.length := Nat.cast_pos.mpr (List.length_pos_iff.mpr hne)
  have hnonneg := expectedLength_nonneg h
  have hle := expectedLength_le_length h
  rw [blockOutput_eq h]
  refine ⟨rfl, rfl, ⟨hnonneg, hle⟩, ⟨?_, ?_⟩, ?_, ?_⟩
  · exact sub_nonneg.mpr ((div_le_one hpos).mpr hle)
  · exact sub_le_self _ (div_nonneg hnonneg hpos.le)
  · rw [sub_eq_zero, eq_comm, div_eq_one_iff_eq hpos.ne', expectedLength_eq_length_iff h]
  · obtain ⟨d, rest, rfl⟩ := List.exists_cons_of_ne_nil hne
    rw [sub_eq_self, div_eq_zero_iff, or_iff_left hpos.ne', expectedLength_eq_zero_iff h,
      List.head?_cons, Option.some.injEq]

/-- Larger distances give a larger loss. -/
theorem blockOutput_fst_mono {ds ds' : List ℚ} (h : UnitDistances ds) (h' : UnitDistances ds')
    (hle : List.Forall₂ (· ≤ ·) ds ds') : (blockOutput ds).1 ≤ (blockOutput ds').1 := by
  rw [blockOutput_eq h, blockOutput_eq h', hle.length_eq]
  exact sub_le_sub_left
    (div_le_div_of_nonneg_right (expectedLength_anti h h' hle) (Nat.cast_nonneg _)) 1

/-- The blocks of a batch of distances, in any interleaving. The second batch is any other, with
other blocks and in another interleaving. -/
theorem computeE2eTvBlockOutputs_spec {tvDistances : List ℚ} {blockIndices : List ℕ}
    {blockCount : ℕ} (hlen : tvDistances.length = blockIndices.length)
    (hunit : UnitDistances tvDistances)
    (hoccurs : ∀ blockIdx < blockCount, blockIdx ∈ blockIndices) :
    ∃ outputs, computeE2eTvBlockOutputs tvDistances blockIndices blockCount = .ok outputs ∧
      outputs.length = blockCount ∧
      ∀ blockIdx < blockCount, ∃ loss expected, outputs[blockIdx]? = some (loss, expected) ∧
        BlockLoss (blockTv tvDistances blockIndices blockIdx) loss expected ∧
        ∀ (tvDistances' : List ℚ) (blockIndices' : List ℕ) (blockCount' blockIdx' : ℕ)
          (outputs' : List (ℚ × ℚ)) (loss' expected' : ℚ), UnitDistances tvDistances' →
          computeE2eTvBlockOutputs tvDistances' blockIndices' blockCount' = .ok outputs' →
          blockIdx' < blockCount' → outputs'[blockIdx']? = some (loss', expected') →
          (List.Forall₂ (· ≤ ·) (blockTv tvDistances blockIndices blockIdx)
            (blockTv tvDistances' blockIndices' blockIdx') → loss ≤ loss') ∧
          (blockTv tvDistances blockIndices blockIdx =
            blockTv tvDistances' blockIndices' blockIdx' →
              loss = loss' ∧ expected = expected') := by
  have hok : computeE2eTvBlockOutputs tvDistances blockIndices blockCount =
      .ok ((List.range blockCount).map fun blockIdx =>
        blockOutput (blockTv tvDistances blockIndices blockIdx)) :=
    forRange_eq_ok fun blockIdx hblock => if_neg (blockTv_ne_nil hlen (hoccurs blockIdx hblock))
  refine ⟨_, hok, by simp, fun blockIdx hblock => ?_⟩
  obtain ⟨hne, hout⟩ := getElem?_of_computeE2eTvBlockOutputs hok hblock
  have hds := unitDistances_blockTv hunit blockIndices blockIdx
  refine ⟨(blockOutput _).1, (blockOutput _).2, hout, blockLoss_blockOutput hds hne, ?_⟩
  intro tvDistances' blockIndices' blockCount' blockIdx' outputs' loss' expected' hunit' hok'
    hblock' hout'
  have hds' := unitDistances_blockTv hunit' blockIndices' blockIdx'
  rw [(getElem?_of_computeE2eTvBlockOutputs hok' hblock').2, Option.some.injEq] at hout'
  refine ⟨fun hle => ?_, fun heq => ?_⟩
  · have hmono := blockOutput_fst_mono hds hds' hle
    rwa [hout'] at hmono
  · rw [heq, hout']
    exact ⟨rfl, rfl⟩

/-- The first block has the positions on both sides of the second. -/
theorem computeE2eTvBlockOutputs_interleaved :
    computeE2eTvBlockOutputs [1 / 5, 1 / 2, 2 / 5] [0, 1, 0] 2 =
        .ok [(1 - (4 / 5 + 12 / 25) / 2, 4 / 5 + 12 / 25), (1 / 2, 1 / 2)] ∧
      BlockLoss [1 / 5, 2 / 5] (1 - (4 / 5 + 12 / 25) / 2) (4 / 5 + 12 / 25) := by
  have hcode : computeE2eTvBlockOutputs [1 / 5, 1 / 2, 2 / 5] [0, 1, 0] 2 =
      .ok [(1 - (4 / 5 + 12 / 25) / 2, 4 / 5 + 12 / 25), (1 / 2, 1 / 2)] := by decide +kernel
  have hunit : UnitDistances [1 / 5, 1 / 2, (2 / 5 : ℚ)] := by
    unfold UnitDistances
    decide +kernel
  have hoccurs : ∀ blockIdx < 2, blockIdx ∈ [0, 1, 0] := by decide
  obtain ⟨outputs, hok, -, hblocks⟩ := computeE2eTvBlockOutputs_spec rfl hunit hoccurs
  obtain rfl := Except.ok.inj (hcode.symm.trans hok)
  obtain ⟨loss, expected, hout, hloss, -⟩ := hblocks 0 (by decide)
  obtain ⟨rfl, rfl⟩ := Prod.mk.inj (Option.some.inj hout)
  exact ⟨hcode, hloss⟩

end DraftOpd
