import Mathlib.MeasureTheory.Constructions.Pi
import Mathlib.MeasureTheory.Measure.Lebesgue.Basic

/-!
# Uniform coins and sampling by cumulative weights

`uniformCoin` is the uniform distribution on `[0, 1)`, `coins` that of a table of coins and
one more coin for each row of the table, all independent. The coins of one row meet
independent conditions with the product of the probabilities (`coins_row`).

A sampler that returns the first index whose cumulative weight exceeds `u` returns an index
with the probability of its share of the weight, when `u` is a coin times the total
(`uniformCoin_sample`).
-/

namespace DraftOpd

open MeasureTheory

/-! ## One coin -/

/-- The uniform distribution on `[0, 1)`. -/
noncomputable def uniformCoin : Measure ℝ := volume.restrict (Set.Ico 0 1)

instance : IsProbabilityMeasure uniformCoin :=
  ⟨by rw [uniformCoin, Measure.restrict_apply_univ, Real.volume_Ico, sub_zero, ENNReal.ofReal_one]⟩

theorem uniformCoin_apply (s : Set ℝ) : uniformCoin s = volume (s ∩ Set.Ico 0 1) :=
  Measure.restrict_apply' measurableSet_Ico

/-- A coin that stays below `p`, or any coin when `p` is one. -/
theorem uniformCoin_le {p : ℝ} (h₀ : 0 ≤ p) (h₁ : p ≤ 1) :
    uniformCoin {x | x ≤ p ∨ 1 ≤ p} = ENNReal.ofReal p := by
  rw [uniformCoin_apply]
  rcases h₁.lt_or_eq with hp | rfl
  · have hset : {x | x ≤ p ∨ 1 ≤ p} ∩ Set.Ico 0 1 = Set.Icc 0 p := by
      ext x
      simp only [Set.mem_inter_iff, Set.mem_ofPred_eq, not_le.mpr hp, or_false, Set.mem_Ico,
        Set.mem_Icc]
      exact ⟨fun h => ⟨h.2.1, h.1⟩, fun h => ⟨h.2, h.1, h.2.trans_lt hp⟩⟩
    rw [hset, Real.volume_Icc, sub_zero]
  · simp

/-- The other coins. -/
theorem uniformCoin_gt {p : ℝ} (h₀ : 0 ≤ p) (h₁ : p ≤ 1) :
    uniformCoin {x | ¬(x ≤ p ∨ 1 ≤ p)} = ENNReal.ofReal (1 - p) := by
  rw [uniformCoin_apply]
  rcases h₁.lt_or_eq with hp | rfl
  · have hset : {x | ¬(x ≤ p ∨ 1 ≤ p)} ∩ Set.Ico 0 1 = Set.Ioo p 1 := by
      ext x
      simp only [Set.mem_inter_iff, Set.mem_ofPred_eq, not_le.mpr hp, or_false, not_le,
        Set.mem_Ico, Set.mem_Ioo]
      exact ⟨fun h => ⟨h.1, h.2.2⟩, fun h => ⟨h.1, h₀.trans h.1.le, h.2⟩⟩
    rw [hset, Real.volume_Ioo]
  · simp

/-! ## Sampling by cumulative weights -/

section Sample

set_option linter.unusedSectionVars false

variable {K : Type*} [Field K] [LinearOrder K]

/-- The weight of the first `n` indices. -/
def cumulative (w : ℕ → K) (n : ℕ) : K := ∑ i ∈ Finset.range n, w i

theorem cumulative_succ (w : ℕ → K) (n : ℕ) : cumulative w (n + 1) = cumulative w n + w n :=
  Finset.sum_range_succ w n

/-- The sampler returns the first of `d` indices whose cumulative weight exceeds `u`. -/
def SamplesFirst (sample : ℕ → (ℕ → K) → K → Option ℕ) : Prop :=
  ∀ d w u i, sample d w u = some i ↔
    i < d ∧ u < cumulative w (i + 1) ∧ ∀ j < i, cumulative w (j + 1) ≤ u

/-- Such a sampler. -/
def firstExceeding (d : ℕ) (w : ℕ → K) (u : K) : Option ℕ :=
  (List.range d).find? fun i => u < cumulative w (i + 1)

theorem samplesFirst_firstExceeding : SamplesFirst (firstExceeding (K := K)) := by
  intro d w u i
  rw [firstExceeding, List.find?_range_eq_some]
  simp only [decide_eq_true_eq, List.mem_range, Bool.not_eq_eq_eq_not, Bool.not_true,
    decide_eq_false_iff_not, not_lt]
  exact and_left_comm

theorem cumulative_congr {w w' : ℕ → K} {d n : ℕ} (h : ∀ i < d, w i = w' i) (hn : n ≤ d) :
    cumulative w n = cumulative w' n :=
  Finset.sum_congr rfl fun i hi => h i ((Finset.mem_range.mp hi).trans_le hn)

theorem SamplesFirst.congr {sample : ℕ → (ℕ → K) → K → Option ℕ} (hs : SamplesFirst sample)
    {d : ℕ} {w w' : ℕ → K} (h : ∀ i < d, w i = w' i) (u : K) : sample d w u = sample d w' u := by
  ext i
  rw [hs, hs]
  refine and_congr_right fun hi => ?_
  rw [cumulative_congr h hi]
  refine and_congr_right fun _ => forall₂_congr fun j hj => ?_
  rw [cumulative_congr h (show j + 1 ≤ d by omega)]

variable [IsStrictOrderedRing K]

theorem cumulative_mono {w : ℕ → K} {d : ℕ} (hw : ∀ i < d, 0 ≤ w i) {m n : ℕ} (hmn : m ≤ n)
    (hn : n ≤ d) : cumulative w m ≤ cumulative w n := by
  refine Finset.sum_le_sum_of_subset_of_nonneg (Finset.range_mono hmn) fun i hi _ => ?_
  exact hw i ((Finset.mem_range.mp hi).trans_le hn)

/-- The index is the one whose share of the weight holds `u`. -/
theorem sample_eq_some_iff {sample : ℕ → (ℕ → K) → K → Option ℕ} (hs : SamplesFirst sample)
    {d : ℕ} {w : ℕ → K} (hw : ∀ i < d, 0 ≤ w i) {u : K} (hu : 0 ≤ u) {t : ℕ} (ht : t < d) :
    sample d w u = some t ↔ cumulative w t ≤ u ∧ u < cumulative w (t + 1) := by
  rw [hs]
  constructor
  · rintro ⟨-, hlt, hfirst⟩
    refine ⟨?_, hlt⟩
    rcases t with _ | t
    · simpa [cumulative] using hu
    · exact hfirst t (Nat.lt_succ_self t)
  · rintro ⟨hle, hlt⟩
    exact ⟨ht, hlt, fun j hj => (cumulative_mono hw hj ht.le).trans hle⟩

/-- Some index is found when `u` is below the total. -/
theorem exists_sample {sample : ℕ → (ℕ → K) → K → Option ℕ} (hs : SamplesFirst sample)
    {d : ℕ} {w : ℕ → K} {u : K} (hu : 0 ≤ u) (hlt : u < cumulative w d) :
    ∃ i, sample d w u = some i := by
  classical
  have hex : ∃ i, u < cumulative w (i + 1) := by
    rcases d with _ | d
    · simp only [cumulative, Finset.range_zero, Finset.sum_empty] at hlt
      exact absurd hlt (not_lt.mpr hu)
    · exact ⟨d, hlt⟩
  refine ⟨Nat.find hex, (hs d w u _).mpr ⟨?_, Nat.find_spec hex, fun j hj => ?_⟩⟩
  · rcases d with _ | d
    · simp only [cumulative, Finset.range_zero, Finset.sum_empty] at hlt
      exact absurd hlt (not_lt.mpr hu)
    · exact Nat.lt_succ_of_le (Nat.find_min' hex hlt)
  · exact not_lt.mp (Nat.find_min hex hj)

end Sample

/-- An index is sampled with the probability of its share of the weight. -/
theorem uniformCoin_sample {sample : ℕ → (ℕ → ℝ) → ℝ → Option ℕ} (hs : SamplesFirst sample)
    {d : ℕ} {w : ℕ → ℝ} (hw : ∀ i < d, 0 ≤ w i) (hpos : 0 < cumulative w d) {t : ℕ} (ht : t < d) :
    uniformCoin {v | (sample d w (v * cumulative w d)).getD (d - 1) = t} =
      ENNReal.ofReal (w t / cumulative w d) := by
  have hset : {v | (sample d w (v * cumulative w d)).getD (d - 1) = t} ∩ Set.Ico 0 1 =
      Set.Ico (cumulative w t / cumulative w d) (cumulative w (t + 1) / cumulative w d) := by
    have hlow : 0 ≤ cumulative w t := by
      simpa [cumulative] using cumulative_mono hw (Nat.zero_le t) ht.le
    have hhigh : cumulative w (t + 1) ≤ cumulative w d := cumulative_mono hw ht le_rfl
    ext v
    rw [Set.mem_inter_iff, Set.mem_ofPred_eq, Set.mem_Ico, Set.mem_Ico, div_le_iff₀ hpos,
      lt_div_iff₀ hpos]
    constructor
    · rintro ⟨hv, h₀, h₁⟩
      have hu : 0 ≤ v * cumulative w d := mul_nonneg h₀ hpos.le
      obtain ⟨i, hi⟩ := exists_sample hs hu
        (show v * cumulative w d < cumulative w d by nlinarith)
      rw [hi, Option.getD_some] at hv
      rw [hv] at hi
      exact (sample_eq_some_iff hs hw hu ht).mp hi
    · intro hv
      have hu : 0 ≤ v * cumulative w d := hlow.trans hv.1
      refine ⟨?_, nonneg_of_mul_nonneg_left hu hpos, ?_⟩
      · rw [(sample_eq_some_iff hs hw hu ht).mpr hv, Option.getD_some]
      · have hlt := hv.2.trans_le hhigh
        nlinarith
  rw [uniformCoin_apply, hset, Real.volume_Ico, ← sub_div, cumulative_succ, add_sub_cancel_left]

/-- The same with the total as a factor, which may be zero. -/
theorem cumulative_mul_uniformCoin_sample {sample : ℕ → (ℕ → ℝ) → ℝ → Option ℕ}
    (hs : SamplesFirst sample) {d : ℕ} {w : ℕ → ℝ} (hw : ∀ i < d, 0 ≤ w i) {t : ℕ} (ht : t < d) :
    ENNReal.ofReal (cumulative w d) *
      uniformCoin {v | (sample d w (v * cumulative w d)).getD (d - 1) = t} =
      ENNReal.ofReal (w t) := by
  have hle : w t ≤ cumulative w d :=
    Finset.single_le_sum (fun i hi => hw i (Finset.mem_range.mp hi)) (Finset.mem_range.mpr ht)
  rcases ((hw t ht).trans hle).eq_or_lt with hzero | hpos
  · have hwt : w t = 0 := le_antisymm (hzero ▸ hle) (hw t ht)
    rw [← hzero, hwt, ENNReal.ofReal_zero, zero_mul]
  · rw [uniformCoin_sample hs hw hpos ht, ← ENNReal.ofReal_mul hpos.le,
      mul_div_cancel₀ _ hpos.ne']

/-! ## A table of coins -/

/-- A table of coins and one more coin for each row. -/
noncomputable def coins (rows cols : ℕ) : Measure ((Fin rows × Fin cols → ℝ) × (Fin rows → ℝ)) :=
  (Measure.pi fun _ => uniformCoin).prod (Measure.pi fun _ => uniformCoin)

/-- Conditions on the coins of one row. -/
theorem coins_row {rows cols : ℕ} (b : Fin rows) (T : Fin cols → Set ℝ) (F : Set ℝ) :
    coins rows cols {ω | (∀ k, ω.1 (b, k) ∈ T k) ∧ ω.2 b ∈ F} =
      (∏ k, uniformCoin (T k)) * uniformCoin F := by
  classical
  have hset : {ω : (Fin rows × Fin cols → ℝ) × (Fin rows → ℝ) |
      (∀ k, ω.1 (b, k) ∈ T k) ∧ ω.2 b ∈ F} =
      (Set.univ.pi fun i : Fin rows × Fin cols => if i.1 = b then T i.2 else Set.univ) ×ˢ
        Set.univ.pi fun i : Fin rows => if i = b then F else Set.univ := by
    ext ω
    simp only [Set.mem_ofPred_eq, Set.mem_prod, Set.mem_univ_pi]
    refine and_congr ⟨fun h i => ?_, fun h k => by simpa using h (b, k)⟩
      ⟨fun h i => ?_, fun h => by simpa using h b⟩
    · split_ifs with hi
      · rw [show i = (b, i.2) from Prod.ext hi rfl]
        exact h i.2
      · exact Set.mem_univ _
    · split_ifs with hi
      · rwa [hi]
      · exact Set.mem_univ _
  have hone : ∀ c : Fin rows, c ≠ b →
      (∏ k : Fin cols, uniformCoin (if c = b then T k else Set.univ)) = 1 := by
    intro c hc
    refine Finset.prod_eq_one fun k _ => ?_
    rw [if_neg hc, measure_univ]
  rw [hset, coins, Measure.prod_prod, Measure.pi_pi, Measure.pi_pi, Fintype.prod_prod_type,
    Fintype.prod_eq_single b hone, Fintype.prod_eq_single b fun c hc => by
      rw [if_neg hc, measure_univ]]
  simp

/-- Conditions on the first coins of a row, on the next one, and on the row's last coin. -/
theorem coins_prefix {rows cols a : ℕ} (b : Fin rows) (ha : a < cols) (T : ℕ → Set ℝ)
    (R F : Set ℝ) :
    coins rows cols {ω | (∀ k, (hk : k < a) → ω.1 (b, ⟨k, hk.trans ha⟩) ∈ T k) ∧
      ω.1 (b, ⟨a, ha⟩) ∈ R ∧ ω.2 b ∈ F} =
      (∏ k ∈ Finset.range a, uniformCoin (T k)) * (uniformCoin R * uniformCoin F) := by
  let S : ℕ → Set ℝ := fun k => if k < a then T k else if k = a then R else Set.univ
  have hset : {ω : (Fin rows × Fin cols → ℝ) × (Fin rows → ℝ) |
      (∀ k, (hk : k < a) → ω.1 (b, ⟨k, hk.trans ha⟩) ∈ T k) ∧
        ω.1 (b, ⟨a, ha⟩) ∈ R ∧ ω.2 b ∈ F} =
      {ω | (∀ k : Fin cols, ω.1 (b, k) ∈ S k) ∧ ω.2 b ∈ F} := by
    ext ω
    simp only [Set.mem_ofPred_eq, ← and_assoc]
    refine and_congr_left fun _ => ⟨fun h k => ?_, fun h => ⟨fun k hk => ?_, ?_⟩⟩
    · by_cases hk : (k : ℕ) < a
      · simpa only [S, if_pos hk] using h.1 k hk
      · by_cases hka : (k : ℕ) = a
        · have hkey : k = ⟨a, ha⟩ := Fin.ext hka
          simpa only [S, hkey, lt_irrefl, if_false, if_true] using h.2
        · simp only [S, if_neg hk, if_neg hka, Set.mem_univ]
    · simpa only [S, if_pos hk] using h ⟨k, hk.trans ha⟩
    · simpa only [S, lt_irrefl, if_false, if_true] using h ⟨a, ha⟩
  have hprod : ∏ k : Fin cols, uniformCoin (S k) =
      (∏ k ∈ Finset.range a, uniformCoin (T k)) * uniformCoin R := by
    have hbeyond : ∀ k ∈ Finset.range cols, k ∉ Finset.range (a + 1) → uniformCoin (S k) = 1 := by
      intro k _ hk
      rw [Finset.mem_range] at hk
      simp only [S]
      rw [if_neg (by omega), if_neg (by omega), measure_univ]
    rw [Fin.prod_univ_eq_prod_range fun k => uniformCoin (S k),
      ← Finset.prod_subset (Finset.range_mono ha) hbeyond, Finset.prod_range_succ]
    congr 1
    · refine Finset.prod_congr rfl fun k hk => ?_
      simp only [S, if_pos (Finset.mem_range.mp hk)]
    · simp only [S, lt_irrefl, if_false, if_true]
  rw [hset, coins_row, hprod, mul_assoc]

end DraftOpd
