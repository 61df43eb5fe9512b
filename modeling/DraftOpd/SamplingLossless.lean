import DraftOpd.SamplingKernel

/-!
# Sampling verification is lossless

The coins of `compute_dflash_sampling_accept_len_and_bonus` (`dflash_utils.py:806-833`) are
independent and uniform on `[0, 1)`, and both thresholds are one. Whatever the drafter
proposed, a block commits a sequence of tokens with the product of the target's probabilities
at their rows, and its token number `k + 1`, given the ones before it, is distributed as the
target at row `k` (`sampling_verify_lossless`).

A row accepts its leading `a` candidates and samples `x` after them when its coins meet one
condition each (`coins_leading_bonus`).
-/

namespace DraftOpd

open MeasureTheory

namespace SamplingInput

/-- The input with the coins `ω`. -/
noncomputable def withCoins (inp : SamplingInput ℝ)
    (ω : (Fin inp.bs × Fin inp.draftTokenNum → ℝ) × (Fin inp.bs → ℝ)) : SamplingInput ℝ :=
  { inp with
    uniformSamples := fun b k =>
      if h : b < inp.bs ∧ k < inp.draftTokenNum then ω.1 (⟨b, h.1⟩, ⟨k, h.2⟩) else 0
    uniformSamplesForFinalSampling := fun b => if h : b < inp.bs then ω.2 ⟨b, h⟩ else 0 }

/-- The candidates are tokens, the target's rows are distributions over the tokens, and the
thresholds are one. -/
structure TargetOnly (inp : SamplingInput ℝ) : Prop where
  candidates : ∀ b < inp.bs, inp.InVocab b
  nonneg : ∀ b < inp.bs, ∀ k < inp.draftTokenNum, ∀ x < inp.vocabSize, 0 ≤ inp.targetProbs b k x
  total : ∀ b < inp.bs, ∀ k < inp.draftTokenNum,
    cumulative (inp.targetProbs b k) inp.vocabSize = 1
  thresholdSingle : inp.thresholdSingle = 1
  thresholdAcc : inp.thresholdAcc = 1

/-- The tokens `t 1, ..., t m` that a block can commit. -/
structure Committable (inp : SamplingInput ℝ) (b m : ℕ) (t : ℕ → ℕ) : Prop where
  pos : 1 ≤ m
  le : m ≤ inp.draftTokenNum
  follows : ∀ i, 1 ≤ i → i < m → t i = inp.candidates b i
  last : m = inp.draftTokenNum ∨ t m ≠ inp.candidates b m
  token : t m < inp.vocabSize

/-- Token number `i + 1` of the ones a row with this accept length and bonus commits. -/
def committed (inp : SamplingInput ℝ) (b : ℕ) (r : ℕ × ℤ) (i : ℕ) : Option ℤ :=
  if i < r.1 then some (inp.candidates b (i + 1)) else if i = r.1 then some r.2 else none

variable {inp : SamplingInput ℝ} {b a x : ℕ}

/-! ## The residual -/

theorem residual_eq (h : inp.TargetOnly) (hb : b < inp.bs) (ha : a < inp.draftTokenNum)
    (hx : x < inp.vocabSize) :
    inp.residual b a x =
      if a < inp.draftTokenNum - 1 ∧ x = inp.candidates b (a + 1) then 0
      else inp.targetProbs b a x := by
  rw [residual]
  split_ifs
  · rw [sub_self, max_self]
  · rw [sub_zero, max_eq_left (h.nonneg b hb a ha x hx)]

theorem residual_nonneg (inp : SamplingInput ℝ) (b a x : ℕ) : 0 ≤ inp.residual b a x :=
  le_max_right _ _

theorem targetProbs_le_one (h : inp.TargetOnly) (hb : b < inp.bs) (ha : a < inp.draftTokenNum)
    (hx : x < inp.vocabSize) : inp.targetProbs b a x ≤ 1 := by
  rw [← h.total b hb a ha]
  exact Finset.single_le_sum (fun i hi => h.nonneg b hb a ha i (Finset.mem_range.mp hi))
    (Finset.mem_range.mpr hx)

/-- What the rejected candidate leaves to the other tokens. -/
theorem cumulative_residual (h : inp.TargetOnly) (hb : b < inp.bs)
    (ha : a < inp.draftTokenNum) :
    cumulative (inp.residual b a) inp.vocabSize =
      1 - if a < inp.draftTokenNum - 1 then inp.targetProbs b a (inp.candidates b (a + 1))
        else 0 := by
  have hsplit : ∀ x ∈ Finset.range inp.vocabSize, inp.residual b a x =
      inp.targetProbs b a x - if inp.candidates b (a + 1) = x then
        (if a < inp.draftTokenNum - 1 then inp.targetProbs b a x else 0) else 0 := by
    intro x hx
    rw [residual_eq h hb ha (Finset.mem_range.mp hx)]
    rcases eq_or_ne (inp.candidates b (a + 1)) x with rfl | hne
    · by_cases hend : a < inp.draftTokenNum - 1 <;> simp [hend]
    · rw [if_neg fun hx => hne hx.2.symm, if_neg hne, sub_zero]
  rw [cumulative, Finset.sum_congr rfl hsplit, Finset.sum_sub_distrib, Finset.sum_ite_eq]
  have htotal : ∑ x ∈ Finset.range inp.vocabSize, inp.targetProbs b a x = 1 := h.total b hb a ha
  rw [htotal]
  by_cases hend : a < inp.draftTokenNum - 1
  · have hc := h.candidates b hb (a + 1) (by omega)
    rw [if_pos (Finset.mem_range.mpr hc)]
  · simp [hend]

/-! ## The coins of a row -/

variable {ω : (Fin inp.bs × Fin inp.draftTokenNum → ℝ) × (Fin inp.bs → ℝ)}

theorem accepted_withCoins (h : inp.TargetOnly) (hb : b < inp.bs) (ha : a < inp.draftTokenNum) :
    (inp.withCoins ω).accepted b a ↔
      ω.1 (⟨b, hb⟩, ⟨a, ha⟩) ≤ inp.targetProbs b a (inp.candidates b (a + 1)) ∨
        1 ≤ inp.targetProbs b a (inp.candidates b (a + 1)) := by
  have hthreshold : max inp.thresholdAcc (1 / 10 ^ 9) = 1 := by
    rw [h.thresholdAcc]
    exact max_eq_left (by norm_num)
  simp only [accepted, chain, withCoins, hthreshold, h.thresholdSingle, div_one, hb, ha, and_self,
    dite_true]

theorem bonus_withCoins (hb : b < inp.bs) :
    (inp.withCoins ω).bonus b a = (inp.sampleFromProb inp.vocabSize (inp.residual b a)
      (ω.2 ⟨b, hb⟩ * cumulative (inp.residual b a) inp.vocabSize)).getD (inp.vocabSize - 1) := by
  have hfinal : (inp.withCoins ω).uniformSamplesForFinalSampling b = ω.2 ⟨b, hb⟩ := dif_pos hb
  rw [bonus, hfinal]
  rfl

/-- The coins that accept the candidate after node `a`. -/
def acceptSet (inp : SamplingInput ℝ) (b a : ℕ) : Set ℝ :=
  {v | v ≤ inp.targetProbs b a (inp.candidates b (a + 1)) ∨
    1 ≤ inp.targetProbs b a (inp.candidates b (a + 1))}

theorem prod_acceptSet (h : inp.TargetOnly) (hb : b < inp.bs) (ha : a < inp.draftTokenNum) :
    ∏ k ∈ Finset.range a, uniformCoin (inp.acceptSet b k) =
      ENNReal.ofReal (∏ k ∈ Finset.range a, inp.targetProbs b k (inp.candidates b (k + 1))) := by
  have hrow : ∀ k ∈ Finset.range a, k < inp.draftTokenNum ∧
      inp.candidates b (k + 1) < inp.vocabSize := by
    intro k hk
    have hk := Finset.mem_range.mp hk
    exact ⟨by omega, h.candidates b hb (k + 1) (by omega)⟩
  rw [ENNReal.ofReal_prod_of_nonneg fun k hk =>
    h.nonneg b hb k (hrow k hk).1 _ (hrow k hk).2]
  refine Finset.prod_congr rfl fun k hk => ?_
  exact uniformCoin_le (h.nonneg b hb k (hrow k hk).1 _ (hrow k hk).2)
    (targetProbs_le_one h hb (hrow k hk).1 (hrow k hk).2)

/-- All of the first `a` candidates are accepted. -/
theorem coins_accepted (h : inp.TargetOnly) (hb : b < inp.bs) (ha : a < inp.draftTokenNum) :
    coins inp.bs inp.draftTokenNum {ω | ∀ k < a, (inp.withCoins ω).accepted b k} =
      ENNReal.ofReal (∏ k ∈ Finset.range a, inp.targetProbs b k (inp.candidates b (k + 1))) := by
  have hset : {ω | ∀ k < a, (inp.withCoins ω).accepted b k} =
      {ω | (∀ k, (hk : k < a) → ω.1 (⟨b, hb⟩, ⟨k, hk.trans ha⟩) ∈ inp.acceptSet b k) ∧
        ω.1 (⟨b, hb⟩, ⟨a, ha⟩) ∈ Set.univ ∧ ω.2 ⟨b, hb⟩ ∈ Set.univ} := by
    ext ω
    simp only [Set.mem_ofPred_eq, Set.mem_univ, and_self, and_true]
    exact forall₂_congr fun k hk => accepted_withCoins h hb (hk.trans ha)
  rw [hset, coins_prefix ⟨b, hb⟩ ha, prod_acceptSet h hb ha, measure_univ, one_mul,
    mul_one]

theorem prod_candidates_nonneg (h : inp.TargetOnly) (hb : b < inp.bs)
    (ha : a < inp.draftTokenNum) :
    0 ≤ ∏ k ∈ Finset.range a, inp.targetProbs b k (inp.candidates b (k + 1)) := by
  refine Finset.prod_nonneg fun k hk => ?_
  have hk := Finset.mem_range.mp hk
  exact h.nonneg b hb k (by omega) _ (h.candidates b hb (k + 1) (by omega))

/-- The first `a` candidates are accepted, the next one is not, and `x` is sampled. -/
theorem coins_leading_bonus (h : inp.TargetOnly) (hsample : SamplesFirst inp.sampleFromProb)
    (hb : b < inp.bs) (ha : a < inp.draftTokenNum) (hx : x < inp.vocabSize) :
    coins inp.bs inp.draftTokenNum
        {ω | (inp.withCoins ω).Leading b a ∧ (inp.withCoins ω).bonus b a = x} =
      ENNReal.ofReal ((∏ k ∈ Finset.range a, inp.targetProbs b k (inp.candidates b (k + 1))) *
        inp.residual b a x) := by
  let R : Set ℝ := {v | a < inp.draftTokenNum - 1 → v ∉ inp.acceptSet b a}
  let F : Set ℝ := {v | (inp.sampleFromProb inp.vocabSize (inp.residual b a)
    (v * cumulative (inp.residual b a) inp.vocabSize)).getD (inp.vocabSize - 1) = x}
  have hset : {ω | (inp.withCoins ω).Leading b a ∧ (inp.withCoins ω).bonus b a = x} =
      {ω | (∀ k, (hk : k < a) → ω.1 (⟨b, hb⟩, ⟨k, hk.trans ha⟩) ∈ inp.acceptSet b k) ∧
        ω.1 (⟨b, hb⟩, ⟨a, ha⟩) ∈ R ∧ ω.2 ⟨b, hb⟩ ∈ F} := by
    ext ω
    simp only [Set.mem_ofPred_eq, ← and_assoc]
    refine and_congr ⟨fun hlead => ⟨fun k hk => ?_, fun hend => ?_⟩,
      fun hrow => ⟨Nat.le_sub_one_of_lt ha, fun k hk => ?_, fun hend => ?_⟩⟩ ?_
    · exact (accepted_withCoins h hb (hk.trans ha)).mp (hlead.accepted k hk)
    · exact mt (accepted_withCoins h hb ha).mpr (hlead.rejected hend)
    · exact (accepted_withCoins h hb (hk.trans ha)).mpr (hrow.1 k hk)
    · exact mt (accepted_withCoins h hb ha).mp (hrow.2 hend)
    · rw [bonus_withCoins hb]
      rfl
  have hR : uniformCoin R = ENNReal.ofReal (cumulative (inp.residual b a) inp.vocabSize) := by
    rw [cumulative_residual h hb ha]
    by_cases hend : a < inp.draftTokenNum - 1
    · have hc := h.candidates b hb (a + 1) (by omega)
      rw [if_pos hend, ← uniformCoin_gt (h.nonneg b hb a ha _ hc) (targetProbs_le_one h hb ha hc)]
      simp only [R, hend, true_imp_iff]
      rfl
    · simp only [R, hend, false_imp_iff, if_false, sub_zero, ENNReal.ofReal_one]
      exact measure_univ
  rw [hset, coins_prefix ⟨b, hb⟩ ha, prod_acceptSet h hb ha, hR,
    cumulative_mul_uniformCoin_sample hsample (fun i _ => residual_nonneg inp b a i) hx,
    ← ENNReal.ofReal_mul (prod_candidates_nonneg h hb ha)]

/-! ## What a block commits -/

section Commits

variable {blocks : List ℕ} {stale : TreeArrays ℝ}

variable (ω stale) in
/-- The blocks are those of the grid, so that every row has a result. -/
theorem exists_returns (h : inp.TargetOnly) (hsample : SamplesFirst inp.sampleFromProb)
    (hblocks : blocks.Perm (List.range inp.bs)) (hb : b < inp.bs) (hB : 0 < inp.draftTokenNum) :
    ∃ f a, (inp.withCoins ω).computeDflashSamplingAcceptLenAndBonus blocks stale = .ok f ∧
      (inp.withCoins ω).Leading b a ∧ f b = (a, ((inp.withCoins ω).bonus b a : ℤ)) := by
  have hmem : ∀ {c : ℕ}, c ∈ blocks ↔ c < inp.bs := by
    intro c
    rw [hblocks.mem_iff, List.mem_range]
  have hnodup : blocks.Nodup := hblocks.nodup_iff.mpr List.nodup_range
  exact @computeDflashSamplingAcceptLenAndBonus_eq ℝ _ _ (inp.withCoins ω) b hsample
    (Nat.zero_lt_of_lt hb) hB blocks hnodup (fun c hc => h.candidates c (hmem.mp hc))
    (hmem.mpr hb) stale

/-- What the row returns, in terms of its coins. -/
theorem exists_ok_iff (h : inp.TargetOnly) (hsample : SamplesFirst inp.sampleFromProb)
    (hblocks : blocks.Perm (List.range inp.bs)) (hb : b < inp.bs) (hB : 0 < inp.draftTokenNum)
    (P : ℕ × ℤ → Prop) :
    (∃ f, (inp.withCoins ω).computeDflashSamplingAcceptLenAndBonus blocks stale = .ok f ∧ P (f b)) ↔
      ∃ a, (inp.withCoins ω).Leading b a ∧ P (a, ((inp.withCoins ω).bonus b a : ℤ)) := by
  obtain ⟨f, a, hok, hlead, hfb⟩ :=
    exists_returns ω stale h hsample hblocks hb hB
  constructor
  · rintro ⟨f', hok', hP⟩
    obtain rfl : f = f' := Except.ok.inj (hok.symm.trans hok')
    exact ⟨a, hlead, hfb ▸ hP⟩
  · rintro ⟨a', hlead', hP⟩
    obtain rfl := hlead.unique hlead'
    exact ⟨f, hok, hfb ▸ hP⟩

/-- The accept length is `a` and the bonus token `x`. -/
theorem coins_returns (h : inp.TargetOnly) (hsample : SamplesFirst inp.sampleFromProb)
    (hblocks : blocks.Perm (List.range inp.bs)) (hb : b < inp.bs) (ha : a < inp.draftTokenNum)
    (hx : x < inp.vocabSize) :
    coins inp.bs inp.draftTokenNum
        {ω | ∃ f, (inp.withCoins ω).computeDflashSamplingAcceptLenAndBonus blocks stale = .ok f ∧
          f b = (a, (x : ℤ))} =
      ENNReal.ofReal ((∏ k ∈ Finset.range a, inp.targetProbs b k (inp.candidates b (k + 1))) *
        inp.residual b a x) := by
  rw [← coins_leading_bonus h hsample hb ha hx]
  congr 1
  ext ω
  rw [Set.mem_ofPred_eq, Set.mem_ofPred_eq,
    exists_ok_iff h hsample hblocks hb (Nat.zero_lt_of_lt ha) fun r => r = (a, (x : ℤ))]
  constructor
  · rintro ⟨a', hlead, heq⟩
    obtain ⟨rfl, hbonus⟩ := Prod.mk.inj heq
    exact ⟨hlead, Int.ofNat.inj hbonus⟩
  · rintro ⟨hlead, hbonus⟩
    exact ⟨a, hlead, by rw [hbonus]⟩

/-- Token number `a + 1` is the candidate when that is accepted, and else the bonus token. -/
theorem committed_eq_iff (h : inp.TargetOnly) (hsample : SamplesFirst inp.sampleFromProb)
    (hblocks : blocks.Perm (List.range inp.bs)) (hb : b < inp.bs) (ha : a < inp.draftTokenNum) :
    (∃ f, (inp.withCoins ω).computeDflashSamplingAcceptLenAndBonus blocks stale = .ok f ∧
        inp.committed b (f b) a = some (x : ℤ)) ↔
      ((∀ k < a + 1, (inp.withCoins ω).accepted b k) ∧ a < inp.draftTokenNum - 1 ∧
        x = inp.candidates b (a + 1)) ∨
      ((inp.withCoins ω).Leading b a ∧ (inp.withCoins ω).bonus b a = x) := by
  have hB : 0 < inp.draftTokenNum := Nat.zero_lt_of_lt ha
  rw [exists_ok_iff h hsample hblocks hb hB fun r => inp.committed b r a = some (x : ℤ)]
  constructor
  · rintro ⟨n, hlead, hcommit⟩
    have hn : n ≤ inp.draftTokenNum - 1 := hlead.le
    rw [committed] at hcommit
    split_ifs at hcommit with hlt heq
    · refine .inl ⟨fun k hk => hlead.accepted k (by omega), by omega, ?_⟩
      exact (Int.ofNat.inj (Option.some.inj hcommit)).symm
    · subst heq
      exact .inr ⟨hlead, Int.ofNat.inj (Option.some.inj hcommit)⟩
  · rintro (⟨hacc, hend, rfl⟩ | ⟨hlead, rfl⟩)
    · obtain ⟨-, n, -, hlead, -⟩ :=
        exists_returns ω stale h hsample hblocks hb hB
      have hlt : a < n := by
        by_contra hle
        exact hlead.rejected (show n < inp.draftTokenNum - 1 by omega) (hacc n (by omega))
      exact ⟨n, hlead, if_pos hlt⟩
    · exact ⟨a, hlead, by rw [committed, if_neg (lt_irrefl a), if_pos rfl]⟩

/-- Token number `a + 1`, given the ones before it, is distributed as the target at row `a`. -/
theorem coins_committed (h : inp.TargetOnly) (hsample : SamplesFirst inp.sampleFromProb)
    (hblocks : blocks.Perm (List.range inp.bs)) (hb : b < inp.bs) (ha : a < inp.draftTokenNum)
    (hx : x < inp.vocabSize) :
    coins inp.bs inp.draftTokenNum
        {ω | ∃ f, (inp.withCoins ω).computeDflashSamplingAcceptLenAndBonus blocks stale = .ok f ∧
          inp.committed b (f b) a = some (x : ℤ)} =
      ENNReal.ofReal ((∏ k ∈ Finset.range a, inp.targetProbs b k (inp.candidates b (k + 1))) *
        inp.targetProbs b a x) := by
  simp only [committed_eq_iff h hsample hblocks hb ha]
  have hbonus := coins_leading_bonus h hsample hb ha hx
  rw [residual_eq h hb ha hx] at hbonus
  by_cases hcand : a < inp.draftTokenNum - 1 ∧ x = inp.candidates b (a + 1)
  · -- the candidate : the residual has no mass left on it
    rw [if_pos hcand, mul_zero, ENNReal.ofReal_zero] at hbonus
    have haccepted := coins_accepted h hb (show a + 1 < inp.draftTokenNum by omega)
    obtain ⟨hend, rfl⟩ := hcand
    rw [Finset.prod_range_succ] at haccepted
    simp only [hend, and_true]
    rw [← haccepted, Set.ofPred_or]
    exact measure_congr (union_ae_eq_left_of_ae_eq_empty (ae_eq_empty.mpr hbonus))
  · simpa only [hcand, and_false, false_or, if_false] using hbonus

end Commits

/-- The bonus token is not the candidate it replaces, so that the residual is the target. -/
theorem Committable.prod_eq {n : ℕ} {t : ℕ → ℕ} (ht : inp.Committable b (n + 1) t)
    (h : inp.TargetOnly) (hb : b < inp.bs) :
    (∏ k ∈ Finset.range n, inp.targetProbs b k (inp.candidates b (k + 1))) *
        inp.residual b n (t (n + 1)) =
      ∏ i ∈ Finset.range (n + 1), inp.targetProbs b i (t (i + 1)) := by
  have hlast : ¬(n < inp.draftTokenNum - 1 ∧ t (n + 1) = inp.candidates b (n + 1)) := by
    rintro ⟨hlt, heq⟩
    rcases ht.last with hend | hne
    · omega
    · exact hne heq
  rw [residual_eq h hb ht.le ht.token, if_neg hlast, Finset.prod_range_succ]
  congr 1
  refine Finset.prod_congr rfl fun k hk => ?_
  have hk := Finset.mem_range.mp hk
  rw [ht.follows (k + 1) (by omega) (by omega)]

/-- A block commits `t 1, ..., t m` with the product of the target's probabilities at their
rows, whatever the candidates are and in whatever order the blocks of the grid run ; and token
number `k + 1`, given the candidates before it, is distributed as the target at row `k`. -/
theorem sampling_verify_lossless (inp : SamplingInput ℝ) (h : inp.TargetOnly)
    (hsample : SamplesFirst inp.sampleFromProb) {blocks : List ℕ}
    (hblocks : blocks.Perm (List.range inp.bs)) (stale : TreeArrays ℝ) {b : ℕ} (hb : b < inp.bs) :
    (∀ m t, inp.Committable b m t →
      (coins inp.bs inp.draftTokenNum).real
          {ω | ∃ f, (inp.withCoins ω).computeDflashSamplingAcceptLenAndBonus blocks stale = .ok f ∧
            f b = (m - 1, (t m : ℤ))} =
        ∏ i ∈ Finset.range m, inp.targetProbs b i (t (i + 1))) ∧
    ∀ k < inp.draftTokenNum, ∀ x < inp.vocabSize,
      (coins inp.bs inp.draftTokenNum).real
          {ω | ∃ f, (inp.withCoins ω).computeDflashSamplingAcceptLenAndBonus blocks stale = .ok f ∧
            inp.committed b (f b) k = some (x : ℤ)} =
        (∏ i ∈ Finset.range k, inp.targetProbs b i (inp.candidates b (i + 1))) *
          inp.targetProbs b k x := by
  refine ⟨fun m t ht => ?_, fun k hk x hx => ?_⟩
  · obtain ⟨n, rfl⟩ : ∃ n, m = n + 1 := ⟨m - 1, by have := ht.pos ; omega⟩
    rw [Nat.add_sub_cancel, measureReal_def,
      coins_returns h hsample hblocks hb ht.le ht.token, ENNReal.toReal_ofReal, ht.prod_eq h hb]
    exact mul_nonneg (prod_candidates_nonneg h hb ht.le) (residual_nonneg _ _ _ _)
  · rw [measureReal_def, coins_committed h hsample hblocks hb hk hx, ENNReal.toReal_ofReal]
    exact mul_nonneg (prod_candidates_nonneg h hb hk) (h.nonneg b hb k hk x hx)

/-- Two rows of a target that prefers the token the drafter does not propose. -/
noncomputable def quarterInput : SamplingInput ℝ where
  bs := 1
  draftTokenNum := 2
  vocabSize := 2
  candidates _ _ := 0
  targetProbs _ _ x := if x = 0 then 1 / 4 else 3 / 4
  uniformSamples _ _ := 0
  uniformSamplesForFinalSampling _ := 0
  thresholdSingle := 1
  thresholdAcc := 1
  sampleFromProb := firstExceeding

theorem quarterInput_targetOnly : quarterInput.TargetOnly where
  candidates _ _ _ _ := Nat.zero_lt_two
  nonneg b _ k _ x _ := by
    simp only [quarterInput]
    split_ifs <;> norm_num
  total b _ k _ := by
    simp only [quarterInput, cumulative, Finset.sum_range_succ, Finset.sum_range_zero]
    norm_num
  thresholdSingle := rfl
  thresholdAcc := rfl

/-- The buffers of a first call. -/
noncomputable def emptyArrays : TreeArrays ℝ where
  predicts _ := 0
  acceptIndex _ := 0
  acceptTokenNum _ := 0
  draftProbs _ := 0

theorem sampling_verify_lossless_quarter :
    (coins 1 2).real
        {ω | ∃ f, (quarterInput.withCoins ω).computeDflashSamplingAcceptLenAndBonus [0]
          emptyArrays = .ok f ∧ f 0 = (1, 1)} = 3 / 16 ∧
      (coins 1 2).real
        {ω | ∃ f, (quarterInput.withCoins ω).computeDflashSamplingAcceptLenAndBonus [0]
          emptyArrays = .ok f ∧ quarterInput.committed 0 (f 0) 0 = some 1} = 3 / 4 := by
  have hcommit : quarterInput.Committable 0 2 fun i => i - 1 := by
    refine ⟨by omega, le_rfl, fun i h₁ h₂ => ?_, .inl rfl, Nat.one_lt_two⟩
    simp only [quarterInput]
    omega
  obtain ⟨hseq, hrow⟩ := sampling_verify_lossless quarterInput quarterInput_targetOnly
    samplesFirst_firstExceeding (List.Perm.refl [0]) emptyArrays Nat.zero_lt_one
  refine ⟨(hseq 2 _ hcommit).trans ?_, (hrow 0 Nat.zero_lt_two 1 Nat.one_lt_two).trans ?_⟩
  · simp only [quarterInput, Finset.prod_range_succ, Finset.prod_range_zero]
    norm_num
  · simp [quarterInput]

end SamplingInput

end DraftOpd
