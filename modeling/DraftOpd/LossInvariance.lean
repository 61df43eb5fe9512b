import DraftOpd.DistillationLoss
import DraftOpd.Partition
import Mathlib.Algebra.BigOperators.Ring.List
import Mathlib.Tactic.Linarith

/-!
# Micro-batches of the distillation loss

The engine adds up the losses of the micro-batches of a mini-batch, each computed with the
counts of the whole. The branches of the loss do not share a denominator : a micro-batch
without a rejected draft divides by the response tokens alone, and with position decay of
the response each micro-batch divides by its own weights.

`LossInvariant` is the condition under which the branches agree, on the masks and the
weights of the streams. `microBatchInvariant_iff` : under it the sum is the loss of the
mini-batch, for all losses, and with non-negative weights only under it.
-/

namespace DraftOpd

variable {config : LossConfig} {keys : OutputKeys}

/-! ## Losses and masks -/

/-- The sample with given losses. -/
def LossSample.withLosses (x y : ℚ) (s : LossSample) : LossSample where
  response := s.response.map fun cell => { cell with loss := x }
  rejected := s.rejected.map fun cell => { cell with loss := y }

/-- The batch with given losses. -/
def withLosses (x y : ℚ) (batch : List LossSample) : List LossSample :=
  batch.map (LossSample.withLosses x y)

/-- The masks and offsets of a batch. -/
def masks (batch : List LossSample) : List LossSample := withLosses 0 0 batch

/-- The loss does not depend on how the mini-batch is split : for all losses on the given
masks, the losses of the micro-batches add up to that of the mini-batch. -/
def MicroBatchInvariant (config : LossConfig) (keys : OutputKeys)
    (micros : List (List LossSample)) : Prop :=
  ∀ (micros' : List (List LossSample)) (batch : List LossSample),
    micros'.map masks = micros.map masks → micros'.flatten.Perm batch →
    (micros'.mapM (distillationLoss config keys (globalBatchInfo config keys batch))).map List.sum =
      distillationLoss config keys (globalBatchInfo config keys batch) batch

/-- The response positions that count. -/
def effectiveCount (keys : OutputKeys) (batch : List LossSample) : ℕ :=
  (responseCells batch).countP (ResponseCell.effective keys)

/-- The branches of the loss agree on the micro-batches. -/
def LossInvariant (config : LossConfig) (keys : OutputKeys) (micros : List (List LossSample)) :
    Prop :=
  if config.responseDecay keys then
    (∀ m ∈ micros, hasEffective keys m = true → hasRejectedStream keys m = false →
      (hasRejectedStream keys micros.flatten = false ∨
        config.rejectedDraftStreamWeight = 0 ∧ 0 < config.responseStreamWeight) ∧
      effectiveCount keys m = effectiveCount keys micros.flatten) ∧
    ∀ m ∈ micros, hasRejectedStream keys m = true → config.responseStreamWeight = 0 ∨
      effectiveCount keys m = effectiveCount keys micros.flatten ∨
      config.rejectedDraftStreamWeight = 0 ∧ hasEffective keys m = false
  else
    hasRejectedStream keys micros.flatten = false ∨
      (∀ m ∈ micros, hasEffective keys m = true → hasRejectedStream keys m = true) ∨
      config.rejectedDraftStreamWeight = 0 ∧ 0 < config.responseStreamWeight

theorem responseCells_withLosses (x y : ℚ) (batch : List LossSample) :
    responseCells (withLosses x y batch) =
      (responseCells batch).map fun cell => { cell with loss := x } := by
  unfold responseCells withLosses
  rw [List.flatMap_map, List.map_flatMap]
  rfl

theorem rejectedLossCells_withLosses (x y : ℚ) (batch : List LossSample) :
    rejectedLossCells (withLosses x y batch) =
      (rejectedLossCells batch).map fun cell => { cell with loss := y } := by
  unfold rejectedLossCells withLosses
  rw [List.flatMap_map, List.map_flatMap]
  rfl

theorem numTokens_withLosses (x y : ℚ) (batch : List LossSample) :
    numTokens (withLosses x y batch) = numTokens batch := by
  unfold numTokens
  rw [responseCells_withLosses, List.map_map]
  rfl

theorem responseTotal_withLosses (x y : ℚ) (batch : List LossSample) :
    responseTotal config keys (withLosses x y batch) = responseTotal config keys batch := by
  unfold responseTotal
  rw [responseCells_withLosses, List.map_map]
  rfl

theorem rejectedTotal_withLosses (x y : ℚ) (batch : List LossSample) :
    rejectedTotal config keys (withLosses x y batch) = rejectedTotal config keys batch := by
  unfold rejectedTotal
  rw [rejectedLossCells_withLosses, List.map_map]
  rfl

theorem hasEffective_withLosses (x y : ℚ) (batch : List LossSample) :
    hasEffective keys (withLosses x y batch) = hasEffective keys batch := by
  unfold hasEffective
  rw [responseCells_withLosses, List.any_map]
  rfl

theorem hasRejectedStream_withLosses (x y : ℚ) (batch : List LossSample) :
    hasRejectedStream keys (withLosses x y batch) = hasRejectedStream keys batch := by
  unfold hasRejectedStream
  rw [rejectedLossCells_withLosses, List.any_map]
  rfl

theorem effectiveCount_withLosses (x y : ℚ) (batch : List LossSample) :
    effectiveCount keys (withLosses x y batch) = effectiveCount keys batch := by
  unfold effectiveCount
  rw [responseCells_withLosses, List.countP_map]
  rfl

theorem flatten_map_withLosses (x y : ℚ) (micros : List (List LossSample)) :
    (micros.map (withLosses x y)).flatten = withLosses x y micros.flatten := by
  unfold withLosses
  rw [List.map_flatten]

theorem masks_flatten {micros micros' : List (List LossSample)}
    (hmasks : micros'.map masks = micros.map masks) :
    masks micros'.flatten = masks micros.flatten := by
  rw [masks, ← flatten_map_withLosses, masks, ← flatten_map_withLosses]
  exact congrArg List.flatten hmasks

/-- The condition is about the masks. -/
theorem lossInvariant_masks (micros : List (List LossSample)) :
    LossInvariant config keys (micros.map masks) ↔ LossInvariant config keys micros := by
  have hflat : (micros.map masks).flatten = masks micros.flatten :=
    flatten_map_withLosses 0 0 micros
  unfold LossInvariant
  rw [hflat]
  simp only [List.forall_mem_map, masks, hasEffective_withLosses, hasRejectedStream_withLosses,
    effectiveCount_withLosses]

/-! ## Sums over a partition -/

theorem addsUp_numTokens : AddsUp numTokens := (addsUp_sum _).flatMap _

theorem addsUp_responseTotal : AddsUp (responseTotal config keys) := (addsUp_sum _).flatMap _

theorem addsUp_rejectedTotal : AddsUp (rejectedTotal config keys) := (addsUp_sum _).flatMap _

theorem addsUp_responseSum : AddsUp (responseSum config keys) := (addsUp_sum _).flatMap _

theorem addsUp_rejectedSum : AddsUp (rejectedSum config keys) := (addsUp_sum _).flatMap _

theorem addsUp_effectiveCount : AddsUp (effectiveCount keys) := by
  refine AddsUp.flatMap ⟨rfl, fun xs ys => List.countP_append, fun h => h.countP_eq _⟩ _

theorem hasEffective_eq (batch : List LossSample) :
    hasEffective keys batch = true ↔ 0 < effectiveCount keys batch := by
  simp [hasEffective, effectiveCount, List.countP_pos_iff]

theorem hasRejectedStream_perm {batch batch' : List LossSample} (hperm : batch.Perm batch') :
    hasRejectedStream keys batch = hasRejectedStream keys batch' := by
  unfold hasRejectedStream rejectedLossCells
  rw [(hperm.flatMap_right LossSample.rejected).any_eq]

theorem hasRejectedStream_of_masks {batch batch' : List LossSample}
    (hmasks : masks batch = masks batch') :
    hasRejectedStream keys batch = hasRejectedStream keys batch' := by
  rw [← hasRejectedStream_withLosses 0 0 batch, ← hasRejectedStream_withLosses 0 0 batch']
  exact congrArg (hasRejectedStream keys) hmasks

section Accepted

variable {stream : Bool} (h : config.Accepted keys stream)

include h

theorem responseTotal_nonneg (batch : List LossSample) : 0 ≤ responseTotal config keys batch :=
  List.sum_nonneg fun x hx => by
    obtain ⟨cell, -, rfl⟩ := List.mem_map.mp hx
    exact LossConfig.cellWeight_nonneg h.responseDecay_pos _ _

theorem responseTotal_pos_iff (batch : List LossSample) :
    0 < responseTotal config keys batch ↔ hasEffective keys batch = true := by
  refine sum_pos_iff_any (fun cell => LossConfig.cellWeight_nonneg h.responseDecay_pos _ _)
    (fun cell => ?_) _
  cases cell.effective keys with
  | true => simp [LossConfig.cellWeight_pos h.responseDecay_pos]
  | false => simp [LossConfig.cellWeight]

/-- A micro-batch has the weight of the mini-batch when it has all its positions. -/
theorem responseTotal_eq_iff {micros : List (List LossSample)} {m : List LossSample}
    (hm : m ∈ micros) :
    responseTotal config keys m = responseTotal config keys micros.flatten ↔
      effectiveCount keys m = effectiveCount keys micros.flatten := by
  obtain ⟨rest, hperm⟩ := exists_rest hm
  rw [← addsUp_responseTotal.perm hperm, ← addsUp_effectiveCount.perm hperm,
    addsUp_responseTotal.append, addsUp_effectiveCount.append]
  have hpos : 0 < responseTotal config keys rest ↔ 0 < effectiveCount keys rest :=
    (responseTotal_pos_iff h rest).trans (hasEffective_eq rest)
  have hnonneg : 0 ≤ responseTotal config keys rest := responseTotal_nonneg h rest
  constructor
  · intro heq
    have hzero : ¬0 < responseTotal config keys rest := by linarith
    rw [hpos] at hzero
    omega
  · intro heq
    have hzero : ¬0 < effectiveCount keys rest := by omega
    rw [← hpos] at hzero
    linarith

theorem responseTotal_le {micros : List (List LossSample)} {m : List LossSample}
    (hm : m ∈ micros) :
    responseTotal config keys m ≤ responseTotal config keys micros.flatten := by
  obtain ⟨rest, hperm⟩ := exists_rest hm
  rw [← addsUp_responseTotal.perm hperm, addsUp_responseTotal.append]
  have hnonneg : 0 ≤ responseTotal config keys rest := responseTotal_nonneg h rest
  linarith

end Accepted

theorem rejectedTotal_pos {stream : Bool} (h : config.Accepted keys stream)
    (hstream : stream = true) {batch : List LossSample} (hr : hasRejectedStream keys batch = true) :
    0 < rejectedTotal config keys batch := by
  subst hstream
  refine (sum_pos_iff_any (p := RejectedLossCell.mask)
    (fun cell => LossConfig.cellWeight_nonneg h.rejectedDecay_pos _ _)
    (fun cell => ?_) _).mpr (Bool.and_eq_true_iff.mp hr).2
  cases cell.mask with
  | true => simp [LossConfig.cellWeight_pos h.rejectedDecay_pos]
  | false => simp [LossConfig.cellWeight]

theorem hasRejectedStream_flatten {micros : List (List LossSample)} {m : List LossSample}
    (hm : m ∈ micros) (hr : hasRejectedStream keys m = true) :
    hasRejectedStream keys micros.flatten = true := by
  obtain ⟨hkey, hany⟩ := Bool.and_eq_true_iff.mp hr
  obtain ⟨cell, hcell, hmask⟩ := List.any_eq_true.mp hany
  obtain ⟨s, hs, hcell⟩ := List.mem_flatMap.mp hcell
  refine Bool.and_eq_true_iff.mpr ⟨hkey, List.any_eq_true.mpr ⟨cell, ?_, hmask⟩⟩
  exact List.mem_flatMap.mpr ⟨s, List.mem_flatten.mpr ⟨m, hm, hs⟩, hcell⟩

theorem hasEffective_flatten {micros : List (List LossSample)} {m : List LossSample}
    (hm : m ∈ micros) (he : hasEffective keys m = true) :
    hasEffective keys micros.flatten = true := by
  obtain ⟨cell, hcell, hmask⟩ := List.any_eq_true.mp he
  obtain ⟨s, hs, hcell⟩ := List.mem_flatMap.mp hcell
  refine List.any_eq_true.mpr ⟨cell, ?_, hmask⟩
  exact List.mem_flatMap.mpr ⟨s, List.mem_flatten.mpr ⟨m, hm, hs⟩, hcell⟩

theorem numTokens_pos {batch : List LossSample} (he : hasEffective keys batch = true) :
    0 < numTokens batch := by
  refine (sum_pos_iff_any (p := ResponseCell.responseMask) (fun cell => ?_)
    (fun cell => ?_) _).mpr ?_
  · cases cell.responseMask <;> simp [maskValue]
  · cases cell.responseMask <;> simp [maskValue]
  · obtain ⟨cell, hcell, hmask⟩ := List.any_eq_true.mp he
    exact List.any_eq_true.mpr ⟨cell, hcell, (Bool.and_eq_true_iff.mp hmask).1⟩

/-! ## The coefficients of the micro-batches -/

theorem recip_pos {x : ℚ} (h : 0 < x) : 0 < recip x := by
  rw [recip, if_neg (not_le.mpr h)]
  exact one_div_pos.mpr h

theorem eq_of_recip_eq {x y : ℚ} (hx : 0 < x) (h : recip x = recip y) : x = y := by
  have hpos := recip_pos hx
  unfold recip at h hpos
  by_cases hy : y ≤ 0
  · rw [if_pos hy] at h
    rw [h] at hpos
    exact absurd hpos (lt_irrefl _)
  · rw [if_neg (not_le.mpr hx), if_neg hy] at h
    exact inv_injective (by rw [← one_div, ← one_div, h])

theorem mul_recip_mul {a : ℚ} (ha : 0 < a) (x : ℚ) : a * recip (a * x) = recip x := by
  unfold recip
  by_cases hx : x ≤ 0
  · rw [if_pos hx, if_pos (mul_nonpos_of_nonneg_of_nonpos ha.le hx), mul_zero]
  · have hx' := not_le.mp hx
    rw [if_neg hx, if_neg (not_le.mpr (mul_pos ha hx')), mul_one_div, div_mul_cancel_left₀ ha.ne',
      one_div]

section Coeff

variable {stream : Bool} (h : config.Accepted keys stream) {micros : List (List LossSample)}
  {m : List LossSample} (hm : m ∈ micros)

include h hm

/-- Under the condition a micro-batch uses the coefficients of the mini-batch. -/
theorem coeff_of_lossInvariant (hinv : LossInvariant config keys micros) :
    (hasEffective keys m = true → responseCoeff config keys micros.flatten m =
      responseCoeff config keys micros.flatten micros.flatten) ∧
    (hasRejectedStream keys m = true → rejectedCoeff config keys micros.flatten m =
      rejectedCoeff config keys micros.flatten micros.flatten) := by
  unfold LossInvariant at hinv
  unfold responseCoeff rejectedCoeff combinedDenom responseCount
  cases hdecay : config.responseDecay keys with
  | true =>
    rw [hdecay, if_pos rfl] at hinv
    obtain ⟨hresponse, hrejected⟩ := hinv
    cases hr : hasRejectedStream keys m with
    | true =>
      rw [hasRejectedStream_flatten hm hr]
      simp only [if_true]
      rcases hrejected m hm hr with hzero | hall | ⟨hzero, hnone⟩
      · rw [hzero]
        simp
      · rw [(responseTotal_eq_iff h hm).mpr hall]
        exact ⟨fun _ => rfl, fun _ => rfl⟩
      · rw [hnone, hzero]
        simp
    | false =>
      refine ⟨fun he => ?_, fun hfalse => by simp at hfalse⟩
      obtain ⟨hwhole, hall⟩ := hresponse m hm he hr
      rw [(responseTotal_eq_iff h hm).mpr hall]
      rcases hwhole with hwhole | ⟨hzero, hpos⟩
      · rw [hwhole]
      · cases hasRejectedStream keys micros.flatten with
        | false => rfl
        | true => simp only [if_true, Bool.false_eq_true, if_false, hzero, zero_mul, add_zero,
            mul_recip_mul hpos]
  | false =>
    rw [hdecay, if_neg Bool.false_ne_true] at hinv
    simp only [Bool.false_eq_true, if_false]
    cases hr : hasRejectedStream keys m with
    | true =>
      rw [hasRejectedStream_flatten hm hr]
      exact ⟨fun _ => rfl, fun _ => rfl⟩
    | false =>
      refine ⟨fun he => ?_, fun hfalse => by simp at hfalse⟩
      rcases hinv with hwhole | hall | ⟨hzero, hpos⟩
      · rw [hwhole]
      · rw [hall m hm he] at hr
        cases hr
      · cases hasRejectedStream keys micros.flatten with
        | false => rfl
        | true => simp only [if_true, Bool.false_eq_true, if_false, hzero, zero_mul, add_zero,
            mul_recip_mul hpos]

end Coeff

/-- The denominators of the response branch and the two-stream branch agree only when the
rejected stream has no weight. -/
theorem weights_of_recip_eq {a b w c v : ℚ} (ha : 0 ≤ a) (hb : 0 ≤ b) (hv : 0 < v) (hw : 0 < w)
    (hle : w ≤ c) (heq : recip w = a * recip (a * c + b * v)) : b = 0 ∧ 0 < a ∧ w = c := by
  have hpos : 0 < a * recip (a * c + b * v) := heq ▸ recip_pos hw
  have hapos : 0 < a := lt_of_le_of_ne ha fun hzero => by
    rw [← hzero, zero_mul] at hpos
    exact lt_irrefl _ hpos
  have hdenom : a * c + b * v = a * w := by
    rw [← mul_recip_mul hapos w] at heq
    exact (eq_of_recip_eq (mul_pos hapos hw) (mul_left_cancel₀ hapos.ne' heq)).symm
  have hac : a * w ≤ a * c := mul_le_mul_of_nonneg_left hle ha
  have hbv : 0 ≤ b * v := mul_nonneg hb hv.le
  have hbzero : b * v = 0 := by linarith
  have hb0 : b = 0 := (mul_eq_zero.mp hbzero).resolve_right hv.ne'
  refine ⟨hb0, hapos, mul_left_cancel₀ hapos.ne' ?_⟩
  linarith

/-- With non-negative weights the coefficients agree only under the condition. -/
theorem lossInvariant_of_coeff {micros : List (List LossSample)}
    (h : config.Accepted keys (hasRejectedStream keys micros.flatten))
    (hresponse : 0 ≤ config.responseStreamWeight)
    (hrejected : 0 ≤ config.rejectedDraftStreamWeight)
    (hcoeff : ∀ m ∈ micros,
      (hasEffective keys m = true → responseCoeff config keys micros.flatten m =
        responseCoeff config keys micros.flatten micros.flatten) ∧
      (hasRejectedStream keys m = true → rejectedCoeff config keys micros.flatten m =
        rejectedCoeff config keys micros.flatten micros.flatten)) :
    LossInvariant config keys micros := by
  unfold LossInvariant
  unfold responseCoeff rejectedCoeff combinedDenom responseCount at hcoeff
  cases hdecay : config.responseDecay keys with
  | true =>
    simp only [hdecay, if_true] at hcoeff ⊢
    refine ⟨fun m hm he hr => ?_, fun m hm hr => ?_⟩
    · have hw := (responseTotal_pos_iff h m).mpr he
      have hle : responseTotal config keys m ≤ responseTotal config keys micros.flatten :=
        responseTotal_le h hm
      have heq := (hcoeff m hm).1 he
      rw [hr, if_neg Bool.false_ne_true] at heq
      cases hR : hasRejectedStream keys micros.flatten with
      | false =>
        rw [hR, if_neg Bool.false_ne_true] at heq
        exact ⟨Or.inl rfl, (responseTotal_eq_iff h hm).mp (eq_of_recip_eq hw heq)⟩
      | true =>
        rw [hR, if_pos rfl] at heq
        obtain ⟨hzero, hpos, hall⟩ := weights_of_recip_eq hresponse hrejected
          (rejectedTotal_pos h hR hR) hw hle heq
        exact ⟨Or.inr ⟨hzero, hpos⟩, (responseTotal_eq_iff h hm).mp hall⟩
    · by_contra hcon
      obtain ⟨hα, hcount, hrest⟩ : config.responseStreamWeight ≠ 0 ∧
          effectiveCount keys m ≠ effectiveCount keys micros.flatten ∧
          ¬(config.rejectedDraftStreamWeight = 0 ∧ hasEffective keys m = false) := by
        simpa only [not_or, ne_eq] using hcon
      have hα' := lt_of_le_of_ne hresponse hα.symm
      obtain ⟨hcR, hcJ⟩ := hcoeff m hm
      rw [hr, hasRejectedStream_flatten hm hr, if_pos rfl, if_pos rfl] at hcR
      rw [hr, hasRejectedStream_flatten hm hr, if_pos rfl, if_pos rfl] at hcJ
      have hstream := hasRejectedStream_flatten hm hr
      have hV := rejectedTotal_pos h hstream hstream
      have hlt : responseTotal config keys m < responseTotal config keys micros.flatten :=
        lt_of_le_of_ne (responseTotal_le h hm) fun heq =>
          hcount ((responseTotal_eq_iff h hm).mp heq)
      have hW : 0 ≤ responseTotal config keys m := responseTotal_nonneg h m
      have hαW := mul_lt_mul_of_pos_left hlt hα'
      have hβV := mul_nonneg hrejected hV.le
      -- the denominators differ, so neither stream may have a part in the micro-batch
      cases he : hasEffective keys m with
      | true =>
        have hpos := mul_pos hα' ((responseTotal_pos_iff h m).mpr he)
        have heq := eq_of_recip_eq (by linarith) (mul_left_cancel₀ hα (hcR he))
        linarith
      | false =>
        have hβ : config.rejectedDraftStreamWeight ≠ 0 := fun hzero => hrest ⟨hzero, he⟩
        have hpos := mul_pos (lt_of_le_of_ne hrejected hβ.symm) hV
        have hαW' := mul_nonneg hα'.le hW
        have heq := eq_of_recip_eq (by linarith) (mul_left_cancel₀ hβ (hcJ rfl))
        linarith
  | false =>
    simp only [hdecay, Bool.false_eq_true, if_false] at hcoeff ⊢
    by_contra hcon
    obtain ⟨hR, hall, hrest⟩ : ¬hasRejectedStream keys micros.flatten = false ∧
        (¬∀ m ∈ micros, hasEffective keys m = true → hasRejectedStream keys m = true) ∧
        ¬(config.rejectedDraftStreamWeight = 0 ∧ 0 < config.responseStreamWeight) := by
      simpa only [not_or] using hcon
    push Not at hall
    obtain ⟨m, hm, he, hr⟩ := hall
    have heq := (hcoeff m hm).1 he
    rw [Bool.not_eq_false] at hR
    rw [if_neg hr, if_pos hR] at heq
    obtain ⟨hzero, hpos, -⟩ := weights_of_recip_eq hresponse hrejected
      (rejectedTotal_pos h hR hR) (numTokens_pos (hasEffective_flatten hm he)) le_rfl heq
    exact hrest ⟨hzero, hpos⟩

/-! ## The loss over a partition -/

theorem coeff_perm {whole whole' batch batch' : List LossSample} (hwhole : whole.Perm whole')
    (hbatch : batch.Perm batch') :
    responseCoeff config keys whole batch = responseCoeff config keys whole' batch' ∧
      rejectedCoeff config keys whole batch = rejectedCoeff config keys whole' batch' := by
  unfold responseCoeff rejectedCoeff combinedDenom responseCount
  rw [hasRejectedStream_perm hbatch, addsUp_responseTotal.perm hbatch, addsUp_numTokens.perm hwhole,
    addsUp_rejectedTotal.perm hwhole]
  exact ⟨rfl, rfl⟩

theorem rejectedSum_eq_zero {batch : List LossSample} (hkey : keys.opdRejectedDraftLossMask = true)
    (hr : hasRejectedStream keys batch = false) : rejectedSum config keys batch = 0 := by
  rw [hasRejectedStream, hkey, Bool.true_and] at hr
  refine List.sum_eq_zero fun x hx => ?_
  obtain ⟨cell, hcell, rfl⟩ := List.mem_map.mp hx
  have hmask : cell.mask = false := by simpa using List.any_eq_false.mp hr cell hcell
  simp [LossConfig.rejectedWeight, LossConfig.cellWeight, hmask]

/-- The loss of a part of the mini-batch, with the coefficients of the part. -/
def partLoss (config : LossConfig) (keys : OutputKeys) (whole batch : List LossSample) : ℚ :=
  responseCoeff config keys whole batch * responseSum config keys batch +
    rejectedCoeff config keys whole batch * rejectedSum config keys batch

/-- The sum of the micro-batches in terms of the coefficients. -/
theorem microBatch_sum_iff {micros : List (List LossSample)}
    (h : config.Accepted keys (hasRejectedStream keys micros.flatten))
    {batch : List LossSample} (hperm : micros.flatten.Perm batch) :
    (micros.mapM (distillationLoss config keys (globalBatchInfo config keys batch))).map List.sum =
        distillationLoss config keys (globalBatchInfo config keys batch) batch ↔
      (micros.map (partLoss config keys micros.flatten)).sum =
        partLoss config keys micros.flatten micros.flatten := by
  have htokens : ∀ m ∈ micros, hasEffective keys m = true → 0 < numTokens batch := by
    intro m hm he
    rw [← addsUp_numTokens.perm hperm]
    exact numTokens_pos (hasEffective_flatten hm he)
  have hmicros : micros.mapM (distillationLoss config keys (globalBatchInfo config keys batch)) =
      .ok (micros.map (partLoss config keys micros.flatten)) := by
    refine mapM_eq_ok fun m hm => ?_
    rw [distillationLoss_eq batch m (h.mono (hasRejectedStream_flatten hm)) (htokens m hm),
      partLoss, (coeff_perm hperm (List.Perm.refl m)).1, (coeff_perm hperm (List.Perm.refl m)).2]
  have hbatch : distillationLoss config keys (globalBatchInfo config keys batch) batch =
      .ok (partLoss config keys micros.flatten micros.flatten) := by
    rw [distillationLoss_eq batch batch (hasRejectedStream_perm hperm ▸ h) numTokens_pos, partLoss,
      (coeff_perm hperm hperm).1, (coeff_perm hperm hperm).2, addsUp_responseSum.perm hperm,
      addsUp_rejectedSum.perm hperm]
  rw [hmicros, hbatch]
  exact ⟨fun heq => Except.ok.inj heq, fun heq => congrArg Except.ok heq⟩

/-- Parts that use the coefficients of the whole add up to it. -/
theorem sum_partLoss {micros : List (List LossSample)}
    (hcoeff : ∀ m ∈ micros,
      (hasEffective keys m = true → responseCoeff config keys micros.flatten m =
        responseCoeff config keys micros.flatten micros.flatten) ∧
      (hasRejectedStream keys m = true → rejectedCoeff config keys micros.flatten m =
        rejectedCoeff config keys micros.flatten micros.flatten)) :
    (micros.map (partLoss config keys micros.flatten)).sum =
      partLoss config keys micros.flatten micros.flatten := by
  have hpart : ∀ m ∈ micros, partLoss config keys micros.flatten m =
      responseCoeff config keys micros.flatten micros.flatten * responseSum config keys m +
        rejectedCoeff config keys micros.flatten micros.flatten * rejectedSum config keys m := by
    intro m hm
    obtain ⟨hresponse, hrejected⟩ := hcoeff m hm
    rw [partLoss]
    congr 1
    · cases he : hasEffective keys m with
      | true => rw [hresponse he]
      | false => rw [responseSum_of_not_effective he, mul_zero, mul_zero]
    · cases hr : hasRejectedStream keys m with
      | true => rw [hrejected hr]
      | false =>
        rw [rejectedCoeff, hr, if_neg Bool.false_ne_true, zero_mul]
        cases hkey : keys.opdRejectedDraftLossMask with
        | true => rw [rejectedSum_eq_zero hkey hr, mul_zero]
        | false => rw [rejectedCoeff, hasRejectedStream, hkey, Bool.false_and,
            if_neg Bool.false_ne_true, zero_mul]
  rw [List.map_congr_left hpart, List.sum_map_add, List.sum_map_mul_left, List.sum_map_mul_left,
    ← addsUp_responseSum.flatten, ← addsUp_rejectedSum.flatten]
  rfl

/-! ## Losses that tell the coefficients apart -/

theorem masks_withLosses (x y : ℚ) (batch : List LossSample) :
    masks (withLosses x y batch) = masks batch := by
  simp [masks, withLosses, LossSample.withLosses, Function.comp_def]

theorem coeff_masks (whole batch : List LossSample) :
    responseCoeff config keys (masks whole) (masks batch) = responseCoeff config keys whole batch ∧
      rejectedCoeff config keys (masks whole) (masks batch) =
        rejectedCoeff config keys whole batch := by
  unfold responseCoeff rejectedCoeff combinedDenom responseCount masks
  rw [hasRejectedStream_withLosses, responseTotal_withLosses, numTokens_withLosses,
    rejectedTotal_withLosses]
  exact ⟨rfl, rfl⟩

theorem responseSum_withLosses (x y : ℚ) (batch : List LossSample) :
    responseSum config keys (withLosses x y batch) =
      config.clampLoss x * responseTotal config keys batch := by
  unfold responseSum responseTotal
  rw [responseCells_withLosses, List.map_map, ← List.sum_map_mul_left]
  rfl

theorem rejectedSum_withLosses (x y : ℚ) (batch : List LossSample) :
    rejectedSum config keys (withLosses x y batch) =
      config.clampLoss y * rejectedTotal config keys batch := by
  unfold rejectedSum rejectedTotal
  rw [rejectedLossCells_withLosses, List.map_map, ← List.sum_map_mul_left]
  rfl

theorem clampLoss_zero (hclamp : ∀ c ∈ config.lossMaxClamp, 0 < c) : config.clampLoss 0 = 0 := by
  unfold LossConfig.clampLoss
  cases hc : config.lossMaxClamp with
  | none => rfl
  | some c =>
    have hpos := hclamp c hc
    simp only [Option.elim_some]
    rw [max_eq_left (by linarith), min_eq_left hpos.le]

theorem exists_clampLoss_pos (hclamp : ∀ c ∈ config.lossMaxClamp, 0 < c) :
    ∃ x, 0 < config.clampLoss x := by
  unfold LossConfig.clampLoss
  cases hc : config.lossMaxClamp with
  | none => exact ⟨1, one_pos⟩
  | some c =>
    have hpos := hclamp c hc
    refine ⟨c, ?_⟩
    simp only [Option.elim_some]
    rw [max_eq_left (by linarith), min_self]
    exact hpos

/-- The micro-batches with losses in one of them alone. -/
def lossesInOne (front : List (List LossSample)) (m : List LossSample)
    (back : List (List LossSample)) (x y : ℚ) : List (List LossSample) :=
  front.map masks ++ withLosses x y m :: back.map masks

theorem map_masks_lossesInOne (front : List (List LossSample)) (m : List LossSample)
    (back : List (List LossSample)) (x y : ℚ) :
    (lossesInOne front m back x y).map masks = (front ++ m :: back).map masks := by
  have hmasks : masks ∘ masks = masks := funext fun b => masks_withLosses 0 0 b
  rw [lossesInOne, List.map_append, List.map_cons, List.map_map, List.map_map, hmasks,
    masks_withLosses, List.map_append, List.map_cons]

/-- The whole has the losses of the one micro-batch. -/
theorem sums_lossesInOne (keys : OutputKeys) (hclamp : ∀ c ∈ config.lossMaxClamp, 0 < c)
    (front : List (List LossSample)) (m : List LossSample) (back : List (List LossSample))
    (x y : ℚ) (f : List LossSample → ℚ → ℚ → ℚ) (hf : ∀ b, f b 0 0 = 0) :
    ((lossesInOne front m back x y).map fun b =>
        f b (responseSum config keys b) (rejectedSum config keys b)).sum =
      f (withLosses x y m) (config.clampLoss x * responseTotal config keys m)
        (config.clampLoss y * rejectedTotal config keys m) := by
  have hnone : ∀ bs : List (List LossSample), ((bs.map masks).map fun b =>
      f b (responseSum config keys b) (rejectedSum config keys b)).sum = 0 := by
    intro bs
    refine List.sum_eq_zero fun v hv => ?_
    obtain ⟨b, hb, rfl⟩ := List.mem_map.mp hv
    obtain ⟨b', -, rfl⟩ := List.mem_map.mp hb
    simp only [masks, responseSum_withLosses, rejectedSum_withLosses, clampLoss_zero hclamp,
      zero_mul, hf]
  rw [lossesInOne, List.map_append, List.map_cons, List.sum_append, List.sum_cons, hnone, hnone,
    zero_add, add_zero, responseSum_withLosses, rejectedSum_withLosses]

/-- Losses in one micro-batch alone compare its coefficients with those of the whole. -/
theorem MicroBatchInvariant.part {micros : List (List LossSample)}
    (hinv : MicroBatchInvariant config keys micros)
    (h : config.Accepted keys (hasRejectedStream keys micros.flatten))
    (hclamp : ∀ c ∈ config.lossMaxClamp, 0 < c) {m : List LossSample} (hm : m ∈ micros) (x y : ℚ) :
    responseCoeff config keys micros.flatten m *
        (config.clampLoss x * responseTotal config keys m) +
      rejectedCoeff config keys micros.flatten m *
        (config.clampLoss y * rejectedTotal config keys m) =
    responseCoeff config keys micros.flatten micros.flatten *
        (config.clampLoss x * responseTotal config keys m) +
      rejectedCoeff config keys micros.flatten micros.flatten *
        (config.clampLoss y * rejectedTotal config keys m) := by
  obtain ⟨front, back, rfl⟩ := List.append_of_mem hm
  have hmasks := map_masks_lossesInOne front m back x y
  have hflat := masks_flatten hmasks
  have hcoeff : ∀ b b' : List LossSample, masks b = masks b' →
      responseCoeff config keys (lossesInOne front m back x y).flatten b =
          responseCoeff config keys (front ++ m :: back).flatten b' ∧
        rejectedCoeff config keys (lossesInOne front m back x y).flatten b =
          rejectedCoeff config keys (front ++ m :: back).flatten b' := by
    intro b b' hb
    rw [← (coeff_masks _ b).1, ← (coeff_masks _ b).2, hflat, hb]
    exact coeff_masks _ _
  rw [← hasRejectedStream_of_masks hflat] at h
  have hsum := (microBatch_sum_iff h (List.Perm.refl _)).mp (hinv _ _ hmasks (List.Perm.refl _))
  have hparts := sums_lossesInOne keys hclamp front m back x y (fun b s t =>
    responseCoeff config keys (lossesInOne front m back x y).flatten b * s +
      rejectedCoeff config keys (lossesInOne front m back x y).flatten b * t)
    fun b => by rw [mul_zero, mul_zero, add_zero]
  have hresponse := sums_lossesInOne keys hclamp front m back x y (fun _ s _ => s)
    fun _ => rfl
  have hrejected := sums_lossesInOne keys hclamp front m back x y (fun _ _ t => t)
    fun _ => rfl
  rw [partLoss, addsUp_responseSum.flatten, addsUp_rejectedSum.flatten, hresponse, hrejected,
    (hcoeff _ _ hflat).1, (hcoeff _ _ hflat).2] at hsum
  rw [(hcoeff _ _ (masks_withLosses x y m)).1, (hcoeff _ _ (masks_withLosses x y m)).2] at hparts
  exact hparts.symm.trans hsum

/-- The micro-batches add up to the mini-batch when the branches of the loss agree on them,
and with non-negative stream weights only then. -/
theorem microBatchInvariant_iff (micros : List (List LossSample))
    (h : config.Accepted keys (hasRejectedStream keys micros.flatten)) :
    (LossInvariant config keys micros → MicroBatchInvariant config keys micros) ∧
      (0 ≤ config.responseStreamWeight → 0 ≤ config.rejectedDraftStreamWeight →
        (∀ c ∈ config.lossMaxClamp, 0 < c) → MicroBatchInvariant config keys micros →
        LossInvariant config keys micros) := by
  constructor
  · intro hinv micros' batch hmasks hperm
    rw [← lossInvariant_masks, ← hmasks, lossInvariant_masks] at hinv
    rw [← hasRejectedStream_of_masks (masks_flatten hmasks)] at h
    exact (microBatch_sum_iff h hperm).mpr
      (sum_partLoss fun m hm => coeff_of_lossInvariant h hm hinv)
  · intro hresponse hrejected hclamp hinv
    refine lossInvariant_of_coeff h hresponse hrejected fun m hm => ?_
    have hzero := clampLoss_zero hclamp
    obtain ⟨x, hx⟩ := exists_clampLoss_pos hclamp
    refine ⟨fun he => ?_, fun hr => ?_⟩
    · have heq := hinv.part h hclamp hm x 0
      rw [hzero, zero_mul, mul_zero, mul_zero, add_zero, add_zero] at heq
      exact mul_right_cancel₀ (mul_pos hx ((responseTotal_pos_iff h m).mpr he)).ne' heq
    · have heq := hinv.part h hclamp hm 0 x
      rw [hzero, zero_mul, mul_zero, mul_zero, zero_add, zero_add] at heq
      have hstream := hasRejectedStream_flatten hm hr
      exact mul_right_cancel₀ (mul_pos hx (rejectedTotal_pos h hstream hr)).ne' heq

/-- A sample with one response token. -/
def responseSample (loss : ℚ) : LossSample := ⟨[⟨loss, true, true, 1⟩], []⟩

/-- A sample with one response token and one rejected draft. -/
def rejectedSample (loss : ℚ) : LossSample := ⟨[⟨loss, true, true, 1⟩], [⟨loss, true, 1⟩]⟩

theorem accepted_default (keys : OutputKeys) (stream : Bool) :
    ({} : LossConfig).Accepted keys stream :=
  ⟨fun _ => rfl, fun _ => by norm_num, fun _ _ _ => by norm_num⟩

/-- Micro-batches that all have a rejected draft. -/
theorem microBatchInvariant_rejectedSample :
    MicroBatchInvariant {} {} [[rejectedSample 1], [rejectedSample 2]] := by
  refine (microBatchInvariant_iff _ (accepted_default _ _)).1 ?_
  refine Or.inr (Or.inl fun m hm _ => ?_)
  rcases List.mem_cons.mp hm with rfl | hm
  · rfl
  · rw [List.mem_singleton.mp hm]
    rfl

/-- A micro-batch without a rejected draft beside one with : the first divides its loss by
the two response tokens, the mini-batch divides it by three. -/
theorem not_microBatchInvariant_mixed :
    ¬MicroBatchInvariant {} {} [[responseSample 1], [rejectedSample 0]] := by
  intro hinv
  have heq := hinv [[responseSample 1], [rejectedSample 0]] _ rfl (List.Perm.refl _)
  have hsum := (microBatch_sum_iff (accepted_default _ _) (List.Perm.refl _)).mp heq
  norm_num [partLoss, responseCoeff, rejectedCoeff, combinedDenom, hasRejectedStream, recip,
    responseCount, numTokens, responseTotal, rejectedTotal, responseSum, rejectedSum, responseCells,
    rejectedLossCells, responseSample, rejectedSample, LossConfig.responseDecay,
    LossConfig.rejectedDecay, LossConfig.responseWeight, LossConfig.rejectedWeight,
    LossConfig.cellWeight, LossConfig.clampLoss, ResponseCell.effective, maskValue,
    positionWeight] at hsum

end DraftOpd
