import DraftOpd.RejectedDraft
import DraftOpd.StopFold

/-!
# The distillation loss

`distillation_loss` on a micro-batch, with the per-token losses as given numbers. It has
four branches, chosen by what the micro-batch holds : nothing to train on, response tokens
alone with or without position decay, and response tokens together with rejected drafts.

`distillationLoss_eq` brings the branches to one form : a coefficient for the weighted sum
of the response losses and one for that of the rejected losses, both computed from the
masks alone. It holds for the settings that the loss does not refuse (`accepted_iff`).
-/

namespace DraftOpd

/-- The loss modes : the sampled estimators, or the teacher's top-k. -/
inductive LossMode where
  | sampled
  | forwardKlTopk
  deriving DecidableEq

/-- The fields of `DistillationLossConfig` the loss reads. -/
structure LossConfig where
  lossMode : LossMode := .sampled
  lossMaxClamp : Option ℚ := some 10
  responseStreamWeight : ℚ := 1
  rejectedDraftStreamWeight : ℚ := 1
  rejectedDraftPositionDecayEnabled : Bool := true
  rejectedDraftPositionDecay : ℚ := 9 / 10
  acceptDraftPositionDecayEnabled : Bool := false
  rejectedDraftFirstTokenOnly : Bool := false

/-- The optional keys of `model_output`. -/
structure OutputKeys where
  opdLossMask : Bool := true
  opdResponseOffsets : Bool := true
  opdRejectedDraftLossMask : Bool := true
  opdRejectedDraftOffsets : Bool := true

/-- `global_batch_info`, with one data-parallel rank. -/
structure BatchInfo where
  batchNumTokens : Option ℚ
  rejectedDraftBatchNumTokens : Option ℚ
  rejectedDraftBatchEffectiveNumTokens : Option ℚ

/-- What the loss raises. -/
inductive LossError where
  | topkRejectedDraft
  | decayRange (decay : ℚ)

/-- A response position. -/
structure ResponseCell where
  loss : ℚ
  responseMask : Bool
  opdLossMask : Bool
  offset : ℤ

/-- A position of the rejected-draft stream. -/
structure RejectedLossCell where
  loss : ℚ
  mask : Bool
  offset : ℤ

/-- A sample of the batch. -/
structure LossSample where
  response : List ResponseCell
  rejected : List RejectedLossCell

/-- `mask.to(dtype=torch.float32)`. -/
def maskValue (mask : Bool) : ℚ := if mask then 1 else 0

/-- `clamp(min=-loss_max_clamp, max=loss_max_clamp)`. -/
def LossConfig.clampLoss (config : LossConfig) (loss : ℚ) : ℚ :=
  config.lossMaxClamp.elim loss fun c => min (max loss (-c)) c

/-- `get_effective_distillation_response_mask` (`losses.py:126-138`). -/
def ResponseCell.effective (keys : OutputKeys) (cell : ResponseCell) : Bool :=
  cell.responseMask && (!keys.opdLossMask || cell.opdLossMask)

/-! ## Position weights -/

/-- `_build_rejected_draft_position_weights` (`losses.py:532-561`) on the mask and the
offsets of the stream. -/
def buildRejectedDraftPositionWeights (config : LossConfig) (hasOffsets : Bool)
    (cells : List (Bool × ℤ)) : Except LossError (List ℚ × Bool) :=
  let masked := cells.map fun x => maskValue x.1
  let decay := config.rejectedDraftPositionDecay
  if config.rejectedDraftFirstTokenOnly then .ok (masked, false)
  else if !config.rejectedDraftPositionDecayEnabled then .ok (masked, false)
  else if decay ≤ 0 ∨ 1 < decay then .error (.decayRange decay)
  else if !hasOffsets then .ok (masked, false)
  else .ok (cells.map fun x => positionWeight decay x.2 * maskValue x.1, true)

/-- `_build_response_position_weights` (`losses.py:564-592`). -/
def buildResponsePositionWeights (config : LossConfig) (hasOffsets : Bool)
    (cells : List (Bool × ℤ)) : Except LossError (List ℚ × Bool) :=
  let masked := cells.map fun x => maskValue x.1
  let decay := config.rejectedDraftPositionDecay
  if !config.acceptDraftPositionDecayEnabled then .ok (masked, false)
  else if !hasOffsets then .ok (masked, false)
  else if decay ≤ 0 ∨ 1 < decay then .error (.decayRange decay)
  else .ok (cells.map fun x => positionWeight decay x.2 * maskValue x.1, true)

/-! ## The loss -/

/-- `(losses * weights).sum()`. -/
def weightedSum (losses weights : List ℚ) : ℚ := (List.zipWith (· * ·) losses weights).sum

/-- `agg_loss` with `token-mean` (`core_algos.py:1168-1173`). -/
def aggLoss (losses : List ℚ) (mask : List Bool) (batchNumTokens : Option ℚ) : ℚ :=
  weightedSum losses (mask.map maskValue) / batchNumTokens.getD (mask.map maskValue).sum

/-- The two-stream branch (`losses.py:852-893`). -/
def combinedLoss (config : LossConfig) (info : BatchInfo) (losses responseWeights : List ℚ)
    (mask : List Bool) (responseDecayApplied : Bool) (rejectedLosses rejectedWeights : List ℚ)
    (rejectedMask : List Bool) (rejectedDecayApplied : Bool) : ℚ :=
  let responseSum := weightedSum losses responseWeights
  let rejectedSum := weightedSum rejectedLosses rejectedWeights
  let globalResponseCount := if responseDecayApplied then responseWeights.sum
    else info.batchNumTokens.getD (mask.map maskValue).sum
  let globalRejectedCount :=
    info.rejectedDraftBatchNumTokens.getD (rejectedMask.map maskValue).sum
  let globalRejectedEffectiveCount := info.rejectedDraftBatchEffectiveNumTokens.getD
    (if rejectedDecayApplied then rejectedWeights.sum else globalRejectedCount)
  let denom := config.responseStreamWeight * globalResponseCount +
    config.rejectedDraftStreamWeight * globalRejectedEffectiveCount
  if denom ≤ 0 then 0
  else (config.responseStreamWeight * responseSum +
    config.rejectedDraftStreamWeight * rejectedSum) / denom

/-- The positions of a batch. -/
def responseCells (batch : List LossSample) : List ResponseCell := batch.flatMap LossSample.response

/-- The positions of the rejected-draft stream of a batch. -/
def rejectedLossCells (batch : List LossSample) : List RejectedLossCell :=
  batch.flatMap LossSample.rejected

/-- `get_rejected_draft_distillation_stream` is not `None` (`losses.py:235-260`). -/
def hasRejectedStream (keys : OutputKeys) (batch : List LossSample) : Bool :=
  keys.opdRejectedDraftLossMask && (rejectedLossCells batch).any RejectedLossCell.mask

/-- `distillation_loss` without policy gradient and TV loss (`losses.py:680-895`). -/
def distillationLoss (config : LossConfig) (keys : OutputKeys) (info : BatchInfo)
    (batch : List LossSample) : Except LossError ℚ := do
  let response := responseCells batch
  let rejected := rejectedLossCells batch
  let stream := hasRejectedStream keys batch
  if stream && config.lossMode == .forwardKlTopk then
    throw .topkRejectedDraft
  let losses := response.map fun cell => config.clampLoss cell.loss
  let mask := response.map (ResponseCell.effective keys)
  let (responseWeights, responseDecayApplied) ← buildResponsePositionWeights config
    keys.opdResponseOffsets (response.map fun cell => (cell.effective keys, cell.offset))
  if stream then
    let (rejectedWeights, rejectedDecayApplied) ← buildRejectedDraftPositionWeights config
      keys.opdRejectedDraftOffsets (rejected.map fun cell => (cell.mask, cell.offset))
    return combinedLoss config info losses responseWeights mask responseDecayApplied
      (rejected.map fun cell => config.clampLoss cell.loss) rejectedWeights
      (rejected.map RejectedLossCell.mask) rejectedDecayApplied
  else if !mask.any id then
    return 0
  else if responseDecayApplied then
    let denom := responseWeights.sum
    return if denom ≤ 0 then 0 else weightedSum losses responseWeights / denom
  else
    return aggLoss losses mask info.batchNumTokens

/-- What the engine computes on the whole mini-batch : `batch_num_tokens`
(`transformer_impl.py:683`) and `_compute_extra_global_batch_info`
(`transformer_impl.py:1168-1229`), over the positions the model trains on. -/
def globalBatchInfo (config : LossConfig) (keys : OutputKeys) (batch : List LossSample) :
    BatchInfo where
  batchNumTokens := some ((responseCells batch).map fun cell => maskValue cell.responseMask).sum
  rejectedDraftBatchNumTokens :=
    some ((rejectedLossCells batch).map fun cell => maskValue cell.mask).sum
  rejectedDraftBatchEffectiveNumTokens :=
    if config.rejectedDraftPositionDecayEnabled && !config.rejectedDraftFirstTokenOnly &&
        keys.opdRejectedDraftOffsets then
      some ((rejectedLossCells batch).map fun cell =>
        positionWeight config.rejectedDraftPositionDecay cell.offset * maskValue cell.mask).sum
    else none

/-! ## The weights of a position -/

namespace LossConfig

variable (config : LossConfig) (keys : OutputKeys)

/-- Whether response losses decay with their offset. -/
def responseDecay : Bool := config.acceptDraftPositionDecayEnabled && keys.opdResponseOffsets

/-- Whether rejected-draft losses decay with their offset. -/
def rejectedDecay : Bool :=
  config.rejectedDraftPositionDecayEnabled && !config.rejectedDraftFirstTokenOnly &&
    keys.opdRejectedDraftOffsets

/-- The weight of a position, by whether it counts and whether it decays. -/
def cellWeight (decays counts : Bool) (offset : ℤ) : ℚ :=
  if counts then (if decays then positionWeight config.rejectedDraftPositionDecay offset else 1)
  else 0

/-- The weight of a response position. -/
def responseWeight (cell : ResponseCell) : ℚ :=
  config.cellWeight (config.responseDecay keys) (cell.effective keys) cell.offset

/-- The weight of a rejected draft. -/
def rejectedWeight (cell : RejectedLossCell) : ℚ :=
  config.cellWeight (config.rejectedDecay keys) cell.mask cell.offset

/-- The settings `distillation_loss` does not refuse, by whether there are rejected drafts : these
are not for the teacher's top-k, and a decay is checked where it is in force. -/
structure Accepted (stream : Bool) : Prop where
  lossMode_eq : stream = true → config.lossMode = .sampled
  responseDecay_range : config.responseDecay keys = true →
    0 < config.rejectedDraftPositionDecay ∧ config.rejectedDraftPositionDecay ≤ 1
  rejectedDecay_range : stream = true → config.rejectedDraftPositionDecayEnabled = true →
    config.rejectedDraftFirstTokenOnly = false →
      0 < config.rejectedDraftPositionDecay ∧ config.rejectedDraftPositionDecay ≤ 1

variable {config keys}

theorem cellWeight_eq_mul (decays counts : Bool) (offset : ℤ) :
    config.cellWeight decays counts offset =
      (if decays then positionWeight config.rejectedDraftPositionDecay offset else 1) *
        maskValue counts := by
  cases counts <;> simp [cellWeight, maskValue]

theorem cellWeight_pos {decays : Bool} (h : decays = true → 0 < config.rejectedDraftPositionDecay)
    (offset : ℤ) : 0 < config.cellWeight decays true offset := by
  cases decays with
  | true => exact pow_pos (h rfl) _
  | false => exact one_pos

theorem cellWeight_nonneg {decays : Bool}
    (h : decays = true → 0 < config.rejectedDraftPositionDecay) (counts : Bool) (offset : ℤ) :
    0 ≤ config.cellWeight decays counts offset := by
  cases counts with
  | true => exact (cellWeight_pos h offset).le
  | false => exact le_rfl

namespace Accepted

variable {stream : Bool}

/-- What is accepted with rejected drafts is accepted without. -/
theorem mono {stream' : Bool} (h : config.Accepted keys stream)
    (hstream : stream' = true → stream = true) : config.Accepted keys stream' :=
  ⟨fun hs => h.lossMode_eq (hstream hs), h.responseDecay_range,
    fun hs => h.rejectedDecay_range (hstream hs)⟩

theorem responseDecay_pos (h : config.Accepted keys stream)
    (hdecay : config.responseDecay keys = true) : 0 < config.rejectedDraftPositionDecay :=
  (h.responseDecay_range hdecay).1

theorem rejectedDecay_pos (h : config.Accepted keys true)
    (hdecay : config.rejectedDecay keys = true) : 0 < config.rejectedDraftPositionDecay := by
  obtain ⟨hdecay, -⟩ := Bool.and_eq_true_iff.mp hdecay
  obtain ⟨henabled, hfirst⟩ := Bool.and_eq_true_iff.mp hdecay
  exact (h.rejectedDecay_range rfl henabled (by simpa using hfirst)).1

end Accepted

/-- The response weights are computed where the decay is in its range or not in force. -/
theorem buildResponsePositionWeights_eq (cells : List ResponseCell)
    (h : config.responseDecay keys = true →
      0 < config.rejectedDraftPositionDecay ∧ config.rejectedDraftPositionDecay ≤ 1) :
    buildResponsePositionWeights config keys.opdResponseOffsets
        (cells.map fun cell => (cell.effective keys, cell.offset)) =
      .ok (cells.map (config.responseWeight keys), config.responseDecay keys) := by
  have hdecay : config.responseDecay keys =
      (config.acceptDraftPositionDecayEnabled && keys.opdResponseOffsets) := rfl
  rw [hdecay] at h
  unfold buildResponsePositionWeights responseWeight
  simp only [cellWeight_eq_mul, List.map_map, Function.comp_def, hdecay]
  cases henabled : config.acceptDraftPositionDecayEnabled with
  | false => simp
  | true =>
    cases hoffsets : keys.opdResponseOffsets with
    | false => simp
    | true =>
      obtain ⟨hpos, hle⟩ := h (by rw [henabled, hoffsets]; rfl)
      simp [not_le.mpr hpos, not_lt.mpr hle]

/-- So are those of the rejected drafts, where the decay is checked without offsets too. -/
theorem buildRejectedDraftPositionWeights_eq (cells : List RejectedLossCell)
    (h : config.rejectedDraftPositionDecayEnabled = true →
      config.rejectedDraftFirstTokenOnly = false →
        0 < config.rejectedDraftPositionDecay ∧ config.rejectedDraftPositionDecay ≤ 1) :
    buildRejectedDraftPositionWeights config keys.opdRejectedDraftOffsets
        (cells.map fun cell => (cell.mask, cell.offset)) =
      .ok (cells.map (config.rejectedWeight keys), config.rejectedDecay keys) := by
  have hdecay : config.rejectedDecay keys = (config.rejectedDraftPositionDecayEnabled &&
    !config.rejectedDraftFirstTokenOnly && keys.opdRejectedDraftOffsets) := rfl
  unfold buildRejectedDraftPositionWeights rejectedWeight
  simp only [cellWeight_eq_mul, List.map_map, Function.comp_def, hdecay]
  cases hfirst : config.rejectedDraftFirstTokenOnly with
  | true => simp
  | false =>
    cases henabled : config.rejectedDraftPositionDecayEnabled with
    | false => simp
    | true =>
      obtain ⟨hpos, hle⟩ := h henabled hfirst
      cases keys.opdRejectedDraftOffsets <;> simp [not_le.mpr hpos, not_lt.mpr hle]

theorem range_of_buildResponsePositionWeights_ok {cells : List (Bool × ℤ)} {out : List ℚ × Bool}
    (hok : buildResponsePositionWeights config keys.opdResponseOffsets cells = .ok out)
    (hdecay : config.responseDecay keys = true) :
    0 < config.rejectedDraftPositionDecay ∧ config.rejectedDraftPositionDecay ≤ 1 := by
  obtain ⟨henabled, hoffsets⟩ := Bool.and_eq_true_iff.mp hdecay
  rw [buildResponsePositionWeights, henabled, hoffsets] at hok
  by_contra hrange
  rw [not_and_or, not_lt, not_le] at hrange
  simp [hrange] at hok

theorem range_of_buildRejectedDraftPositionWeights_ok {cells : List (Bool × ℤ)}
    {hasOffsets : Bool} {out : List ℚ × Bool}
    (hok : buildRejectedDraftPositionWeights config hasOffsets cells = .ok out)
    (henabled : config.rejectedDraftPositionDecayEnabled = true)
    (hfirst : config.rejectedDraftFirstTokenOnly = false) :
    0 < config.rejectedDraftPositionDecay ∧ config.rejectedDraftPositionDecay ≤ 1 := by
  rw [buildRejectedDraftPositionWeights, henabled, hfirst] at hok
  by_contra hrange
  rw [not_and_or, not_lt, not_le] at hrange
  simp [hrange] at hok

end LossConfig

/-- The loss of a batch is refused in no other case. -/
theorem accepted_iff (config : LossConfig) (keys : OutputKeys) (info : BatchInfo)
    (batch : List LossSample) : config.Accepted keys (hasRejectedStream keys batch) ↔
      ∃ loss, distillationLoss config keys info batch = .ok loss := by
  constructor
  · intro h
    unfold distillationLoss
    simp only [LossConfig.buildResponsePositionWeights_eq _ h.responseDecay_range]
    cases hstream : hasRejectedStream keys batch with
    | true =>
      rw [hstream] at h
      simp only [h.lossMode_eq rfl,
        LossConfig.buildRejectedDraftPositionWeights_eq _ (h.rejectedDecay_range rfl)]
      exact ⟨_, rfl⟩
    | false =>
      simp only [Bool.false_and, Bool.false_eq_true, if_false, bind, Except.bind]
      split_ifs <;> exact ⟨_, rfl⟩
  · rintro ⟨loss, hok⟩
    unfold distillationLoss at hok
    by_cases htopk : (hasRejectedStream keys batch && config.lossMode == .forwardKlTopk) = true
    · rw [if_pos htopk] at hok
      cases hok
    · rw [if_neg htopk] at hok
      obtain ⟨weights, hweights, hok⟩ := of_bind_ok hok
      refine ⟨fun hstream => ?_, LossConfig.range_of_buildResponsePositionWeights_ok hweights,
        fun hstream henabled hfirst => ?_⟩
      · rw [hstream, Bool.true_and, beq_iff_eq] at htopk
        cases hmode : config.lossMode with
        | sampled => rfl
        | forwardKlTopk => exact absurd hmode htopk
      · obtain ⟨responseWeights, responseDecayApplied⟩ := weights
        dsimp only at hok
        rw [if_pos hstream] at hok
        obtain ⟨rejectedWeights, hrejected, -⟩ := of_bind_ok hok
        exact LossConfig.range_of_buildRejectedDraftPositionWeights_ok hrejected henabled hfirst

/-! ## The loss in terms of sums -/

section Sums

variable (config : LossConfig) (keys : OutputKeys)

/-- The response tokens of a batch : `batch_num_tokens`. -/
def numTokens (batch : List LossSample) : ℚ :=
  ((responseCells batch).map fun cell => maskValue cell.responseMask).sum

/-- The total weight of the response positions. -/
def responseTotal (batch : List LossSample) : ℚ :=
  ((responseCells batch).map (config.responseWeight keys)).sum

/-- The total weight of the rejected drafts. -/
def rejectedTotal (batch : List LossSample) : ℚ :=
  ((rejectedLossCells batch).map (config.rejectedWeight keys)).sum

/-- The weighted response losses. -/
def responseSum (batch : List LossSample) : ℚ :=
  ((responseCells batch).map fun cell =>
    config.clampLoss cell.loss * config.responseWeight keys cell).sum

/-- The weighted rejected-draft losses. -/
def rejectedSum (batch : List LossSample) : ℚ :=
  ((rejectedLossCells batch).map fun cell =>
    config.clampLoss cell.loss * config.rejectedWeight keys cell).sum

/-- Some response position counts. -/
def hasEffective (batch : List LossSample) : Bool :=
  (responseCells batch).any (ResponseCell.effective keys)

/-- `1 / x`, or `0` when `x` is not positive. -/
def recip (x : ℚ) : ℚ := if x ≤ 0 then 0 else 1 / x

/-- What the response losses of a batch are divided by, when its mini-batch is `whole`. -/
def responseCount (whole batch : List LossSample) : ℚ :=
  if config.responseDecay keys then responseTotal config keys batch else numTokens whole

/-- The denominator of the two-stream branch. -/
def combinedDenom (whole batch : List LossSample) : ℚ :=
  config.responseStreamWeight * responseCount config keys whole batch +
    config.rejectedDraftStreamWeight * rejectedTotal config keys whole

/-- The coefficient of the response losses. -/
def responseCoeff (whole batch : List LossSample) : ℚ :=
  if hasRejectedStream keys batch then
    config.responseStreamWeight * recip (combinedDenom config keys whole batch)
  else recip (responseCount config keys whole batch)

/-- The coefficient of the rejected-draft losses. -/
def rejectedCoeff (whole batch : List LossSample) : ℚ :=
  if hasRejectedStream keys batch then
    config.rejectedDraftStreamWeight * recip (combinedDenom config keys whole batch)
  else 0

variable {config keys}

theorem weightedSum_map {α : Type*} (f g : α → ℚ) (cells : List α) :
    weightedSum (cells.map f) (cells.map g) = (cells.map fun cell => f cell * g cell).sum := by
  unfold weightedSum
  rw [List.zipWith_map, List.zipWith_self]

theorem div_eq_recip_mul {x : ℚ} (h : 0 < x) (y : ℚ) : y / x = recip x * y := by
  rw [recip, if_neg (not_le.mpr h), div_mul_eq_mul_div, one_mul]

theorem ite_div_eq_recip_mul (x y : ℚ) : (if x ≤ 0 then 0 else y / x) = recip x * y := by
  by_cases h : x ≤ 0
  · rw [if_pos h, recip, if_pos h, zero_mul]
  · rw [if_neg h, div_eq_recip_mul (not_le.mp h)]

/-- The rejected-draft count of the engine is the total weight of the mini-batch. -/
theorem globalRejectedEffectiveCount_eq (whole : List LossSample) (x y : ℚ) :
    ((globalBatchInfo config keys whole).rejectedDraftBatchEffectiveNumTokens.getD
      (if config.rejectedDecay keys then x
        else (globalBatchInfo config keys whole).rejectedDraftBatchNumTokens.getD y)) =
      rejectedTotal config keys whole := by
  have hdecay : config.rejectedDecay keys = (config.rejectedDraftPositionDecayEnabled &&
    !config.rejectedDraftFirstTokenOnly && keys.opdRejectedDraftOffsets) := rfl
  unfold globalBatchInfo rejectedTotal LossConfig.rejectedWeight
  simp only [LossConfig.cellWeight_eq_mul, ← hdecay]
  cases config.rejectedDecay keys <;> simp

theorem responseSum_of_not_effective {batch : List LossSample}
    (h : hasEffective keys batch = false) : responseSum config keys batch = 0 := by
  refine List.sum_eq_zero fun x hx => ?_
  obtain ⟨cell, hcell, rfl⟩ := List.mem_map.mp hx
  have hmask : cell.effective keys = false := by
    simpa using List.any_eq_false.mp h cell hcell
  simp [LossConfig.responseWeight, LossConfig.cellWeight, hmask]

/-- The loss of a batch whose mini-batch is `whole`. -/
theorem distillationLoss_eq (whole batch : List LossSample)
    (h : config.Accepted keys (hasRejectedStream keys batch))
    (htokens : hasEffective keys batch = true → 0 < numTokens whole) :
    distillationLoss config keys (globalBatchInfo config keys whole) batch =
      .ok (responseCoeff config keys whole batch * responseSum config keys batch +
        rejectedCoeff config keys whole batch * rejectedSum config keys batch) := by
  unfold distillationLoss
  simp only [LossConfig.buildResponsePositionWeights_eq _ h.responseDecay_range]
  cases hstream : hasRejectedStream keys batch with
  | true =>
    rw [hstream] at h
    have hmode := h.lossMode_eq rfl
    simp only [hmode, LossConfig.buildRejectedDraftPositionWeights_eq _ (h.rejectedDecay_range rfl)]
    refine congrArg Except.ok ?_
    simp only [combinedLoss, weightedSum_map, globalRejectedEffectiveCount_eq, responseCoeff,
      rejectedCoeff, hstream, if_true]
    rw [ite_div_eq_recip_mul, mul_add, mul_assoc, mul_left_comm, mul_assoc, mul_left_comm (recip _)]
    rfl
  | false =>
    cases heff : hasEffective keys batch with
    | true =>
      have hany : ((responseCells batch).map (ResponseCell.effective keys)).any id = true := by
        rw [List.any_map]
        exact heff
      simp only [hany, responseCoeff, rejectedCoeff, hstream, responseCount]
      cases hdecay : config.responseDecay keys with
      | true =>
        refine congrArg Except.ok ?_
        simp only [ite_div_eq_recip_mul, weightedSum_map, if_true, Bool.false_eq_true, if_false,
          zero_mul, add_zero]
        rfl
      | false =>
        refine congrArg Except.ok ?_
        simp only [Bool.false_eq_true, if_false, zero_mul, add_zero]
        rw [← div_eq_recip_mul (htokens heff)]
        have hweight : ∀ cell : ResponseCell,
            config.responseWeight keys cell = maskValue (cell.effective keys) := fun cell => by
          simp [LossConfig.responseWeight, LossConfig.cellWeight, hdecay, maskValue]
        simp only [aggLoss, List.map_map, weightedSum_map, responseSum, hweight]
        rfl
    | false =>
      have hany : ((responseCells batch).map (ResponseCell.effective keys)).any id = false := by
        rw [List.any_map]
        exact heff
      simp only [hany, responseCoeff, rejectedCoeff, hstream, responseSum_of_not_effective heff]
      simp

end Sums

end DraftOpd
