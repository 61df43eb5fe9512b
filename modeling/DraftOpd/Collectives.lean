import DraftOpd.DistillationLoss

/-!
# The collectives of the loss

`distillation_loss` on one of several data-parallel ranks. The counts that are not in
`global_batch_info` are summed over the ranks with `_global_sum`, where each rank waits for the
others (`lossOnRank`). Whether a rank comes to such a sum depends on its micro-batch : a
micro-batch with nothing to train on returns before it, and one without rejected drafts never
sums their weights.

`collectives_lossOnRank` is the sequence of sums of a rank. Two ranks with the same settings
agree on it exactly under `SumsAgree` (`collectives_agree_iff`). Without a group a rank computes
`distillationLoss` (`lossOnRank_of_no_group`).
-/

namespace DraftOpd

/-- The quantities that `_global_sum` adds up. -/
inductive GlobalSum where
  | tvBlockCount
  | responseEffectiveCount
  | rejectedEffectiveCount
  deriving DecidableEq

/-- The settings of the loss, with its two other modes. -/
structure TrainingConfig extends LossConfig where
  useTvLoss : Bool := false
  usePolicyGradient : Bool := false

/-- `global_batch_info` of several ranks. -/
structure SharedBatchInfo extends BatchInfo where
  tvGlobalBlockCount : Option ℚ
  dpSize : ℚ

/-- What a rank holds : the keys and streams of its model output, with the exact TV blocks and
whether their statistics are there. -/
structure LossMicroBatch where
  keys : OutputKeys
  samples : List LossSample
  tvBlocks : Option (List (ℚ × Bool))
  tvStatistics : Bool
  policyLoss : ℚ

/-- What the loss raises on a rank. -/
inductive RankError where
  | loss (error : LossError)
  | policyGradientRejectedDraft
  /-- `(global) batch_num_tokens is required when dp_size > 1`. -/
  | batchNumTokensMissing
  | tvPolicyGradient
  | tvBlocksMissing
  | tvStatisticMissing

/-- A result with the sums that were made before it. -/
structure Traced (α : Type) where
  collectives : List GlobalSum
  result : α

/-- What a rank is given back by `all_reduce`, when there is a group. -/
abbrev DpGroup := Option (GlobalSum → ℚ → ℚ)

/-- `_global_sum` (`losses.py:410-415`). -/
def globalSum (dpGroup : DpGroup) (quantity : GlobalSum) (value : ℚ) : Traced ℚ :=
  match dpGroup with
  | none => ⟨[], value⟩
  | some allReduce => ⟨[quantity], allReduce quantity value⟩

/-- `_exact_tv_distillation_loss` (`losses.py:600-677`), without its metrics. -/
def exactTvDistillationLoss (config : TrainingConfig) (info : SharedBatchInfo) (dpGroup : DpGroup)
    (micro : LossMicroBatch) : Traced (Except RankError ℚ) :=
  if config.usePolicyGradient then ⟨[], .error .tvPolicyGradient⟩
  else match micro.tvBlocks with
    | none => ⟨[], .error .tvBlocksMissing⟩
    | some blocks =>
      let valid := blocks.filter Prod.snd
      let localBlockSum := (valid.map Prod.fst).sum
      let globalBlockCount : Traced ℚ := match info.tvGlobalBlockCount with
        | some count => ⟨[], count⟩
        | none => globalSum dpGroup .tvBlockCount valid.length
      let denom := globalBlockCount.result
      ⟨globalBlockCount.collectives,
        if micro.tvStatistics then
          .ok (if denom ≤ 0 then 0 else localBlockSum / denom * info.dpSize)
        else .error .tvStatisticMissing⟩

/-- The two-stream branch (`losses.py:852-893`) on a rank. -/
def combinedLossOnRank (config : LossConfig) (info : SharedBatchInfo) (dpGroup : DpGroup)
    (losses responseWeights : List ℚ) (mask : List Bool) (responseDecayApplied : Bool)
    (rejectedLosses rejectedWeights : List ℚ) (rejectedMask : List Bool)
    (rejectedDecayApplied : Bool) : Traced ℚ :=
  let responseSum := weightedSum losses responseWeights
  let rejectedSum := weightedSum rejectedLosses rejectedWeights
  let globalResponseCount := if responseDecayApplied then
      globalSum dpGroup .responseEffectiveCount responseWeights.sum
    else ⟨[], info.batchNumTokens.getD (mask.map maskValue).sum⟩
  let globalRejectedCount :=
    info.rejectedDraftBatchNumTokens.getD (rejectedMask.map maskValue).sum
  let globalRejectedEffectiveCount : Traced ℚ :=
    match info.rejectedDraftBatchEffectiveNumTokens with
    | some count => ⟨[], count⟩
    | none => if rejectedDecayApplied then
        globalSum dpGroup .rejectedEffectiveCount rejectedWeights.sum
      else ⟨[], globalRejectedCount⟩
  let denom := config.responseStreamWeight * globalResponseCount.result +
    config.rejectedDraftStreamWeight * globalRejectedEffectiveCount.result
  ⟨globalResponseCount.collectives ++ globalRejectedEffectiveCount.collectives,
    if denom ≤ 0 then 0
    else (config.responseStreamWeight * responseSum +
      config.rejectedDraftStreamWeight * rejectedSum) / denom * info.dpSize⟩

/-- `agg_loss` with `token-mean` (`core_algos.py:1168-1173`) on one of `dp_size` ranks. -/
def aggLossOnRank (info : SharedBatchInfo) (losses : List ℚ) (mask : List Bool) :
    Except RankError ℚ :=
  if info.batchNumTokens.isNone ∧ 1 < info.dpSize then .error .batchNumTokensMissing
  else .ok (aggLoss losses mask info.batchNumTokens * info.dpSize)

/-- The single-stream branch (`losses.py:830-851`) on a rank. -/
def responseLossOnRank (info : SharedBatchInfo) (dpGroup : DpGroup)
    (losses responseWeights : List ℚ) (mask : List Bool) (responseDecayApplied : Bool) :
    Traced (Except RankError ℚ) :=
  if responseDecayApplied then
    let denom := globalSum dpGroup .responseEffectiveCount responseWeights.sum
    ⟨denom.collectives, .ok (if denom.result ≤ 0 then 0
      else weightedSum losses responseWeights / denom.result * info.dpSize)⟩
  else ⟨[], aggLossOnRank info losses mask⟩

/-- `distillation_loss` (`losses.py:680-895`) on a rank. -/
def lossOnRank (config : TrainingConfig) (info : SharedBatchInfo) (dpGroup : DpGroup)
    (micro : LossMicroBatch) : Traced (Except RankError ℚ) :=
  let keys := micro.keys
  let response := responseCells micro.samples
  let rejected := rejectedLossCells micro.samples
  let stream := hasRejectedStream keys micro.samples
  if config.useTvLoss then exactTvDistillationLoss config info dpGroup micro
  else if stream && config.lossMode == .forwardKlTopk then ⟨[], .error (.loss .topkRejectedDraft)⟩
  else if stream && config.usePolicyGradient then ⟨[], .error .policyGradientRejectedDraft⟩
  else
    let losses := response.map fun cell => config.clampLoss cell.loss
    let mask := response.map (ResponseCell.effective keys)
    match buildResponsePositionWeights config.toLossConfig keys.opdResponseOffsets
        (response.map fun cell => (cell.effective keys, cell.offset)) with
    | .error e => ⟨[], .error (.loss e)⟩
    | .ok (responseWeights, responseDecayApplied) =>
      if stream then
        match buildRejectedDraftPositionWeights config.toLossConfig keys.opdRejectedDraftOffsets
            (rejected.map fun cell => (cell.mask, cell.offset)) with
        | .error e => ⟨[], .error (.loss e)⟩
        | .ok (rejectedWeights, rejectedDecayApplied) =>
          let loss := combinedLossOnRank config.toLossConfig info dpGroup losses responseWeights
            mask responseDecayApplied (rejected.map fun cell => config.clampLoss cell.loss)
            rejectedWeights (rejected.map RejectedLossCell.mask) rejectedDecayApplied
          ⟨loss.collectives, .ok loss.result⟩
      else if !mask.any id then ⟨[], .ok 0⟩
      else if config.usePolicyGradient then ⟨[], .ok micro.policyLoss⟩
      else responseLossOnRank info dpGroup losses responseWeights mask responseDecayApplied

/-! ## The sums of a rank -/

/-- The decay is one that the position weights accept. -/
def TrainingConfig.decayInRange (config : TrainingConfig) : Bool :=
  decide (0 < config.rejectedDraftPositionDecay ∧ config.rejectedDraftPositionDecay ≤ 1)

namespace LossMicroBatch

variable (config : TrainingConfig) (micro : LossMicroBatch)

/-- The micro-batch has rejected drafts to train on. -/
def hasStream : Bool := hasRejectedStream micro.keys micro.samples

/-- The micro-batch has a response position to train on. -/
def hasEffective : Bool := (responseCells micro.samples).any (ResponseCell.effective micro.keys)

/-- The micro-batch has offsets and a position to train on, and is not refused. -/
def trainsResponse : Bool :=
  micro.keys.opdResponseOffsets && (micro.hasEffective || micro.hasStream) &&
    !(micro.hasStream && config.lossMode == .forwardKlTopk)

/-- The micro-batch has rejected drafts with their offsets, and is not refused. -/
def trainsRejected : Bool :=
  micro.hasStream && micro.keys.opdRejectedDraftOffsets && config.lossMode != .forwardKlTopk

end LossMicroBatch

section Sums

variable {config : TrainingConfig} {info : SharedBatchInfo} {micro : LossMicroBatch}

theorem decayInRange_eq_false_iff {config : TrainingConfig} : config.decayInRange = false ↔
    config.rejectedDraftPositionDecay ≤ 0 ∨ 1 < config.rejectedDraftPositionDecay := by
  rw [TrainingConfig.decayInRange, decide_eq_false_iff_not, not_and_or, not_lt, not_le]

/-- Whether the response weights decay, and when they are refused. -/
theorem buildResponsePositionWeights_cases (config : TrainingConfig) (hasOffsets : Bool)
    (cells : List (Bool × ℤ)) :
    ((config.acceptDraftPositionDecayEnabled && hasOffsets) = false ∧ ∃ weights,
      buildResponsePositionWeights config.toLossConfig hasOffsets cells = .ok (weights, false)) ∨
    ((config.acceptDraftPositionDecayEnabled && hasOffsets) = true ∧
      config.decayInRange = true ∧ ∃ weights,
      buildResponsePositionWeights config.toLossConfig hasOffsets cells = .ok (weights, true)) ∨
    ((config.acceptDraftPositionDecayEnabled && hasOffsets) = true ∧
      config.decayInRange = false ∧ ∃ e,
      buildResponsePositionWeights config.toLossConfig hasOffsets cells = .error e) := by
  unfold buildResponsePositionWeights
  cases config.acceptDraftPositionDecayEnabled with
  | false => exact Or.inl ⟨rfl, _, rfl⟩
  | true =>
    cases hasOffsets with
    | false => exact Or.inl ⟨rfl, _, rfl⟩
    | true =>
      cases hrange : config.decayInRange with
      | false =>
        have hdecay := decayInRange_eq_false_iff.mp hrange
        exact Or.inr (Or.inr ⟨rfl, rfl, .decayRange config.rejectedDraftPositionDecay,
          by simp [hdecay]⟩)
      | true =>
        have hdecay := mt decayInRange_eq_false_iff.mpr (ne_false_of_eq_true hrange)
        exact Or.inr (Or.inl ⟨rfl, rfl, _, by simp [hdecay]; rfl⟩)

/-- Whether the rejected-draft weights decay, and when they are refused. -/
theorem buildRejectedDraftPositionWeights_cases (config : TrainingConfig) (hasOffsets : Bool)
    (cells : List (Bool × ℤ)) :
    ((config.rejectedDraftPositionDecayEnabled && !config.rejectedDraftFirstTokenOnly) = false ∧
      ∃ weights, buildRejectedDraftPositionWeights config.toLossConfig hasOffsets cells =
        .ok (weights, false)) ∨
    ((config.rejectedDraftPositionDecayEnabled && !config.rejectedDraftFirstTokenOnly) = true ∧
      config.decayInRange = true ∧
      ∃ weights, buildRejectedDraftPositionWeights config.toLossConfig hasOffsets cells =
        .ok (weights, hasOffsets)) ∨
    ((config.rejectedDraftPositionDecayEnabled && !config.rejectedDraftFirstTokenOnly) = true ∧
      config.decayInRange = false ∧
      ∃ e, buildRejectedDraftPositionWeights config.toLossConfig hasOffsets cells = .error e) := by
  unfold buildRejectedDraftPositionWeights
  cases config.rejectedDraftFirstTokenOnly with
  | true => exact Or.inl ⟨by simp, _, rfl⟩
  | false =>
    cases config.rejectedDraftPositionDecayEnabled with
    | false => exact Or.inl ⟨rfl, _, rfl⟩
    | true =>
      cases hrange : config.decayInRange with
      | false =>
        have hdecay := decayInRange_eq_false_iff.mp hrange
        exact Or.inr (Or.inr ⟨rfl, rfl, .decayRange config.rejectedDraftPositionDecay,
          by simp [hdecay]⟩)
      | true =>
        have hdecay := mt decayInRange_eq_false_iff.mpr (ne_false_of_eq_true hrange)
        refine Or.inr (Or.inl ⟨rfl, rfl, ?_⟩)
        cases hasOffsets with
        | false => exact ⟨_, by simp [hdecay]; rfl⟩
        | true => exact ⟨_, by simp [hdecay]; rfl⟩

/-- A rank sums the response weights. -/
def sumsResponse (config : TrainingConfig) (micro : LossMicroBatch) : Bool :=
  config.acceptDraftPositionDecayEnabled && config.decayInRange && micro.trainsResponse config

/-- A rank sums the rejected-draft weights. -/
def sumsRejected (config : TrainingConfig) (info : SharedBatchInfo) (micro : LossMicroBatch) :
    Bool :=
  config.rejectedDraftPositionDecayEnabled && !config.rejectedDraftFirstTokenOnly &&
    config.decayInRange && info.rejectedDraftBatchEffectiveNumTokens.isNone &&
    micro.trainsRejected config

theorem any_effective (keys : OutputKeys) (cells : List ResponseCell) :
    (cells.map (ResponseCell.effective keys)).any id = cells.any (ResponseCell.effective keys) := by
  rw [List.any_map]
  rfl

/-- The sums of the two-stream branch. -/
theorem collectives_combined (config : LossConfig) (allReduce : GlobalSum → ℚ → ℚ)
    (losses responseWeights : List ℚ) (mask : List Bool) (responseDecayApplied : Bool)
    (rejectedLosses rejectedWeights : List ℚ) (rejectedMask : List Bool)
    (rejectedDecayApplied : Bool) :
    (combinedLossOnRank config info (some allReduce) losses responseWeights mask
      responseDecayApplied rejectedLosses rejectedWeights rejectedMask
      rejectedDecayApplied).collectives =
    (if responseDecayApplied then [.responseEffectiveCount] else []) ++
      if info.rejectedDraftBatchEffectiveNumTokens.isNone && rejectedDecayApplied then
        [.rejectedEffectiveCount] else [] := by
  cases responseDecayApplied <;> cases rejectedDecayApplied <;>
    cases hinfo : info.rejectedDraftBatchEffectiveNumTokens <;>
      simp [combinedLossOnRank, globalSum, hinfo]

/-- The sums of a rank whose micro-batch has no rejected stream. -/
theorem collectives_response (htv : config.useTvLoss = false)
    (hpg : config.usePolicyGradient = false)
    (hstream : hasRejectedStream micro.keys micro.samples = false)
    (allReduce : GlobalSum → ℚ → ℚ) :
    (lossOnRank config info (some allReduce) micro).collectives =
      (if sumsResponse config micro then [.responseEffectiveCount] else []) ++
        if sumsRejected config info micro then [.rejectedEffectiveCount] else [] := by
  unfold lossOnRank
  simp only [htv, hpg, hstream, Bool.false_eq_true, if_false, Bool.and_false, any_effective]
  have hreject : sumsRejected config info micro = false := by
    simp [sumsRejected, LossMicroBatch.trainsRejected, LossMicroBatch.hasStream, hstream]
  simp only [hreject, Bool.false_and, Bool.false_eq_true, if_false, List.append_nil]
  have hsums : sumsResponse config micro = (config.acceptDraftPositionDecayEnabled &&
      micro.keys.opdResponseOffsets && config.decayInRange && micro.hasEffective) := by
    simp only [sumsResponse, LossMicroBatch.trainsResponse, LossMicroBatch.hasStream, hstream,
      Bool.or_false, Bool.false_and, Bool.not_false, Bool.and_true]
    ac_rfl
  rw [hsums]
  rcases buildResponsePositionWeights_cases config micro.keys.opdResponseOffsets
      ((responseCells micro.samples).map fun cell => (cell.effective micro.keys, cell.offset))
    with ⟨hdecay, weights, heq⟩ | ⟨hdecay, hrange, weights, heq⟩ | ⟨hdecay, hrange, e, heq⟩
  · simp only [heq, hdecay, Bool.false_and, Bool.false_eq_true, if_false, responseLossOnRank]
    split_ifs <;> rfl
  · simp only [heq, hdecay, hrange, Bool.true_and, if_true, responseLossOnRank]
    cases heffective : micro.hasEffective with
    | false =>
      have hany : (responseCells micro.samples).any (ResponseCell.effective micro.keys) = false :=
        heffective
      simp only [hany, Bool.not_false, if_true, Bool.false_eq_true, if_false]
    | true =>
      have hany : (responseCells micro.samples).any (ResponseCell.effective micro.keys) = true :=
        heffective
      simp only [hany, Bool.not_true, Bool.false_eq_true, if_false, if_true, globalSum]
  · simp only [heq, hdecay, hrange, Bool.and_false, Bool.false_and, Bool.false_eq_true, if_false]

/-- The sums of a rank whose micro-batch has one. -/
theorem collectives_two_streams (htv : config.useTvLoss = false)
    (hpg : config.usePolicyGradient = false)
    (hstream : hasRejectedStream micro.keys micro.samples = true)
    (allReduce : GlobalSum → ℚ → ℚ) :
    (lossOnRank config info (some allReduce) micro).collectives =
      (if sumsResponse config micro then [.responseEffectiveCount] else []) ++
        if sumsRejected config info micro then [.rejectedEffectiveCount] else [] := by
  unfold lossOnRank
  simp only [htv, hpg, hstream, Bool.false_eq_true, if_false, Bool.and_false, any_effective]
  have hstream' : micro.hasStream = true := hstream
  cases htopk : config.lossMode == .forwardKlTopk with
  | true =>
    have hnone : sumsResponse config micro = false ∧ sumsRejected config info micro = false := by
      simp [sumsResponse, sumsRejected, LossMicroBatch.trainsResponse,
        LossMicroBatch.trainsRejected, hstream', bne, htopk]
    simp only [hnone.1, hnone.2, Bool.and_self, if_true, Bool.false_eq_true, if_false,
      List.append_nil]
  | false =>
    have hresponse : sumsResponse config micro = (config.acceptDraftPositionDecayEnabled &&
        micro.keys.opdResponseOffsets && config.decayInRange) := by
      simp only [sumsResponse, LossMicroBatch.trainsResponse, hstream', htopk, Bool.or_true,
        Bool.and_true, Bool.and_false, Bool.not_false]
      ac_rfl
    have hrejected : sumsRejected config info micro =
        (config.rejectedDraftPositionDecayEnabled && !config.rejectedDraftFirstTokenOnly &&
          config.decayInRange && info.rejectedDraftBatchEffectiveNumTokens.isNone &&
          micro.keys.opdRejectedDraftOffsets) := by
      simp only [sumsRejected, LossMicroBatch.trainsRejected, hstream', bne, htopk,
        Bool.true_and, Bool.not_false, Bool.and_true]
    rw [hresponse, hrejected]
    simp only [Bool.and_false, Bool.false_eq_true, if_false, if_true]
    rcases buildResponsePositionWeights_cases config micro.keys.opdResponseOffsets
        ((responseCells micro.samples).map fun cell => (cell.effective micro.keys, cell.offset))
      with ⟨hdecay, weights, heq⟩ | ⟨hdecay, hrange, weights, heq⟩ | ⟨hdecay, hrange, e, heq⟩
    · rcases buildRejectedDraftPositionWeights_cases config micro.keys.opdRejectedDraftOffsets
          ((rejectedLossCells micro.samples).map fun cell => (cell.mask, cell.offset))
        with ⟨hoff, weights', heq'⟩ | ⟨hon, hrange, weights', heq'⟩ | ⟨hon, hrange, e, heq'⟩
      · simp only [heq, heq', hdecay, hoff, collectives_combined, Bool.false_and, Bool.and_false,
          Bool.false_eq_true, if_false]
      · simp only [heq, heq', hdecay, hon, hrange, collectives_combined, Bool.false_and,
          Bool.true_and, Bool.false_eq_true, if_false]
      · simp only [heq, heq', hdecay, hrange, Bool.false_and, Bool.and_false, Bool.false_eq_true,
          if_false, List.append_nil]
    · rcases buildRejectedDraftPositionWeights_cases config micro.keys.opdRejectedDraftOffsets
          ((rejectedLossCells micro.samples).map fun cell => (cell.mask, cell.offset))
        with ⟨hoff, weights', heq'⟩ | ⟨hon, -, weights', heq'⟩ | ⟨-, hrange', -, -⟩
      · simp only [heq, heq', hdecay, hoff, hrange, collectives_combined, Bool.false_and,
          Bool.and_false, Bool.and_self, Bool.false_eq_true, if_false, if_true]
      · simp only [heq, heq', hdecay, hon, hrange, collectives_combined, Bool.true_and,
          Bool.and_self, if_true]
      · rw [hrange] at hrange'
        cases hrange'
    · simp only [heq, hdecay, hrange, Bool.and_false, Bool.false_and, Bool.false_eq_true,
        if_false, List.append_nil]

/-- The sums of a rank with the supervised loss. -/
theorem collectives_supervised (htv : config.useTvLoss = false)
    (hpg : config.usePolicyGradient = false) (allReduce : GlobalSum → ℚ → ℚ) :
    (lossOnRank config info (some allReduce) micro).collectives =
      (if sumsResponse config micro then [.responseEffectiveCount] else []) ++
        if sumsRejected config info micro then [.rejectedEffectiveCount] else [] := by
  cases hstream : hasRejectedStream micro.keys micro.samples with
  | false => exact collectives_response htv hpg hstream allReduce
  | true => exact collectives_two_streams htv hpg hstream allReduce

/-- The sums of a rank with the exact TV loss. -/
theorem collectives_tv (htv : config.useTvLoss = true) (hpg : config.usePolicyGradient = false)
    (allReduce : GlobalSum → ℚ → ℚ) :
    (lossOnRank config info (some allReduce) micro).collectives =
      if info.tvGlobalBlockCount.isNone && micro.tvBlocks.isSome then [.tvBlockCount] else [] := by
  unfold lossOnRank exactTvDistillationLoss
  simp only [htv, hpg, if_true, Bool.false_eq_true, if_false]
  cases hblocks : micro.tvBlocks with
  | none => simp
  | some blocks =>
    cases hcount : info.tvGlobalBlockCount <;> simp [globalSum]

/-- A rank with the policy gradient sums nothing. -/
theorem collectives_policyGradient (hpg : config.usePolicyGradient = true) (dpGroup : DpGroup) :
    (lossOnRank config info dpGroup micro).collectives = [] := by
  unfold lossOnRank exactTvDistillationLoss
  simp only [hpg, if_true, Bool.and_true]
  by_cases htv : config.useTvLoss = true
  · rw [if_pos htv]
  · rw [if_neg htv]
    by_cases htopk : (hasRejectedStream micro.keys micro.samples &&
        config.lossMode == .forwardKlTopk) = true
    · rw [if_pos htopk]
    · rw [if_neg htopk]
      by_cases hstream : hasRejectedStream micro.keys micro.samples = true
      · rw [if_pos hstream]
      · simp only [Bool.eq_false_iff.mpr hstream, Bool.false_eq_true, if_false]
        cases buildResponsePositionWeights config.toLossConfig micro.keys.opdResponseOffsets
            ((responseCells micro.samples).map fun cell =>
              (cell.effective micro.keys, cell.offset)) with
        | error e => rfl
        | ok weights =>
          simp only
          split_ifs <;> rfl

/-- The two-stream branch without a group. -/
theorem combinedLossOnRank_none (config : LossConfig) (losses responseWeights : List ℚ)
    (mask : List Bool) (responseDecayApplied : Bool) (rejectedLosses rejectedWeights : List ℚ)
    (rejectedMask : List Bool) (rejectedDecayApplied : Bool) :
    combinedLossOnRank config info none losses responseWeights mask responseDecayApplied
      rejectedLosses rejectedWeights rejectedMask rejectedDecayApplied =
    ⟨[], combinedLoss config info.toBatchInfo losses responseWeights mask responseDecayApplied
      rejectedLosses rejectedWeights rejectedMask rejectedDecayApplied * info.dpSize⟩ := by
  cases responseDecayApplied <;> cases rejectedDecayApplied <;>
    cases hinfo : info.rejectedDraftBatchEffectiveNumTokens <;>
      simp [combinedLossOnRank, combinedLoss, globalSum, hinfo]

/-- The single-stream branch without a group. -/
theorem responseLossOnRank_none (losses responseWeights : List ℚ) (mask : List Bool)
    (responseDecayApplied : Bool) :
    (responseLossOnRank info none losses responseWeights mask responseDecayApplied).collectives =
      [] := by
  cases responseDecayApplied <;> rfl

/-- The exact TV loss without a group. -/
theorem exactTvDistillationLoss_none :
    (exactTvDistillationLoss config info none micro).collectives = [] := by
  unfold exactTvDistillationLoss
  cases config.usePolicyGradient with
  | true => rfl
  | false =>
    cases micro.tvBlocks with
    | none => rfl
    | some blocks => cases hcount : info.tvGlobalBlockCount <;> simp [globalSum]

/-- Without a group no rank sums. -/
theorem collectives_of_no_group : (lossOnRank config info none micro).collectives = [] := by
  unfold lossOnRank
  cases hweights : buildResponsePositionWeights config.toLossConfig micro.keys.opdResponseOffsets
      ((responseCells micro.samples).map fun cell => (cell.effective micro.keys, cell.offset)) with
  | error e =>
    simp only [hweights]
    split_ifs <;> first | exact exactTvDistillationLoss_none | rfl
  | ok weights =>
    cases hrejected : buildRejectedDraftPositionWeights config.toLossConfig
        micro.keys.opdRejectedDraftOffsets
        ((rejectedLossCells micro.samples).map fun cell => (cell.mask, cell.offset)) with
    | error e =>
      simp only [hweights, hrejected]
      split_ifs <;> first
        | exact exactTvDistillationLoss_none
        | exact responseLossOnRank_none _ _ _ _
        | rfl
    | ok weights' =>
      simp only [hweights, hrejected, combinedLossOnRank_none]
      split_ifs <;> first
        | exact exactTvDistillationLoss_none
        | exact responseLossOnRank_none _ _ _ _
        | rfl

/-- Without a group and with one rank, the supervised loss is `distillationLoss`. -/
theorem lossOnRank_of_no_group (htv : config.useTvLoss = false)
    (hpg : config.usePolicyGradient = false) (hsize : info.dpSize = 1) :
    (lossOnRank config info none micro).result =
      (distillationLoss config.toLossConfig micro.keys info.toBatchInfo micro.samples).mapError
        .loss := by
  unfold lossOnRank distillationLoss
  simp only [htv, hpg, Bool.false_eq_true, if_false, Bool.and_false, combinedLossOnRank_none,
    hsize, mul_one]
  by_cases htopk : (hasRejectedStream micro.keys micro.samples &&
      config.lossMode == .forwardKlTopk) = true
  · rw [if_pos htopk, if_pos htopk]
    rfl
  · rw [if_neg htopk, if_neg htopk]
    cases buildResponsePositionWeights config.toLossConfig micro.keys.opdResponseOffsets
        ((responseCells micro.samples).map fun cell =>
          (cell.effective micro.keys, cell.offset)) with
    | error e => rfl
    | ok weights =>
      obtain ⟨responseWeights, responseDecayApplied⟩ := weights
      simp only [bind, Except.bind]
      by_cases hstream : hasRejectedStream micro.keys micro.samples = true
      · rw [if_pos hstream, if_pos hstream]
        cases buildRejectedDraftPositionWeights config.toLossConfig
            micro.keys.opdRejectedDraftOffsets
            ((rejectedLossCells micro.samples).map fun cell => (cell.mask, cell.offset)) with
        | error e => rfl
        | ok weights' => rfl
      · rw [if_neg hstream, if_neg hstream]
        by_cases hany : (!((responseCells micro.samples).map
            (ResponseCell.effective micro.keys)).any id) = true
        · rw [if_pos hany, if_pos hany]
          rfl
        · rw [if_neg hany, if_neg hany]
          cases responseDecayApplied with
          | false =>
            simp only [responseLossOnRank, aggLossOnRank, hsize, lt_self_iff_false, and_false,
              if_false, mul_one, Bool.false_eq_true]
            rfl
          | true =>
            simp only [responseLossOnRank, globalSum, hsize, mul_one, if_true]
            rfl

end Sums

/-! ## Two ranks -/

/-- When two ranks with the same settings make the same sums : there is no group, or the policy
gradient makes none ; with the TV loss, the block count is given or both have blocks or neither
has ; otherwise, where a count is not given and its weights decay, both have what is counted or
neither has. -/
def SumsAgree (config : TrainingConfig) (info : SharedBatchInfo) (dpGroup : DpGroup)
    (micro micro' : LossMicroBatch) : Prop :=
  dpGroup = none ∨ config.usePolicyGradient = true ∨
  (config.useTvLoss = true ∧ (info.tvGlobalBlockCount.isNone = true →
    micro.tvBlocks.isSome = micro'.tvBlocks.isSome)) ∨
  (config.useTvLoss = false ∧ (config.decayInRange = true →
    (config.acceptDraftPositionDecayEnabled = true →
      micro.trainsResponse config = micro'.trainsResponse config) ∧
    (config.rejectedDraftPositionDecayEnabled = true → config.rejectedDraftFirstTokenOnly = false →
      info.rejectedDraftBatchEffectiveNumTokens.isNone = true →
      micro.trainsRejected config = micro'.trainsRejected config)))

/-- A list of the quantities of two flags is that of two other flags when the flags are equal. -/
theorem sums_append_inj {a b a' b' : Bool} :
    ((if a then [GlobalSum.responseEffectiveCount] else []) ++
        if b then [GlobalSum.rejectedEffectiveCount] else []) =
      ((if a' then [GlobalSum.responseEffectiveCount] else []) ++
        if b' then [GlobalSum.rejectedEffectiveCount] else []) ↔ a = a' ∧ b = b' := by
  cases a <;> cases b <;> cases a' <;> cases b' <;> decide

/-- Every pair of ranks that share their settings and `global_batch_info` : they make the same
sequence of sums if and only if `SumsAgree`. -/
theorem collectives_agree_iff (config : TrainingConfig) (info : SharedBatchInfo)
    (dpGroup : DpGroup) (micro micro' : LossMicroBatch) :
    (lossOnRank config info dpGroup micro).collectives =
      (lossOnRank config info dpGroup micro').collectives ↔
    SumsAgree config info dpGroup micro micro' := by
  cases dpGroup with
  | none =>
    rw [collectives_of_no_group, collectives_of_no_group]
    exact ⟨fun _ => Or.inl rfl, fun _ => rfl⟩
  | some allReduce =>
    by_cases hpg : config.usePolicyGradient = true
    · rw [collectives_policyGradient hpg, collectives_policyGradient hpg]
      exact ⟨fun _ => Or.inr (Or.inl hpg), fun _ => rfl⟩
    · have hpg' := Bool.eq_false_iff.mpr hpg
      by_cases htv : config.useTvLoss = true
      · rw [collectives_tv htv hpg', collectives_tv htv hpg']
        simp only [SumsAgree, htv, hpg', Bool.true_eq_false, Bool.false_eq_true, reduceCtorEq,
          false_or, true_and, false_and, or_false]
        cases info.tvGlobalBlockCount <;> cases micro.tvBlocks <;> cases micro'.tvBlocks <;> simp
      · have htv' := Bool.eq_false_iff.mpr htv
        rw [collectives_supervised htv' hpg', collectives_supervised htv' hpg', sums_append_inj]
        simp only [SumsAgree, htv', hpg', Bool.false_eq_true, reduceCtorEq, false_or, true_and,
          false_and, sumsResponse, sumsRejected]
        cases config.decayInRange <;> cases config.acceptDraftPositionDecayEnabled <;>
          cases config.rejectedDraftPositionDecayEnabled <;>
          cases config.rejectedDraftFirstTokenOnly <;>
          cases info.rejectedDraftBatchEffectiveNumTokens <;> simp

/-- A rank whose only response position is, or is not, trained on. -/
def oneCellMicro (opdLossMask : Bool) : LossMicroBatch where
  keys := {}
  samples := [⟨[⟨1, true, opdLossMask, 1⟩], []⟩]
  tvBlocks := none
  tvStatistics := false
  policyLoss := 0

/-- A rank with nothing to train on returns before the sum that the other waits in. -/
theorem collectives_differ : ¬∀ (config : TrainingConfig) (info : SharedBatchInfo)
    (dpGroup : DpGroup) (micro micro' : LossMicroBatch),
    (lossOnRank config info dpGroup micro).collectives =
      (lossOnRank config info dpGroup micro').collectives := by
  intro h
  have heq := h { acceptDraftPositionDecayEnabled := true } ⟨⟨some 1, none, none⟩, none, 2⟩
    (some fun _ value => value) (oneCellMicro true) (oneCellMicro false)
  rw [collectives_supervised rfl rfl, collectives_supervised rfl rfl, sums_append_inj] at heq
  exact absurd heq.1 (by decide +kernel)

end DraftOpd
