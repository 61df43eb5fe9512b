import Mathlib.Algebra.Order.Ring.Rat
import Mathlib.Tactic.IntervalCases
import DraftOpd.Padding
import DraftOpd.Scatter
import DraftOpd.TensorOps

/-!
# The rows of the EAGLE3 full-sequence forward

`_run_eagle3_full_ttt_forward` runs several steps over the whole sequence. At step `s` the query
at position `p` is trained against the target's distribution over the token at `p + s + 2`, and
its loss is added to row `p` when that token is in the response. The loss of the batch is then
read through `no_padding_2_padding`, whose window starts at the last prompt token.

`nativeCe_run` gives the rows the steps leave. A row before the window has a loss as soon as the
prompt has two tokens, and a row holds the log-probability of the token two positions on, so the
rows fit the window on few inputs (`ttt_rows_aligned_iff`).
-/

namespace DraftOpd

/-! ## The forward -/

/-- What `_eagle3_loss_chunk` returns for one position. -/
structure TttLoss where
  ceLoss : ℚ
  scalarLogProb : ℚ
  top1Match : Bool
  entropy : ℚ

/-- The draft and target models of the forward : the loss at a step and position for a label, the
target rows whose largest logit is in the draft vocabulary (`t2d[...]`), and the token ids in
it (`_map_target_to_draft_ids`). -/
structure TttModel where
  lossAt : ℕ → ℕ → ℕ → ℤ → TttLoss
  nativeSupported : ℕ → ℕ → Bool
  scalarSupported : ℤ → Bool

/-- The options of the forward, as `_get_ttt_step_weight` and `_get_lm_head_chunk_size` check
them. -/
structure TttOptions where
  tttLength : ℕ
  tttStepWeight : ℚ
  lmHeadChunkSize : ℕ
  calculateEntropy : Bool
  stepWeight_pos : 0 < tttStepWeight
  chunkSize_pos : 0 < lmHeadChunkSize

/-- The tensors `*_by_seq` and the counts. -/
structure TttResult where
  logProbsBySeq : ℕ → ℕ → ℚ
  lossMaskBySeq : ℕ → ℕ → Bool
  selectedScalarLossMaskBySeq : ℕ → ℕ → Bool
  nativeCeLossBySeq : ℕ → ℕ → ℚ
  entropyBySeq : ℕ → ℕ → ℚ
  responseLmTokenCount : ℕ
  nativeTotalCount : ℕ
  nativeSupportedCount : ℕ
  nativeTop1CorrectCount : ℕ
  ranDraftForward : Bool

namespace TttResult

/-- The tensors before the first step. -/
def zeros : TttResult where
  logProbsBySeq := fun _ _ => 0
  lossMaskBySeq := fun _ _ => false
  selectedScalarLossMaskBySeq := fun _ _ => false
  nativeCeLossBySeq := fun _ _ => 0
  entropyBySeq := fun _ _ => 0
  responseLmTokenCount := 0
  nativeTotalCount := 0
  nativeSupportedCount := 0
  nativeTop1CorrectCount := 0
  ranDraftForward := false

variable (result : TttResult) (i p : ℕ)

/-- A weighted cross-entropy, added to a row (`eagle3_student.py:789-794`). -/
def addNative (loss : ℚ) : TttResult :=
  { result with
    nativeCeLossBySeq :=
      setAt result.nativeCeLossBySeq i p (result.nativeCeLossBySeq i p + loss)
    lossMaskBySeq := setAt result.lossMaskBySeq i p true }

/-- The log-probability of a label, written to a row (`eagle3_student.py:797-803`). -/
def setScalar (logProb : ℚ) : TttResult :=
  { result with
    logProbsBySeq := setAt result.logProbsBySeq i p logProb
    selectedScalarLossMaskBySeq := setAt result.selectedScalarLossMaskBySeq i p true
    responseLmTokenCount := result.responseLmTokenCount + 1 }

/-- The counts and the entropy of the first step (`eagle3_student.py:804-808`). -/
def countNative (loss : TttLoss) (supported calculateEntropy : Bool) : TttResult :=
  { result with
    nativeTotalCount := result.nativeTotalCount + 1
    nativeSupportedCount := result.nativeSupportedCount + supported.toNat
    nativeTop1CorrectCount := result.nativeTop1CorrectCount + (supported && loss.top1Match).toNat
    entropyBySeq := if calculateEntropy && supported then
      setAt result.entropyBySeq i p loss.entropy else result.entropyBySeq }

@[simp]
theorem native_setScalar (logProb : ℚ) :
    (result.setScalar i p logProb).nativeCeLossBySeq = result.nativeCeLossBySeq := rfl

@[simp]
theorem native_countNative (loss : TttLoss) (supported calculateEntropy : Bool) :
    (result.countNative i p loss supported calculateEntropy).nativeCeLossBySeq =
      result.nativeCeLossBySeq := rfl

/-- The log-probability of a row whose scalar mask is set. -/
def scalarAt : Option ℚ :=
  if result.selectedScalarLossMaskBySeq i p then some (result.logProbsBySeq i p) else none

@[simp]
theorem scalarAt_addNative (loss : ℚ) (j r : ℕ) :
    (result.addNative i p loss).scalarAt j r = result.scalarAt j r := rfl

@[simp]
theorem scalarAt_countNative (loss : TttLoss) (supported calculateEntropy : Bool) (j r : ℕ) :
    (result.countNative i p loss supported calculateEntropy).scalarAt j r =
      result.scalarAt j r := rfl

@[simp]
theorem scalarAt_setScalar (logProb : ℚ) (j r : ℕ) : (result.setScalar i p logProb).scalarAt j r =
    if j = i ∧ r = p then some logProb else result.scalarAt j r := by
  by_cases h : j = i ∧ r = p
  · simp [scalarAt, setScalar, setAt, h]
  · simp [scalarAt, setScalar, setAt, h]

end TttResult

section Forward

variable (model : TttModel) (options : TttOptions) (inputs : ComposedInputs)

/-- `valid` : the label of position `p` at a step is in the response of sample `i`
(`eagle3_student.py:740-746`). -/
def tttValid (stepIdx i p : ℕ) : Prop :=
  let label := p + stepIdx + 2
  inputs.promptLengths.getD i 0 ≤ label ∧
    label < inputs.promptLengths.getD i 0 + inputs.responseLengths.getD i 0 ∧
    label < maskSum (inputs.attentionMask.getD i [])

instance (stepIdx i p : ℕ) : Decidable (tttValid inputs stepIdx i p) :=
  inferInstanceAs (Decidable (_ ∧ _))

/-- `torch.nonzero(valid)`. -/
def tttPositions (stepIdx : ℕ) : List (ℕ × ℕ) :=
  (List.range inputs.inputIds.length).flatMap fun i =>
    (List.range (inputs.inputIds.getD i []).length).filterMap fun p =>
      if tttValid inputs stepIdx i p then some (i, p) else none

/-- What a position adds at a step (`eagle3_student.py:789-808`). -/
def tttWrite (stepIdx : ℕ) (result : TttResult) (x : ℕ × ℕ) : TttResult :=
  let label := (inputs.inputIds.getD x.1 []).getD (x.2 + stepIdx + 2) 0
  let loss := model.lossAt x.1 stepIdx x.2 label
  let supported := model.nativeSupported x.1 (x.2 + stepIdx + 1)
  let result := if supported then
      result.addNative x.1 x.2 (options.tttStepWeight ^ stepIdx * loss.ceLoss)
    else result
  if stepIdx = 0 then
    let result := if model.scalarSupported label then
        result.setScalar x.1 x.2 loss.scalarLogProb
      else result
    result.countNative x.1 x.2 loss supported options.calculateEntropy
  else result

/-- One step, in chunks (`eagle3_student.py:750-810`). -/
def tttStep (stepIdx : ℕ) (result : TttResult) : TttResult :=
  let positions := chunks options.lmHeadChunkSize (tttPositions inputs stepIdx)
  { positions.foldl (fun result chunk => chunk.foldl (tttWrite model options inputs stepIdx) result)
      result with ranDraftForward := true }

/-- The loop over the steps, which stops at a later step without a label
(`eagle3_student.py:738-748`). -/
def tttSteps : List ℕ → TttResult → TttResult
  | [], result => result
  | stepIdx :: rest, result =>
    if 0 < stepIdx ∧ tttPositions inputs stepIdx = [] then result
    else tttSteps rest (tttStep model options inputs stepIdx result)

/-- `_run_eagle3_full_ttt_forward` (`eagle3_student.py:663-836`). Without a loss it adds a zero to
two of the tensors, for the gradient. -/
def runEagle3FullTttForward : TttResult :=
  tttSteps model options inputs (List.range options.tttLength) .zeros

/-! ## One cell over a run -/

theorem mem_tttPositions {stepIdx i p : ℕ} : (i, p) ∈ tttPositions inputs stepIdx ↔
    i < inputs.inputIds.length ∧ p < (inputs.inputIds.getD i []).length ∧
      tttValid inputs stepIdx i p := by
  simp only [tttPositions, List.mem_flatMap, List.mem_range, List.mem_filterMap]
  constructor
  · rintro ⟨i', hi, p', hp, h⟩
    split at h
    · obtain ⟨rfl, rfl⟩ := Prod.mk.inj (Option.some.inj h)
      exact ⟨hi, hp, ‹_›⟩
    · cases h
  · rintro ⟨hi, hp, hvalid⟩
    exact ⟨i, hi, p, hp, if_pos hvalid⟩

theorem nodup_tttPositions (stepIdx : ℕ) : (tttPositions inputs stepIdx).Nodup := by
  refine List.nodup_flatMap.mpr ⟨fun i _ => ?_, ?_⟩
  · refine List.nodup_range.filterMap fun p p' x hx hx' => ?_
    simp only [Option.mem_def, Option.ite_none_right_eq_some, Option.some.injEq] at hx hx'
    rw [← hx'.2] at hx
    exact (Prod.mk.inj hx.2).2
  · refine List.nodup_range.imp fun {i i'} hne => ?_
    intro x hx hx'
    obtain ⟨p, -, hp⟩ := List.mem_filterMap.mp hx
    obtain ⟨p', -, hp'⟩ := List.mem_filterMap.mp hx'
    simp only [Option.ite_none_right_eq_some, Option.some.injEq] at hp hp'
    rw [← hp'.2] at hp
    exact hne (Prod.mk.inj hp.2).1

/-- A step without a label is followed by none with one : the label of a position is that of the
next position one step before. -/
theorem tttPositions_eq_nil (hmask : ∀ i, maskSum (inputs.attentionMask.getD i []) ≤
      (inputs.inputIds.getD i []).length) {stepIdx : ℕ} (h : tttPositions inputs stepIdx = []) :
    ∀ {later : ℕ}, stepIdx ≤ later → tttPositions inputs later = [] := by
  intro later hle
  induction later, hle using Nat.le_induction with
  | base => exact h
  | succ later _ ih =>
    refine List.eq_nil_iff_forall_not_mem.mpr fun x hx => ?_
    obtain ⟨hi, -, hstart, hend, hseq⟩ := (mem_tttPositions inputs).mp hx
    have hnext : (x.1, x.2 + 1) ∈ tttPositions inputs later := by
      refine (mem_tttPositions inputs).mpr ⟨hi, ?_, ?_, ?_, ?_⟩
      · have := hmask x.1
        omega
      · simpa only [tttValid, Nat.add_right_comm, Nat.add_assoc, Nat.add_comm, Nat.add_left_comm]
          using hstart
      · omega
      · omega
    rw [ih] at hnext
    cases hnext

/-- What a position adds to the loss of its row at a step. -/
def tttTerm (stepIdx i p : ℕ) : ℚ :=
  if model.nativeSupported i (p + stepIdx + 1) then options.tttStepWeight ^ stepIdx *
    (model.lossAt i stepIdx p ((inputs.inputIds.getD i []).getD (p + stepIdx + 2) 0)).ceLoss
  else 0

theorem nativeCe_write (stepIdx : ℕ) (result : TttResult) (x : ℕ × ℕ) (i p : ℕ) :
    (tttWrite model options inputs stepIdx result x).nativeCeLossBySeq i p =
      result.nativeCeLossBySeq i p +
        if x = (i, p) then tttTerm model options inputs stepIdx i p else 0 := by
  have hwrite : (tttWrite model options inputs stepIdx result x).nativeCeLossBySeq i p =
      if model.nativeSupported x.1 (x.2 + stepIdx + 1) then
        setAt result.nativeCeLossBySeq x.1 x.2 (result.nativeCeLossBySeq x.1 x.2 +
          tttTerm model options inputs stepIdx x.1 x.2) i p
      else result.nativeCeLossBySeq i p := by
    simp only [tttWrite, tttTerm, apply_ite TttResult.nativeCeLossBySeq,
      TttResult.native_setScalar, TttResult.native_countNative, ite_self]
    split_ifs with hsupported
    · rfl
    · rfl
  rw [hwrite, setAt]
  by_cases hx : x = (i, p)
  · subst hx
    by_cases hsupported : model.nativeSupported i (p + stepIdx + 1)
    · simp [hsupported]
    · simp [hsupported, tttTerm]
  · have hne : ¬(i = x.1 ∧ p = x.2) := fun h => hx (Prod.ext h.1.symm h.2.symm)
    rw [if_neg hne, ite_self, if_neg hx, add_zero]

theorem scalarAt_write (stepIdx : ℕ) (result : TttResult) (x : ℕ × ℕ) (i p : ℕ) :
    (tttWrite model options inputs stepIdx result x).scalarAt i p =
      let label := (inputs.inputIds.getD i []).getD (p + 2) 0
      if x = (i, p) ∧ stepIdx = 0 ∧ model.scalarSupported label = true then
        some (model.lossAt i 0 p label).scalarLogProb
      else result.scalarAt i p := by
  have hnative : (tttWrite model options inputs stepIdx result x).scalarAt i p =
      if stepIdx = 0 ∧ model.scalarSupported
          ((inputs.inputIds.getD x.1 []).getD (x.2 + stepIdx + 2) 0) = true then
        if i = x.1 ∧ p = x.2 then some (model.lossAt x.1 stepIdx x.2
          ((inputs.inputIds.getD x.1 []).getD (x.2 + stepIdx + 2) 0)).scalarLogProb
        else result.scalarAt i p
      else result.scalarAt i p := by
    simp only [tttWrite, apply_ite (TttResult.scalarAt · i p), TttResult.scalarAt_addNative,
      TttResult.scalarAt_countNative, TttResult.scalarAt_setScalar, ite_self, ite_and]
  rw [hnative]
  by_cases hx : x = (i, p)
  · subst hx
    by_cases hstep : stepIdx = 0
    · subst hstep
      simp
    · simp [hstep]
  · have hne : ¬(i = x.1 ∧ p = x.2) := fun h => hx (Prod.ext h.1.symm h.2.symm)
    rw [if_neg hne, ite_self, if_neg fun h => hx h.1]

theorem nativeCe_foldl (stepIdx i p : ℕ) : ∀ {xs : List (ℕ × ℕ)} (result : TttResult), xs.Nodup →
    (xs.foldl (tttWrite model options inputs stepIdx) result).nativeCeLossBySeq i p =
      result.nativeCeLossBySeq i p +
        if (i, p) ∈ xs then tttTerm model options inputs stepIdx i p else 0
  | [], result, _ => by simp
  | x :: xs, result, hnodup => by
    obtain ⟨hx, hxs⟩ := List.nodup_cons.mp hnodup
    rw [List.foldl_cons, nativeCe_foldl stepIdx i p _ hxs, nativeCe_write]
    by_cases heq : x = (i, p)
    · subst heq
      simp [hx]
    · have hmem : (i, p) ∈ x :: xs ↔ (i, p) ∈ xs := by
        simp [Ne.symm heq]
      rw [if_neg heq, add_zero]
      simp only [hmem]

theorem scalarAt_foldl (stepIdx i p : ℕ) : ∀ (xs : List (ℕ × ℕ)) (result : TttResult),
    (xs.foldl (tttWrite model options inputs stepIdx) result).scalarAt i p =
      let label := (inputs.inputIds.getD i []).getD (p + 2) 0
      if (i, p) ∈ xs ∧ stepIdx = 0 ∧ model.scalarSupported label = true then
        some (model.lossAt i 0 p label).scalarLogProb
      else result.scalarAt i p
  | [], result => by simp
  | x :: xs, result => by
    rw [List.foldl_cons, scalarAt_foldl stepIdx i p xs, scalarAt_write]
    by_cases hhere : stepIdx = 0 ∧
        model.scalarSupported ((inputs.inputIds.getD i []).getD (p + 2) 0) = true
    · simp only [hhere, and_true, List.mem_cons, eq_comm (a := (i, p))]
      by_cases heq : x = (i, p)
      · simp [heq]
      · simp [heq]
    · simp only [hhere, and_false, if_false]

theorem tttStep_eq (stepIdx : ℕ) (result : TttResult) :
    tttStep model options inputs stepIdx result =
      { (tttPositions inputs stepIdx).foldl (tttWrite model options inputs stepIdx) result with
        ranDraftForward := true } := by
  rw [tttStep, ← List.foldl_flatten, flatten_chunks options.chunkSize_pos]

section Run

variable (hmask : ∀ i,
  maskSum (inputs.attentionMask.getD i []) ≤ (inputs.inputIds.getD i []).length)

include hmask

theorem nativeCe_steps (i p : ℕ) : ∀ {steps : List ℕ} (result : TttResult),
    steps.Pairwise (· ≤ ·) →
    (tttSteps model options inputs steps result).nativeCeLossBySeq i p =
      result.nativeCeLossBySeq i p + (steps.map fun stepIdx =>
        if (i, p) ∈ tttPositions inputs stepIdx then tttTerm model options inputs stepIdx i p
        else 0).sum
  | [], result, _ => by simp [tttSteps]
  | stepIdx :: rest, result, hsorted => by
    obtain ⟨hle, hrest⟩ := List.pairwise_cons.mp hsorted
    rw [tttSteps]
    split
    · -- the break : no later step has a label either
      rename_i hbreak
      have hnone : ∀ x ∈ (stepIdx :: rest).map (fun stepIdx =>
          if (i, p) ∈ tttPositions inputs stepIdx then tttTerm model options inputs stepIdx i p
          else 0), x = 0 := by
        intro x hx
        obtain ⟨later, hlater, rfl⟩ := List.mem_map.mp hx
        have hstep : stepIdx ≤ later := by
          rcases List.mem_cons.mp hlater with rfl | hlater
          · exact le_rfl
          · exact hle later hlater
        simp [tttPositions_eq_nil inputs hmask hbreak.2 hstep]
      rw [List.sum_eq_zero hnone, add_zero]
    · rw [nativeCe_steps i p _ hrest, tttStep_eq, List.map_cons, List.sum_cons, ← add_assoc]
      congr 1
      exact nativeCe_foldl model options inputs stepIdx i p result
        (nodup_tttPositions inputs stepIdx)

/-- The loss of every row after the forward. -/
theorem nativeCe_run (i p : ℕ) :
    (runEagle3FullTttForward model options inputs).nativeCeLossBySeq i p =
      ((List.range options.tttLength).map fun stepIdx =>
        if (i, p) ∈ tttPositions inputs stepIdx then tttTerm model options inputs stepIdx i p
        else 0).sum := by
  rw [runEagle3FullTttForward, nativeCe_steps model options inputs hmask i p _
    (List.pairwise_lt_range.imp Nat.le_of_lt)]
  exact zero_add _

omit hmask

theorem scalarAt_later (i p : ℕ) : ∀ {steps : List ℕ} (result : TttResult),
    (∀ stepIdx ∈ steps, 0 < stepIdx) →
    (tttSteps model options inputs steps result).scalarAt i p = result.scalarAt i p
  | [], result, _ => rfl
  | stepIdx :: rest, result, hpos => by
    rw [tttSteps]
    split
    · rfl
    · rw [scalarAt_later i p _ fun later hlater => hpos later (List.mem_cons_of_mem _ hlater),
        tttStep_eq]
      have hstep : stepIdx ≠ 0 := (hpos stepIdx List.mem_cons_self).ne'
      refine (scalarAt_foldl model options inputs stepIdx i p _ result).trans ?_
      exact if_neg fun h => hstep h.2.1

/-- The log-probability of every row after the forward. -/
theorem scalarAt_run (i p : ℕ) :
    (runEagle3FullTttForward model options inputs).scalarAt i p =
      let label := (inputs.inputIds.getD i []).getD (p + 2) 0
      if 0 < options.tttLength ∧ (i, p) ∈ tttPositions inputs 0 ∧
          model.scalarSupported label = true then
        some (model.lossAt i 0 p label).scalarLogProb
      else none := by
  rw [runEagle3FullTttForward]
  cases hlen : options.tttLength with
  | zero => rfl
  | succ n =>
    have hpos : ∀ stepIdx ∈ (List.range n).map Nat.succ, 0 < stepIdx := by
      simp
    rw [List.range_succ_eq_map, tttSteps, if_neg (by simp),
      scalarAt_later model options inputs i p _ hpos, tttStep_eq]
    refine (scalarAt_foldl model options inputs 0 i p _ _).trans ?_
    simp only [Nat.succ_pos, true_and]
    rfl

end Run

end Forward

/-! ## The response window -/

/-- A tensor over the sequences, row by row. -/
def sequenceRows {α : Type} (inputs : ComposedInputs) (tensor : ℕ → ℕ → α) : List (List α) :=
  (List.range inputs.inputIds.length).map fun i =>
    (List.range (inputs.inputIds.getD i []).length).map (tensor i)

namespace PaddedBatch

variable (b : PaddedBatch) (padTokenId : ℤ)

theorem length_valid_le {row : List PaddedToken} (h : row ∈ b.rows) :
    (valid row).length ≤ b.maxSeqLen :=
  le_maxOfLens (List.mem_map_of_mem h)

theorem compactIds_eq {i : ℕ} {row : List PaddedToken} (h : b.rows[i]? = some row) :
    (b.compactInputs padTokenId).inputIds[i]? =
      some (padTo padTokenId b.maxSeqLen ((valid row).map PaddedToken.id)) := by
  rw [compactInputs, List.getElem?_map, h]
  rfl

theorem length_compactIds {i : ℕ} {row : List PaddedToken} (h : b.rows[i]? = some row) :
    ((b.compactInputs padTokenId).inputIds.getD i []).length = b.maxSeqLen := by
  rw [List.getD_eq_getElem?_getD, b.compactIds_eq padTokenId h, Option.getD_some, length_padTo,
    List.length_map, Nat.max_eq_right (b.length_valid_le (List.mem_of_getElem? h))]

theorem getD_compactIds {i k : ℕ} {row : List PaddedToken} (h : b.rows[i]? = some row)
    (hk : k < (valid row).length) :
    ((b.compactInputs padTokenId).inputIds.getD i []).getD k 0 =
      ((valid row).map PaddedToken.id).getD k 0 := by
  rw [List.getD_eq_getElem?_getD (l := (b.compactInputs padTokenId).inputIds),
    b.compactIds_eq padTokenId h, Option.getD_some, padTo,
    List.getD_append _ _ _ _ (by rwa [List.length_map])]

theorem maskSum_compact {i : ℕ} {row : List PaddedToken} (h : b.rows[i]? = some row) :
    maskSum ((b.compactInputs padTokenId).attentionMask.getD i []) = (valid row).length := by
  rw [compactInputs, List.getD_eq_getElem?_getD, List.getElem?_map, h, Option.map_some,
    Option.getD_some, maskSum_lengthMask (b.length_valid_le (List.mem_of_getElem? h))]

theorem maskSum_compact_le (i : ℕ) :
    maskSum ((b.compactInputs padTokenId).attentionMask.getD i []) ≤
      ((b.compactInputs padTokenId).inputIds.getD i []).length := by
  cases h : b.rows[i]? with
  | some row =>
    rw [b.maskSum_compact padTokenId h, b.length_compactIds padTokenId h]
    exact b.length_valid_le (List.mem_of_getElem? h)
  | none => simp [compactInputs, h, maskSum]

/-- The positions of a step are those with a label in the response. -/
theorem mem_tttPositions_compact {stepIdx i p : ℕ} :
    (i, p) ∈ tttPositions (b.compactInputs padTokenId) stepIdx ↔
      ∃ row, b.rows[i]? = some row ∧ b.promptLen row ≤ p + stepIdx + 2 ∧
        p + stepIdx + 2 < b.promptLen row + b.responseLen row := by
  rw [mem_tttPositions]
  cases h : b.rows[i]? with
  | none =>
    have hlen : ¬i < (b.compactInputs padTokenId).inputIds.length := by
      have := List.getElem?_eq_none_iff.mp h
      simpa [compactInputs] using this
    simp [hlen]
  | some row =>
    have hi : i < (b.compactInputs padTokenId).inputIds.length := by
      have := (List.getElem?_eq_some_iff.mp h).1
      simpa [compactInputs] using this
    have hle := b.length_valid_le (List.mem_of_getElem? h)
    have hsum := b.promptLen_add_responseLen row
    have hp : (b.compactInputs padTokenId).promptLengths.getD i 0 = b.promptLen row := by
      simp [compactInputs, h]
    have hr : (b.compactInputs padTokenId).responseLengths.getD i 0 = b.responseLen row := by
      simp [compactInputs, h]
    rw [b.length_compactIds padTokenId h, tttValid, hp, hr, b.maskSum_compact padTokenId h]
    simp only [Option.some.injEq, exists_eq_left']
    omega

theorem sequenceRows_compact {α : Type} (tensor : ℕ → ℕ → α) :
    sequenceRows (b.compactInputs padTokenId) tensor =
      (List.range b.rows.length).map fun i => (List.range b.maxSeqLen).map (tensor i) := by
  have hlen : (b.compactInputs padTokenId).inputIds.length = b.rows.length := by
    simp [compactInputs]
  rw [sequenceRows, hlen]
  refine List.map_congr_left fun i hi => ?_
  have hrow := List.getElem?_eq_getElem (List.mem_range.mp hi)
  rw [b.length_compactIds padTokenId hrow]

/-- The response windows of a tensor over the sequences. -/
theorem sequenceRows_window (hprompt : ∀ row ∈ b.rows, 1 ≤ b.promptLen row) {batch : ComposedBatch}
    (hbatch : batch ∈ [b.toBatch padTokenId, leftRight2NoPadding (b.toBatch padTokenId)])
    (tensor : ℕ → ℕ → ℚ) :
    ∃ window, noPadding2Padding 0 (formatDflashSequenceOutput batch
        (sequenceRows (b.compactInputs padTokenId) tensor)) batch = .ok window ∧
      window.length = b.rows.length ∧ ∀ i row, b.rows[i]? = some row →
        ∃ outRow, window[i]? = some outRow ∧ outRow.length = b.responseWidth ∧
          ∀ j < b.responseWidth, outRow[j]? = if j < b.responseLen row then
            ((List.range b.maxSeqLen).map (tensor i))[b.promptLen row + j - 1]? else some 0 := by
  rw [sequenceRows_compact]
  have hrows : ((List.range b.rows.length).map fun i =>
      (List.range b.maxSeqLen).map (tensor i)).length = b.rows.length := by simp
  have hwidth : ∀ xs ∈ (List.range b.rows.length).map fun i =>
      (List.range b.maxSeqLen).map (tensor i), xs.length = b.maxSeqLen := by
    intro xs hxs
    obtain ⟨i, -, rfl⟩ := List.mem_map.mp hxs
    simp
  obtain ⟨window, hok, hlen, hcells⟩ :=
    b.noPadding2Padding_format padTokenId hprompt (0 : ℚ) hrows hwidth hbatch
  refine ⟨window, hok, hlen, fun i row hrow => hcells i row _ hrow ?_⟩
  have hi := (List.getElem?_eq_some_iff.mp hrow).1
  simp [hi]

section Tensor

variable {b} {tensor : ℕ → ℕ → ℚ} (hprompt : ∀ row ∈ b.rows, 1 ≤ b.promptLen row)
  {batch : ComposedBatch}
  (hbatch : batch ∈ [b.toBatch padTokenId, leftRight2NoPadding (b.toBatch padTokenId)])

include hprompt hbatch

/-- A tensor whose values are inside the window keeps their sum. -/
theorem sum_window_eq (hzero : ∀ i row, b.rows[i]? = some row → ∀ r,
      r < b.promptLen row - 1 ∨ b.promptLen row - 1 + b.responseLen row ≤ r → tensor i r = 0) :
    ∃ window, noPadding2Padding 0 (formatDflashSequenceOutput batch
        (sequenceRows (b.compactInputs padTokenId) tensor)) batch = .ok window ∧
      (window.map List.sum).sum =
        ((sequenceRows (b.compactInputs padTokenId) tensor).map List.sum).sum := by
  obtain ⟨window, hok, hlen, hcells⟩ := b.sequenceRows_window padTokenId hprompt hbatch tensor
  refine ⟨window, hok, ?_⟩
  rw [sequenceRows_compact, List.map_map]
  congr 1
  refine List.ext_getElem (by simp [hlen]) fun i hi _ => ?_
  rw [List.length_map] at hi
  have hrow := List.getElem?_eq_getElem (hlen ▸ hi)
  have hmem := List.mem_of_getElem? hrow
  obtain ⟨outRow, hout, hwidth, hvalues⟩ := hcells i _ hrow
  obtain rfl := Option.some.inj ((List.getElem?_eq_getElem hi).symm.trans hout)
  rw [List.getElem_map, List.getElem_map, List.getElem_range, Function.comp_apply]
  refine sum_window (hprompt _ hmem) (b.responseLen_le hmem) hwidth hvalues ?_
    fun r x hx hr => ?_
  · rw [List.length_map, List.length_range, b.promptLen_add_responseLen]
    exact b.length_valid_le hmem
  · obtain ⟨hlt, rfl⟩ := List.getElem?_eq_some_iff.mp hx
    rw [List.getElem_map, List.getElem_range]
    exact hzero i _ hrow r hr

variable {i p : ℕ} {row : List PaddedToken} (hrow : b.rows[i]? = some row)
  (hp : p < b.promptLen row - 1) (hzero : ∀ j q, ¬(j = i ∧ q = p) → tensor j q = 0)

include hrow hp hzero

/-- A value before the window does not reach it. -/
theorem sum_window_lost {window : List (List ℚ)}
    (hwindow : noPadding2Padding 0 (formatDflashSequenceOutput batch
      (sequenceRows (b.compactInputs padTokenId) tensor)) batch = .ok window) :
    (window.map List.sum).sum = 0 := by
  obtain ⟨window', hok, hlen, hcells⟩ := b.sequenceRows_window padTokenId hprompt hbatch tensor
  obtain rfl : window' = window := Except.ok.inj (hok.symm.trans hwindow)
  refine List.sum_eq_zero fun x hx => ?_
  obtain ⟨outRow, hmem, rfl⟩ := List.mem_map.mp hx
  obtain ⟨j, hj, rfl⟩ := List.getElem_of_mem hmem
  have hrow' := List.getElem?_eq_getElem (hlen ▸ hj)
  obtain ⟨outRow', hout, hwidth, hvalues⟩ := hcells j _ hrow'
  obtain rfl := Option.some.inj ((List.getElem?_eq_getElem hj).symm.trans hout)
  refine List.sum_eq_zero fun x hx => ?_
  obtain ⟨k, hk, rfl⟩ := List.getElem_of_mem hx
  have hvalue := hvalues k (hwidth ▸ hk)
  rw [List.getElem?_eq_getElem hk] at hvalue
  split at hvalue
  · obtain ⟨hlt, hvalue⟩ := List.getElem?_eq_some_iff.mp hvalue.symm
    rw [List.getElem_map, List.getElem_range] at hvalue
    rw [← hvalue]
    refine hzero _ _ ?_
    rintro ⟨rfl, hrowIdx⟩
    obtain rfl := Option.some.inj (hrow.symm.trans hrow')
    omega
  · exact Option.some.inj hvalue

omit hprompt hbatch

theorem sum_sequenceRows_pos (hpos : 0 < tensor i p) :
    0 < ((sequenceRows (b.compactInputs padTokenId) tensor).map List.sum).sum := by
  have hnonneg : ∀ j, ∀ x ∈ (List.range b.maxSeqLen).map (tensor j), 0 ≤ x := by
    intro j x hx
    obtain ⟨q, -, rfl⟩ := List.mem_map.mp hx
    by_cases h : j = i ∧ q = p
    · rw [h.1, h.2]
      exact hpos.le
    · rw [hzero j q h]
  have hfit : p < b.maxSeqLen := by
    have := b.promptLen_add_responseLen row
    have := b.length_valid_le (List.mem_of_getElem? hrow)
    omega
  rw [sequenceRows_compact, List.map_map]
  calc 0 < tensor i p := hpos
    _ ≤ ((List.range b.maxSeqLen).map (tensor i)).sum :=
      List.single_le_sum (hnonneg i) _ (List.mem_map_of_mem (List.mem_range.mpr hfit))
    _ ≤ _ := List.single_le_sum (fun x hx => by
        obtain ⟨j, -, rfl⟩ := List.mem_map.mp hx
        exact List.sum_nonneg (hnonneg j)) _
      (List.mem_map.mpr ⟨i, List.mem_range.mpr (List.getElem?_eq_some_iff.mp hrow).1, rfl⟩)

end Tensor

variable (nativeSupported : ℕ → ℕ → Bool) (scalarSupported : ℤ → Bool) (options : TttOptions)

/-- Whatever the losses of the models are, no loss is outside the response window, and a row whose
scalar mask is set holds the log-probability of the next token. -/
def TttAligned (batch : ComposedBatch) : Prop :=
  ∀ lossAt : ℕ → ℕ → ℕ → ℤ → TttLoss,
    let inputs := b.compactInputs padTokenId
    let result := runEagle3FullTttForward ⟨lossAt, nativeSupported, scalarSupported⟩ options inputs
    let losses := sequenceRows inputs result.nativeCeLossBySeq
    (∃ window, noPadding2Padding 0 (formatDflashSequenceOutput batch losses) batch = .ok window ∧
      (window.map List.sum).sum = (losses.map List.sum).sum) ∧
    ∀ i r logProb, result.scalarAt i r = some logProb →
      logProb = (lossAt i 0 r ((inputs.inputIds.getD i []).getD (r + 1) 0)).scalarLogProb

/-- A sample the rows fit : the prompt has one token, or the target predicts no token of the draft
vocabulary for the first `ttt_length` tokens of the response ; and every response token of the
draft vocabulary repeats the token before it. -/
structure TttFits (i : ℕ) (row : List PaddedToken) : Prop where
  native : 2 ≤ b.promptLen row → ∀ label, b.promptLen row ≤ label →
    label < b.promptLen row + b.responseLen row → label < b.promptLen row + options.tttLength →
    nativeSupported i (label - 1) = false
  scalar : 0 < options.tttLength → ∀ label, 2 ≤ label → b.promptLen row ≤ label →
    label < b.promptLen row + b.responseLen row →
    scalarSupported (((valid row).map PaddedToken.id).getD label 0) = true →
    ((valid row).map PaddedToken.id).getD label 0
      = ((valid row).map PaddedToken.id).getD (label - 1) 0

section Window

variable {b} {nativeSupported scalarSupported options} {i : ℕ} {row : List PaddedToken}
  (hrow : b.rows[i]? = some row) (lossAt : ℕ → ℕ → ℕ → ℤ → TttLoss)

include hrow

/-- A row outside the window has no loss where the sample fits. -/
theorem nativeCe_eq_zero (hfits : b.TttFits nativeSupported scalarSupported options i row) {r : ℕ}
    (hr : r < b.promptLen row - 1 ∨ b.promptLen row - 1 + b.responseLen row ≤ r) :
    (runEagle3FullTttForward ⟨lossAt, nativeSupported, scalarSupported⟩ options
      (b.compactInputs padTokenId)).nativeCeLossBySeq i r = 0 := by
  rw [nativeCe_run _ _ _ (b.maskSum_compact_le padTokenId)]
  refine List.sum_eq_zero fun x hx => ?_
  obtain ⟨stepIdx, hstep, rfl⟩ := List.mem_map.mp hx
  rw [List.mem_range] at hstep
  split
  · rename_i hmem
    obtain ⟨row', hrow', hstart, hend⟩ := (b.mem_tttPositions_compact padTokenId).mp hmem
    obtain rfl := Option.some.inj (hrow.symm.trans hrow')
    have hunsupported := hfits.native (by omega) (r + stepIdx + 2) hstart hend (by omega)
    exact if_neg (by simpa using hunsupported)
  · rfl

end Window

/-- The losses of a model that is wrong at one row only. -/
def lossAtRow (i p : ℕ) : ℕ → ℕ → ℕ → ℤ → TttLoss :=
  fun j _ q _ => ⟨if j = i ∧ q = p then 1 else 0, 0, false, 0⟩

section LossAtRow

variable {b} {nativeSupported scalarSupported options} {i : ℕ} {row : List PaddedToken}

theorem tttTerm_lossAtRow (inputs : ComposedInputs) (p stepIdx j q : ℕ) :
    tttTerm ⟨lossAtRow i p, nativeSupported, scalarSupported⟩ options inputs stepIdx j q =
      if (j = i ∧ q = p) ∧ nativeSupported j (q + stepIdx + 1) = true then
        options.tttStepWeight ^ stepIdx else 0 := by
  simp only [tttTerm, lossAtRow]
  by_cases hhere : j = i ∧ q = p
  · simp [hhere]
  · simp [hhere]

/-- The loss of the row is positive where a label of the response is supported. -/
theorem nativeCe_lossAtRow_pos {p stepIdx : ℕ} (hstep : stepIdx < options.tttLength)
    (hmem : (i, p) ∈ tttPositions (b.compactInputs padTokenId) stepIdx)
    (hsupported : nativeSupported i (p + stepIdx + 1) = true) :
    0 < (runEagle3FullTttForward ⟨lossAtRow i p, nativeSupported, scalarSupported⟩ options
      (b.compactInputs padTokenId)).nativeCeLossBySeq i p := by
  rw [nativeCe_run _ _ _ (b.maskSum_compact_le padTokenId)]
  simp only [tttTerm_lossAtRow]
  refine lt_of_lt_of_le (pow_pos options.stepWeight_pos stepIdx)
    (List.single_le_sum (fun x hx => ?_) _ (List.mem_map.mpr
      ⟨stepIdx, List.mem_range.mpr hstep, ?_⟩))
  · obtain ⟨later, -, rfl⟩ := List.mem_map.mp hx
    have := (pow_pos options.stepWeight_pos later).le
    split_ifs
    · exact this
    · exact le_rfl
    · exact le_rfl
  · simp [hmem, hsupported]

theorem nativeCe_lossAtRow_zero {p j q : ℕ} (h : ¬(j = i ∧ q = p)) :
    (runEagle3FullTttForward ⟨lossAtRow i p, nativeSupported, scalarSupported⟩ options
      (b.compactInputs padTokenId)).nativeCeLossBySeq j q = 0 := by
  rw [nativeCe_run _ _ _ (b.maskSum_compact_le padTokenId)]
  simp only [tttTerm_lossAtRow]
  refine List.sum_eq_zero fun x hx => ?_
  obtain ⟨stepIdx, -, rfl⟩ := List.mem_map.mp hx
  rw [if_neg (c := (j = i ∧ q = p) ∧ _) fun h' => h h'.1, ite_self]

/-- A loss before the window does not reach it. -/
theorem TttAligned.native (hprompt : ∀ row ∈ b.rows, 1 ≤ b.promptLen row) {batch : ComposedBatch}
    (hbatch : batch ∈ [b.toBatch padTokenId, leftRight2NoPadding (b.toBatch padTokenId)])
    (h : b.TttAligned padTokenId nativeSupported scalarSupported options batch)
    (hrow : b.rows[i]? = some row) (htwo : 2 ≤ b.promptLen row) {label : ℕ}
    (hstart : b.promptLen row ≤ label) (hend : label < b.promptLen row + b.responseLen row)
    (hsteps : label < b.promptLen row + options.tttLength) :
    nativeSupported i (label - 1) = false := by
  by_contra hsupported
  rw [Bool.not_eq_false] at hsupported
  obtain ⟨⟨window, hwindow, hsum⟩, -⟩ := h (lossAtRow i (b.promptLen row - 2))
  have hpos : 0 < (runEagle3FullTttForward ⟨lossAtRow i (b.promptLen row - 2), nativeSupported,
      scalarSupported⟩ options (b.compactInputs padTokenId)).nativeCeLossBySeq i
        (b.promptLen row - 2) := by
    have hstep : label - b.promptLen row < options.tttLength := by omega
    refine nativeCe_lossAtRow_pos padTokenId hstep
      ((b.mem_tttPositions_compact padTokenId).mpr ⟨row, hrow, by omega, by omega⟩) ?_
    have hlabel : b.promptLen row - 2 + (label - b.promptLen row) + 1 = label - 1 := by omega
    rwa [hlabel]
  have hbefore : b.promptLen row - 2 < b.promptLen row - 1 := by omega
  have htotal := sum_sequenceRows_pos padTokenId hrow hbefore
    (fun j q hne => nativeCe_lossAtRow_zero padTokenId hne) hpos
  have hlost := sum_window_lost padTokenId hprompt hbatch hrow hbefore
    (fun j q hne => nativeCe_lossAtRow_zero padTokenId hne) hwindow
  exact absurd (hsum.symm.trans hlost) htotal.ne'

/-- A row holds the log-probability of the token after the next one. -/
theorem TttAligned.scalar {batch : ComposedBatch}
    (h : b.TttAligned padTokenId nativeSupported scalarSupported options batch)
    (hrow : b.rows[i]? = some row) (hsteps : 0 < options.tttLength) {label : ℕ} (htwo : 2 ≤ label)
    (hstart : b.promptLen row ≤ label) (hend : label < b.promptLen row + b.responseLen row)
    (hsupported : scalarSupported (((valid row).map PaddedToken.id).getD label 0) = true) :
    ((valid row).map PaddedToken.id).getD label 0 =
      ((valid row).map PaddedToken.id).getD (label - 1) 0 := by
  have hlen := b.promptLen_add_responseLen row
  have hlabel := b.getD_compactIds padTokenId hrow (hlen ▸ hend)
  have hprev := b.getD_compactIds padTokenId hrow (k := label - 1) (by omega)
  -- the log-probability tells the label from every other token
  obtain ⟨-, hscalar⟩ := h fun _ _ _ token =>
    ⟨0, if token = ((valid row).map PaddedToken.id).getD label 0 then -1 else -2, false, 0⟩
  have hmem : (i, label - 2) ∈ tttPositions (b.compactInputs padTokenId) 0 :=
    (b.mem_tttPositions_compact padTokenId).mpr ⟨row, hrow, by omega, by omega⟩
  have hidx : label - 2 + 2 = label := by omega
  have hidx' : label - 2 + 1 = label - 1 := by omega
  have hrow' := hscalar i (label - 2) (-1) (by
    rw [scalarAt_run]
    simp only [hidx, hlabel, hmem, hsteps, hsupported, true_and, if_true])
  rw [hidx', hprev] at hrow'
  by_contra hne
  rw [if_neg (Ne.symm hne)] at hrow'
  exact absurd hrow' (by decide)

end LossAtRow

/-- Every batch whose prompts are not empty, number of steps and pattern of supported tokens : the
losses of the full-sequence forward are inside the response window and its rows hold the
log-probability of the next token exactly where every sample fits. -/
theorem ttt_rows_aligned_iff (hprompt : ∀ row ∈ b.rows, 1 ≤ b.promptLen row)
    {batch : ComposedBatch}
    (hbatch : batch ∈ [b.toBatch padTokenId, leftRight2NoPadding (b.toBatch padTokenId)]) :
    b.TttAligned padTokenId nativeSupported scalarSupported options batch ↔
      ∀ i row, b.rows[i]? = some row → b.TttFits nativeSupported scalarSupported options i row := by
  constructor
  · intro h i row hrow
    refine ⟨fun htwo label hstart hend hsteps => ?_, fun hsteps label htwo hstart hend hs => ?_⟩
    · exact h.native padTokenId hprompt hbatch hrow htwo hstart hend hsteps
    · exact h.scalar padTokenId hrow hsteps htwo hstart hend hs
  · intro hfits lossAt
    refine ⟨sum_window_eq padTokenId hprompt hbatch fun i row hrow r hr =>
      nativeCe_eq_zero padTokenId hrow lossAt (hfits i row hrow) hr, ?_⟩
    intro i r logProb hscalar
    rw [scalarAt_run] at hscalar
    obtain ⟨⟨hsteps, hmem, hsupported⟩, hlogProb⟩ := Option.ite_none_right_eq_some.mp hscalar
    obtain ⟨row, hrow, hstart, hend⟩ := (b.mem_tttPositions_compact padTokenId).mp hmem
    have hlen := b.promptLen_add_responseLen row
    have hlabel := b.getD_compactIds padTokenId hrow (k := r + 2) (by omega)
    have hprev := b.getD_compactIds padTokenId hrow (k := r + 1) (by omega)
    have hrepeat := (hfits i row hrow).scalar hsteps (r + 2) (by omega) hstart hend
      (hlabel ▸ hsupported)
    rw [← Option.some.inj hlogProb, hlabel, hrepeat, hprev]
    rfl

/-- A prompt of two tokens and a response of two. -/
def twoTokenPrompt : PaddedBatch where
  promptWidth := 2
  responseWidth := 2
  rows := [[⟨11, 0, true⟩, ⟨12, 1, true⟩, ⟨13, 2, true⟩, ⟨14, 3, true⟩]]
  widths := by decide
  nonempty := by decide

/-- The default weight of a step, over a number of steps. -/
def defaultOptions (tttLength : ℕ) : TttOptions :=
  ⟨tttLength, 4 / 5, 2048, false, by decide +kernel, by decide⟩

/-- The losses of the two response tokens are at the rows `0` and `1`, and the window starts at
row `1` ; row `1` holds the log-probability of the token `14`, not of `13`. -/
theorem ttt_rows_lost : ¬twoTokenPrompt.TttAligned 9 (fun _ _ => true) (fun _ => true)
    (defaultOptions 1) (twoTokenPrompt.toBatch 9) := by
  intro h
  have hprompt : ∀ row ∈ twoTokenPrompt.rows, 1 ≤ twoTokenPrompt.promptLen row := by decide
  have hrow : twoTokenPrompt.rows[0]? =
    some [⟨11, 0, true⟩, ⟨12, 1, true⟩, ⟨13, 2, true⟩, ⟨14, 3, true⟩] := rfl
  have hstart : twoTokenPrompt.promptLen
    [⟨11, 0, true⟩, ⟨12, 1, true⟩, ⟨13, 2, true⟩, ⟨14, 3, true⟩] ≤ 2 := by decide
  have hnative := h.native 9 hprompt List.mem_cons_self hrow (by decide) hstart (by decide)
    (by decide)
  cases hnative

/-- A prompt of one token, and a response that repeats its first token. -/
def oneTokenPrompt : PaddedBatch where
  promptWidth := 1
  responseWidth := 3
  rows := [[⟨11, 0, true⟩, ⟨12, 1, true⟩, ⟨12, 2, true⟩, ⟨12, 3, true⟩]]
  widths := by decide
  nonempty := by decide

theorem ttt_rows_aligned_oneTokenPrompt :
    oneTokenPrompt.TttAligned 9 (fun _ _ => true) (fun _ => true) (defaultOptions 3)
      (leftRight2NoPadding (oneTokenPrompt.toBatch 9)) := by
  refine (ttt_rows_aligned_iff oneTokenPrompt 9 _ _ (defaultOptions 3) (by decide)
    (List.mem_cons_of_mem _ (List.mem_singleton_self _))).mpr fun i row hrow => ?_
  obtain rfl : [⟨11, 0, true⟩, ⟨12, 1, true⟩, ⟨12, 2, true⟩, ⟨12, 3, true⟩] = row :=
    List.mem_singleton.mp (List.mem_of_getElem? hrow) |>.symm
  refine ⟨fun htwo => absurd htwo (by decide), fun _ label htwo _ hend _ => ?_⟩
  have hlt : label < 4 := hend
  interval_cases label
  · rfl
  · rfl

end PaddedBatch

end DraftOpd
