import Mathlib.Analysis.SpecialFunctions.Log.Basic
import DraftOpd.TensorOps
import DraftOpd.TopK

/-!
# The target distribution of a sampling verify

A sampling verify accepts drafts against `target_probs`, which it builds by a sparse path over
the largest logits when every request of the batch limits them, and by a dense one otherwise.
The log-probabilities it records for training are computed apart, by the dense path.

`sparseTargetProbs_eq_dense` : on a row of distinct logits both paths build the same
distribution. `target_distribution_eq` says it of the batch, with the arguments `verify` passes,
and that what is recorded for a candidate is its log-probability under the distribution it was
accepted or rejected with.

The logits are exact reals. The renormalising kernels are a parameter (`RenormKernels`), with
what is assumed of them in `RenormKernels.Lawful`.
-/

namespace DraftOpd

/-! ## The inputs -/

/-- A request's entries of `temperatures`, `top_ks` and `top_ps`. -/
structure SamplingRow where
  temperature : ℝ
  topK : ℕ
  topP : ℝ

/-- What the verify step reads of `SamplingBatchInfo`. -/
structure SamplingBatchInfo where
  rows : List SamplingRow
  needTopKSampling : Bool
  needTopPSampling : Bool

/-- What `SamplingParams` leaves of a request's parameters (`sampling_params.py:97-117`) : a
temperature of zero is replaced by one, and a negative `top_k` by `TOP_K_ALL`. -/
structure SamplingRow.Verified (row : SamplingRow) : Prop where
  temperature_pos : 0 < row.temperature
  one_le_topK : 1 ≤ row.topK

/-- `top_k_renorm_prob` and `top_p_renorm_prob`, on a row of any length. -/
structure RenormKernels where
  topKRenormProb : (n : ℕ) → (Fin n → ℝ) → ℕ → Fin n → ℝ
  topPRenormProb : (n : ℕ) → (Fin n → ℝ) → ℝ → Fin n → ℝ

/-- The first keeps the `k` largest entries of a row and renormalises, the second commutes with
permutations and with appending zeros. -/
structure RenormKernels.Lawful (kernels : RenormKernels) : Prop where
  top_k : ∀ (n : ℕ) (p : Fin n → ℝ) (k : ℕ), (∀ i, 0 < p i) → Function.Injective p → 1 ≤ k →
    kernels.topKRenormProb n p k = keepTop p k
  top_p : ∀ topP : ℝ, Equivariant fun n p => kernels.topPRenormProb n p topP

/-! ## The two paths -/

section Paths

variable {vocabSize : ℕ} (kernels : RenormKernels) (info : SamplingBatchInfo)

/-- `next_token_logits / expanded_temperature`. -/
noncomputable def scaledLogits (row : SamplingRow) (logits : Fin vocabSize → ℝ)
    (i : Fin vocabSize) : ℝ :=
  logits i / row.temperature

/-- The dense path of a row (`dflash_utils.py:884-896`, `dflash_utils.py:726-737`). -/
noncomputable def denseTargetProbs (row : SamplingRow) (logits : Fin vocabSize → ℝ) :
    Fin vocabSize → ℝ :=
  let probs := softmax fun i => (scaledLogits row logits i : WithBot ℝ)
  let probs := if info.needTopKSampling then
    kernels.topKRenormProb vocabSize probs row.topK else probs
  if info.needTopPSampling then kernels.topPRenormProb vocabSize probs row.topP else probs

/-- The sparse path of a row (`dflash_utils.py:864-881`). -/
noncomputable def sparseTargetProbs {maxTopK : ℕ} (h : maxTopK ≤ vocabSize)
    (uniformTopKValue : Option ℕ) (row : SamplingRow) (logits : Fin vocabSize → ℝ) :
    Fin vocabSize → ℝ :=
  let scaled := scaledLogits row logits
  let repeatedTopK := min (max row.topK 1) vocabSize
  let topkIndices := topIndices scaled h
  let topkLogits : Fin maxTopK → WithBot ℝ := fun r => (scaled (topkIndices r) : WithBot ℝ)
  let topkLogits : Fin maxTopK → WithBot ℝ := if uniformTopKValue = some maxTopK then topkLogits
    else fun r => if (r : ℕ) < repeatedTopK then topkLogits r else ⊥
  let topkProbs := softmax topkLogits
  let topkProbs := if info.needTopPSampling then
    kernels.topPRenormProb maxTopK topkProbs row.topP else topkProbs
  Function.extend topkIndices topkProbs 0

/-- `max_top_k` as the sparse path uses it (`dflash_utils.py:855-862`). -/
def clampMaxTopK (vocabSize : ℕ) (repeatedTopKs : List ℕ) (maxTopK : Option ℕ) : ℕ :=
  let maxTopK := maxTopK.getD (repeatedTopKs.foldr max 0)
  if maxTopK < 1 then 1 else if vocabSize < maxTopK then vocabSize else maxTopK

/-- `target_probs` of `compute_dflash_sampling_accept_len_and_bonus`, one row after another
(`dflash_utils.py:840-896`). -/
noncomputable def computeTargetProbs (draftTokenNum : ℕ) (useSparseTopk : Bool)
    (maxTopK uniformTopKValue : Option ℕ) (nextTokenLogits : List (Fin vocabSize → ℝ)) :
    List (Fin vocabSize → ℝ) :=
  let expanded := (repeatInterleave info.rows draftTokenNum).zip nextTokenLogits
  let repeatedTopKs := (repeatInterleave info.rows draftTokenNum).map fun row =>
    min (max row.topK 1) vocabSize
  let maxTopK := clampMaxTopK vocabSize repeatedTopKs maxTopK
  if h : (useSparseTopk ∧ info.needTopKSampling) ∧ 0 < maxTopK ∧ maxTopK < vocabSize then
    expanded.map fun x => sparseTargetProbs kernels info h.2.2.le uniformTopKValue x.1 x.2
  else expanded.map fun x => denseTargetProbs kernels info x.1 x.2

/-- `compute_dflash_candidate_logprobs` (`dflash_utils.py:693-749`). -/
noncomputable def computeDflashCandidateLogprobs (tiny : ℝ) (draftTokenNum : ℕ)
    (useSamplingDistribution : Bool) (candidates : List (List (Fin vocabSize)))
    (nextTokenLogits : List (Fin vocabSize → ℝ)) : List (List ℝ) :=
  if draftTokenNum ≤ 1 then candidates.map fun _ => []
  else
    let logProbs : List (Fin vocabSize → ℝ) :=
      if useSamplingDistribution then
        ((repeatInterleave info.rows draftTokenNum).zip nextTokenLogits).map fun x i =>
          Real.log (max (denseTargetProbs kernels info x.1 x.2 i) tiny)
      else nextTokenLogits.map fun logits i =>
        Real.log (softmax (fun j => (logits j : WithBot ℝ)) i)
    List.zipWith (fun rows ids => List.zipWith (fun row id => row id) rows.dropLast ids.tail)
      (viewBlocks candidates.length draftTokenNum logProbs) candidates

end Paths

/-- `max_top_k` as `verify` passes it (`dflash_info.py:365`). -/
def verifyMaxTopK (rows : List SamplingRow) : Option ℕ :=
  some (max ((rows.map SamplingRow.topK).foldr max 0) 1)

/-- `uniform_top_k_value` as `verify` passes it (`dflash_info.py:366-370`). -/
def verifyUniformTopK (rows : List SamplingRow) : Option ℕ :=
  match rows.map SamplingRow.topK with
  | [] => none
  | topK :: topKs => if topKs.all fun k => k == topK then some topK else none

/-! ## A row -/

section Row

variable {vocabSize : ℕ} {kernels : RenormKernels} {info : SamplingBatchInfo} {row : SamplingRow}
  {logits : Fin vocabSize → ℝ}

theorem scaledLogits_injective (h : row.Verified) (hlogits : Function.Injective logits) :
    Function.Injective (scaledLogits row logits) := by
  intro i j hij
  exact hlogits ((div_left_inj' h.temperature_pos.ne').mp hij)

/-- The masked logits of the sparse path. -/
theorem sparse_logits_eq {maxTopK : ℕ} (hmax : maxTopK ≤ vocabSize) {uniformTopKValue : Option ℕ}
    (h : row.Verified) (huniform : uniformTopKValue = some maxTopK → row.topK = maxTopK) :
    (if uniformTopKValue = some maxTopK then
      fun r => (scaledLogits row logits (topIndices (scaledLogits row logits) hmax r) : WithBot ℝ)
    else fun r : Fin maxTopK => if (r : ℕ) < min (max row.topK 1) vocabSize then
      (scaledLogits row logits (topIndices (scaledLogits row logits) hmax r) : WithBot ℝ) else ⊥) =
      topLogits (scaledLogits row logits) hmax row.topK := by
  have hk := h.one_le_topK
  split_ifs with huni
  · funext r
    exact (if_pos (r.isLt.trans_eq (huniform huni).symm)).symm
  · funext r
    have hr := r.isLt
    refine if_congr ?_ rfl rfl
    omega

/-- The sparse path builds the distribution of the dense one, when no entry a request keeps lies
past `max_top_k`. -/
theorem sparseTargetProbs_eq_dense (hkernels : kernels.Lawful)
    (hneed : info.needTopKSampling = true) {maxTopK : ℕ} (hmax : maxTopK ≤ vocabSize)
    {uniformTopKValue : Option ℕ} (h : row.Verified) (hlogits : Function.Injective logits)
    (hk : min row.topK vocabSize ≤ maxTopK)
    (huniform : uniformTopKValue = some maxTopK → row.topK = maxTopK) :
    sparseTargetProbs kernels info hmax uniformTopKValue row logits =
      denseTargetProbs kernels info row logits := by
  have hscaled := scaledLogits_injective h hlogits
  have htop : kernels.topKRenormProb vocabSize
      (softmax fun i => (scaledLogits row logits i : WithBot ℝ)) row.topK =
        Function.extend (topIndices (scaledLogits row logits) hmax)
          (softmax (topLogits (scaledLogits row logits) hmax row.topK)) 0 := by
    rw [hkernels.top_k _ _ _ (softmax_pos _) (softmax_injective hscaled) h.one_le_topK,
      extend_topIndices_softmax hscaled hmax hk]
  unfold sparseTargetProbs denseTargetProbs
  simp only [sparse_logits_eq hmax h huniform, if_pos hneed, htop]
  split_ifs
  · exact (hkernels.top_p row.topP).extend_topIndices _ hmax _
  · rfl

end Row

/-! ## The batch -/

theorem le_foldr_max {k : ℕ} : ∀ {ks : List ℕ}, k ∈ ks → k ≤ ks.foldr max 0
  | _ :: ks, h => by
    rcases List.mem_cons.mp h with rfl | h
    · exact le_max_left _ _
    · exact (le_foldr_max h).trans (le_max_right _ _)

/-- The limits `verify` passes fit every request. -/
theorem verify_limits {rows : List SamplingRow} {row : SamplingRow} (h : row ∈ rows)
    (vocabSize : ℕ) (repeatedTopKs : List ℕ) :
    min row.topK vocabSize ≤ clampMaxTopK vocabSize repeatedTopKs (verifyMaxTopK rows) ∧
      (verifyUniformTopK rows = some (clampMaxTopK vocabSize repeatedTopKs (verifyMaxTopK rows)) →
        row.topK = clampMaxTopK vocabSize repeatedTopKs (verifyMaxTopK rows)) := by
  have hle := le_foldr_max (List.mem_map_of_mem (f := SamplingRow.topK) h)
  constructor
  · unfold clampMaxTopK verifyMaxTopK
    rw [Option.getD_some]
    dsimp only
    split_ifs <;> omega
  · intro huniform
    cases rows with
    | nil => simp at h
    | cons first rest =>
      simp only [verifyUniformTopK, List.map_cons] at huniform
      split_ifs at huniform with hall
      obtain hfirst := Option.some.inj huniform
      rw [← hfirst]
      rcases List.mem_cons.mp h with rfl | h
      · rfl
      · exact beq_iff_eq.mp (List.all_eq_true.mp hall _ (List.mem_map_of_mem h))

section Batch

variable {vocabSize draftTokenNum : ℕ} {kernels : RenormKernels} {info : SamplingBatchInfo}
  {nextTokenLogits : List (Fin vocabSize → ℝ)}

/-- The dense path over the rows of the batch. -/
theorem computeTargetProbs_dense (maxTopK uniformTopKValue : Option ℕ) :
    computeTargetProbs kernels info draftTokenNum false maxTopK uniformTopKValue nextTokenLogits =
      ((repeatInterleave info.rows draftTokenNum).zip nextTokenLogits).map fun x =>
        denseTargetProbs kernels info x.1 x.2 := by
  unfold computeTargetProbs
  exact dif_neg fun h => Bool.false_ne_true h.1.1

/-- With the limits of `verify`, the sparse path is the dense one on every row. -/
theorem computeTargetProbs_sparse (hkernels : kernels.Lawful)
    (hrows : ∀ row ∈ info.rows, row.Verified)
    (hdistinct : ∀ logits ∈ nextTokenLogits, Function.Injective logits) :
    computeTargetProbs kernels info draftTokenNum true (verifyMaxTopK info.rows)
        (verifyUniformTopK info.rows) nextTokenLogits =
      ((repeatInterleave info.rows draftTokenNum).zip nextTokenLogits).map fun x =>
        denseTargetProbs kernels info x.1 x.2 := by
  unfold computeTargetProbs
  simp only
  split_ifs with h
  · refine List.map_congr_left fun x hx => ?_
    obtain ⟨hrow, hlogits⟩ := List.of_mem_zip hx
    have hmem := mem_repeatInterleave hrow
    obtain ⟨hk, huniform⟩ := verify_limits hmem vocabSize
      ((repeatInterleave info.rows draftTokenNum).map fun row => min (max row.topK 1) vocabSize)
    exact sparseTargetProbs_eq_dense hkernels h.1.2 h.2.2.le (hrows _ hmem) (hdistinct _ hlogits)
      hk huniform
  · rfl

/-- The shapes `verify` passes : a row of candidates for every request, and logits for every
candidate. -/
structure VerifyShapes (info : SamplingBatchInfo) (draftTokenNum : ℕ)
    (candidates : List (List (Fin vocabSize))) (nextTokenLogits : List (Fin vocabSize → ℝ)) :
    Prop where
  length_candidates : candidates.length = info.rows.length
  length_ids : ∀ ids ∈ candidates, ids.length = draftTokenNum
  length_logits : nextTokenLogits.length = info.rows.length * draftTokenNum

variable {candidates : List (List (Fin vocabSize))}

/-- The request and the logits of a row of the batch. -/
theorem VerifyShapes.row_at (h : VerifyShapes info draftTokenNum candidates nextTokenLogits)
    {b t : ℕ} (hb : b < candidates.length) (ht : t < draftTokenNum) :
    ∃ row logits, ((repeatInterleave info.rows draftTokenNum).zip nextTokenLogits)[
      b * draftTokenNum + t]? = some (row, logits) := by
  have hb' : b < info.rows.length := h.length_candidates ▸ hb
  have hidx : b * draftTokenNum + t < nextTokenLogits.length := by
    have hmul : (b + 1) * draftTokenNum ≤ info.rows.length * draftTokenNum :=
      Nat.mul_le_mul_right _ hb'
    rw [h.length_logits]
    rw [Nat.succ_mul] at hmul
    omega
  refine ⟨info.rows[b], nextTokenLogits[b * draftTokenNum + t], ?_⟩
  rw [List.getElem?_zip_eq_some, getElem?_repeatInterleave ht, List.getElem?_eq_getElem hb',
    List.getElem?_eq_getElem hidx]
  exact ⟨rfl, rfl⟩

/-- What is recorded for a candidate : its log-probability under the dense path. -/
theorem getElem?_candidateLogprobs (tiny : ℝ)
    (h : VerifyShapes info draftTokenNum candidates nextTokenLogits) {b o : ℕ}
    {ids : List (Fin vocabSize)} {c : Fin vocabSize} (hids : candidates[b]? = some ids)
    (ho : 0 < o) (hc : ids[o]? = some c) {x : SamplingRow × (Fin vocabSize → ℝ)}
    (hx : ((repeatInterleave info.rows draftTokenNum).zip nextTokenLogits)[
      b * draftTokenNum + (o - 1)]? = some x) :
    ((computeDflashCandidateLogprobs kernels info tiny draftTokenNum true candidates
      nextTokenLogits).getD b [])[o - 1]? =
        some (Real.log (max (denseTargetProbs kernels info x.1 x.2 c) tiny)) := by
  have hb : b < candidates.length := (List.getElem?_eq_some_iff.mp hids).1
  have hlt : o < draftTokenNum := by
    rw [← h.length_ids ids (List.mem_of_getElem? hids)]
    exact (List.getElem?_eq_some_iff.mp hc).1
  have hdrop : ∀ rows : List (Fin vocabSize → ℝ),
      (viewBlocks candidates.length draftTokenNum rows)[b]? =
        some ((rows.drop (b * draftTokenNum)).take draftTokenNum) := fun rows => by
    rw [viewBlocks, List.getElem?_map, List.getElem?_range hb]
    rfl
  unfold computeDflashCandidateLogprobs
  rw [if_neg (by omega), if_pos rfl]
  simp only [List.getD_eq_getElem?_getD, List.getElem?_zipWith, hdrop, hids, Option.getD_some,
    List.getElem?_dropLast, List.getElem?_tail, Nat.sub_add_cancel ho, hc]
  have hlen : o - 1 < (((((repeatInterleave info.rows draftTokenNum).zip nextTokenLogits).map
      fun x i => Real.log (max (denseTargetProbs kernels info x.1 x.2 i) tiny)).drop
        (b * draftTokenNum)).take draftTokenNum).length - 1 := by
    have hmul : (b + 1) * draftTokenNum ≤ info.rows.length * draftTokenNum :=
      Nat.mul_le_mul_right _ (h.length_candidates ▸ hb)
    rw [Nat.succ_mul] at hmul
    simp only [List.length_take, List.length_drop, List.length_map, List.length_zip,
      length_repeatInterleave, h.length_logits]
    omega
  rw [if_pos hlen, List.getElem?_take, if_pos (by omega), List.getElem?_drop, List.getElem?_map, hx]
  rfl

/-- The distribution a sampling verify accepts drafts with is the one of the dense path, and what
it records for a candidate is the logarithm of the candidate's probability under it. -/
theorem target_distribution_eq (hkernels : kernels.Lawful) (tiny : ℝ)
    (hrows : ∀ row ∈ info.rows, row.Verified)
    (hdistinct : ∀ logits ∈ nextTokenLogits, Function.Injective logits)
    (hshapes : VerifyShapes info draftTokenNum candidates nextTokenLogits) :
    computeTargetProbs kernels info draftTokenNum true (verifyMaxTopK info.rows)
        (verifyUniformTopK info.rows) nextTokenLogits =
      computeTargetProbs kernels info draftTokenNum false (verifyMaxTopK info.rows)
        (verifyUniformTopK info.rows) nextTokenLogits ∧
    ∀ b ids o c, candidates[b]? = some ids → 0 < o → ids[o]? = some c → ∃ targetProbs,
      ((viewBlocks candidates.length draftTokenNum (computeTargetProbs kernels info draftTokenNum
        true (verifyMaxTopK info.rows) (verifyUniformTopK info.rows) nextTokenLogits)).getD b [])[
          o - 1]? = some targetProbs ∧
      ((computeDflashCandidateLogprobs kernels info tiny draftTokenNum true candidates
        nextTokenLogits).getD b [])[o - 1]? = some (Real.log (max (targetProbs c) tiny)) := by
  refine ⟨?_, fun b ids o c hids ho hc => ?_⟩
  · rw [computeTargetProbs_sparse hkernels hrows hdistinct, computeTargetProbs_dense]
  · have hb : b < candidates.length := (List.getElem?_eq_some_iff.mp hids).1
    have hlt : o < draftTokenNum := by
      rw [← hshapes.length_ids ids (List.mem_of_getElem? hids)]
      exact (List.getElem?_eq_some_iff.mp hc).1
    obtain ⟨row, logits, hx⟩ := hshapes.row_at hb (t := o - 1) (by omega)
    refine ⟨denseTargetProbs kernels info row logits, ?_,
      getElem?_candidateLogprobs tiny hshapes hids ho hc hx⟩
    rw [computeTargetProbs_sparse hkernels hrows hdistinct, getElem?_viewBlocks hb (by omega),
      List.getElem?_map, hx]
    rfl

end Batch

/-! ## Kernels -/

section Kernels

open Finset

/-- The mass above an entry. -/
noncomputable def massAbove {n : ℕ} (p : Fin n → ℝ) (i : Fin n) : ℝ :=
  ∑ j, if p i < p j then p j else 0

/-- The entries with a mass below `topP` above them. -/
noncomputable def nucleus {n : ℕ} (p : Fin n → ℝ) (topP : ℝ) (i : Fin n) : ℝ :=
  if massAbove p i < topP then p i else 0

/-- Exact top-k and top-p : keep the largest entries and renormalise. -/
noncomputable def exactKernels : RenormKernels where
  topKRenormProb := fun _ p k => keepTop p k
  topPRenormProb := fun _ p topP i => nucleus p topP i / ∑ j, nucleus p topP j

theorem nucleus_perm {n : ℕ} (σ : Equiv.Perm (Fin n)) (p : Fin n → ℝ) (topP : ℝ) (i : Fin n) :
    nucleus (p ∘ σ) topP i = nucleus p topP (σ i) := by
  have habove : massAbove (p ∘ σ) i = massAbove p (σ i) :=
    Equiv.sum_comp σ fun j => if p (σ i) < p j then p j else 0
  simp only [nucleus, habove, Function.comp_apply]

theorem nucleus_castSucc {n : ℕ} (p : Fin n → ℝ) (topP : ℝ) (i : Fin n) :
    nucleus (Fin.snoc (α := fun _ => ℝ) p 0) topP i.castSucc = nucleus p topP i := by
  have habove : massAbove (Fin.snoc (α := fun _ => ℝ) p 0) i.castSucc = massAbove p i := by
    simp only [massAbove, Fin.sum_univ_castSucc, Fin.snoc_castSucc, Fin.snoc_last, ite_self,
      add_zero]
  simp only [nucleus, habove, Fin.snoc_castSucc]

theorem nucleus_last {n : ℕ} (p : Fin n → ℝ) (topP : ℝ) :
    nucleus (Fin.snoc (α := fun _ => ℝ) p 0) topP (Fin.last n) = 0 := by
  simp only [nucleus, Fin.snoc_last, ite_self]

theorem exactKernels_lawful : exactKernels.Lawful where
  top_k := fun _ _ _ _ _ _ => rfl
  top_p := fun topP => by
    refine ⟨fun n σ p => ?_, fun n p => ?_⟩
    · funext i
      simp only [exactKernels, nucleus_perm, Function.comp_apply]
      rw [Equiv.sum_comp σ fun j => nucleus p topP j]
    · funext i
      simp only [exactKernels, Fin.sum_univ_castSucc, nucleus_castSucc, nucleus_last, add_zero]
      refine Fin.lastCases ?_ (fun j => ?_) i
      · rw [nucleus_last, Fin.snoc_last, zero_div]
      · rw [nucleus_castSucc, Fin.snoc_castSucc]

/-- Two requests that limit the vocabulary of three tokens differently. -/
noncomputable def mixedInfo : SamplingBatchInfo where
  rows := [⟨1, 1, 1⟩, ⟨2, 2, 1 / 2⟩]
  needTopKSampling := true
  needTopPSampling := true

/-- The logits of their blocks of two tokens. -/
noncomputable def mixedLogits : List (Fin 3 → ℝ) := List.replicate 4 fun i => (i : ℝ)

/-- The second candidate of the second request is the first token of the vocabulary. -/
theorem target_distribution_mixedInfo :
    computeTargetProbs exactKernels mixedInfo 2 true (verifyMaxTopK mixedInfo.rows)
        (verifyUniformTopK mixedInfo.rows) mixedLogits =
      computeTargetProbs exactKernels mixedInfo 2 false (verifyMaxTopK mixedInfo.rows)
        (verifyUniformTopK mixedInfo.rows) mixedLogits ∧
    ∃ targetProbs, ((viewBlocks 2 2 (computeTargetProbs exactKernels mixedInfo 2 true
        (verifyMaxTopK mixedInfo.rows) (verifyUniformTopK mixedInfo.rows) mixedLogits)).getD 1
          [])[0]? = some targetProbs ∧
      ((computeDflashCandidateLogprobs exactKernels mixedInfo (2 ^ 126)⁻¹ 2 true [[0, 1], [2, 0]]
        mixedLogits).getD 1 [])[0]? = some (Real.log (max (targetProbs 0) (2 ^ 126)⁻¹)) := by
  have hrows : ∀ row ∈ mixedInfo.rows, row.Verified := by
    intro row hrow
    simp only [mixedInfo, List.mem_cons, List.not_mem_nil, or_false] at hrow
    rcases hrow with rfl | rfl
    · exact ⟨one_pos, le_rfl⟩
    · exact ⟨two_pos, one_le_two⟩
  have hdistinct : ∀ logits ∈ mixedLogits, Function.Injective logits := by
    intro logits hlogits
    rw [List.eq_of_mem_replicate hlogits]
    intro i j hij
    exact Fin.ext (Nat.cast_injective hij)
  have hshapes : VerifyShapes mixedInfo 2 [[0, 1], [2, 0]] mixedLogits := ⟨rfl, by simp, rfl⟩
  obtain ⟨hsame, hrecorded⟩ :=
    target_distribution_eq exactKernels_lawful (2 ^ 126)⁻¹ hrows hdistinct hshapes
  exact ⟨hsame, hrecorded 1 [2, 0] 1 0 rfl one_pos rfl⟩

end Kernels

end DraftOpd
