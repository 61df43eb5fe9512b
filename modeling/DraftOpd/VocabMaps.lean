import DraftOpd.MaskSelect
import DraftOpd.Scatter
import DraftOpd.TensorOps
import Mathlib.Analysis.SpecialFunctions.Log.Basic

/-!
# The vocabulary maps of EAGLE3

The draft has a vocabulary of its own. Its token `d` stands for the token `d + d2t[d]` of the
target, and `t2d` marks the tokens of the target that have a draft token. The trainer uses both :
a label is looked up in the table `target_to_draft`, which `refresh_target_to_draft` inverts from
`d2t`, and the distribution of the target is cut down to its columns under `t2d`.

The target ids of the draft tokens increase, so they are the positions of the mask in order
(`VocabMaps.maskIndices_t2d`) : column `k` of the cut distribution is the target id of the draft
token `k` (`VocabMaps.getElem?_column`), which the table sends back to `k`
(`VocabMaps.getElem?_table`). `eagle3_vocab_paths_agree` : the two paths of
`_compute_eagle3_native_response_outputs` mean the same draft token by a target id.
-/

namespace DraftOpd

/-! ## The table -/

/-- `draft_ids + d2t` : the target id of every draft token. -/
def targetIds (d2t : List ℤ) : List ℤ := d2t.mapIdx fun d offset => (d : ℤ) + offset

/-- `Eagle3DraftModel.refresh_target_to_draft` (`eagle3_student.py:351-359`). -/
def refreshTargetToDraft (vocabSize : ℕ) (d2t : List ℤ) (t2d : List Bool) : List ℤ :=
  let targetToDraft := List.replicate vocabSize (-1)
  let draftIds := (List.range d2t.length).map Nat.cast
  let inBounds := (targetIds d2t).map fun (v : ℤ) => decide (0 ≤ v) && decide (v < vocabSize)
  let targetToDraft := scatter targetToDraft
    (((maskSelect (targetIds d2t) inBounds).map Int.toNat).zip (maskSelect draftIds inBounds))
  if t2d.length = vocabSize then
    List.zipWith (fun supported draftId => if supported then draftId else -1) t2d targetToDraft
  else targetToDraft

/-- One entry of `_map_target_to_draft_ids` (`eagle3_student.py:478-484`) : the draft id, and
whether the token is supported. There is nothing to look up in an empty table. -/
def mapTargetToDraftId (targetToDraft : List ℤ) (targetTokenId : ℤ) : Option (ℤ × Bool) :=
  let inBounds := decide (0 ≤ targetTokenId) && decide (targetTokenId < targetToDraft.length)
  let safeTargetId := min (max targetTokenId 0) (targetToDraft.length - 1)
  targetToDraft[safeTargetId.toNat]?.map fun draftId =>
    (max draftId 0, inBounds && decide (0 ≤ draftId))

/-- The draft vocabulary as an increasing part of the target's, and its mask. -/
structure VocabMaps (vocabSize : ℕ) (d2t : List ℤ) (t2d : List Bool) : Prop where
  increasing : (targetIds d2t).Pairwise (· < ·)
  in_range : ∀ v ∈ targetIds d2t, 0 ≤ v ∧ v < vocabSize
  length_t2d : t2d.length = vocabSize
  indicator : ∀ v : ℕ, v < vocabSize → (t2d[v]? = some true ↔ (v : ℤ) ∈ targetIds d2t)

@[simp] theorem length_targetIds (d2t : List ℤ) : (targetIds d2t).length = d2t.length := by
  rw [targetIds, List.length_mapIdx]

theorem getElem?_targetIds (d2t : List ℤ) (d : ℕ) :
    (targetIds d2t)[d]? = d2t[d]?.map fun offset => (d : ℤ) + offset := List.getElem?_mapIdx

namespace VocabMaps

variable {vocabSize : ℕ} {d2t : List ℤ} {t2d : List Bool} (h : VocabMaps vocabSize d2t t2d)

include h

/-- The target ids of the draft tokens are the positions of the mask, in order. -/
theorem maskIndices_t2d : maskIndices t2d = (targetIds d2t).map Int.toNat := by
  refine maskIndices_eq (List.pairwise_map.mpr (h.increasing.imp_of_mem fun ha _ hlt => ?_))
    fun v => ?_
  · have hnonneg := (h.in_range _ ha).1
    omega
  · constructor
    · intro hv
      obtain ⟨v', hv', rfl⟩ := List.mem_map.mp hv
      obtain ⟨hnonneg, hlt⟩ := h.in_range v' hv'
      rw [h.indicator _ (by omega), Int.toNat_of_nonneg hnonneg]
      exact hv'
    · intro hv
      have hlt : v < vocabSize := h.length_t2d ▸ (List.getElem?_eq_some_iff.mp hv).1
      exact List.mem_map.mpr ⟨v, (h.indicator v hlt).mp hv, Int.toNat_natCast v⟩

theorem getElem?_maskIndices {d : ℕ} {v : ℤ} (hd : (targetIds d2t)[d]? = some v) :
    (maskIndices t2d)[d]? = some v.toNat := by
  rw [h.maskIndices_t2d, List.getElem?_map, hd, Option.map_some]

theorem count_t2d : t2d.count true = d2t.length := by
  rw [← length_maskIndices, h.maskIndices_t2d, List.length_map, length_targetIds]

/-- Column `d` under the mask is the entry of the target id of the draft token `d`. -/
theorem getElem?_column {α : Type*} {row : List α} (hrow : row.length = vocabSize) {d : ℕ} {v : ℤ}
    (hd : (targetIds d2t)[d]? = some v) : (maskSelect row t2d)[d]? = row[v.toNat]? :=
  getElem?_maskSelect (hrow.trans h.length_t2d.symm) (h.getElem?_maskIndices hd)

theorem length_column {α : Type*} {row : List α} (hrow : row.length = vocabSize) :
    (maskSelect row t2d).length = d2t.length := by
  rw [length_maskSelect (hrow.trans h.length_t2d.symm), length_maskIndices, h.count_t2d]

theorem column_eq {α : Type*} {row : List α} (hrow : row.length = vocabSize) (x : α) :
    maskSelect row t2d = (targetIds d2t).map fun v => row.getD v.toNat x := by
  refine List.ext_getElem? fun k => ?_
  cases hv : (targetIds d2t)[k]? with
  | none =>
    have hk := List.getElem?_eq_none_iff.mp hv
    rw [List.getElem?_map, hv, Option.map_none, List.getElem?_eq_none_iff, h.length_column hrow,
      ← length_targetIds]
    exact hk
  | some v =>
    have hmem := h.in_range v (List.mem_of_getElem? hv)
    rw [h.getElem?_column hrow hv, List.getElem?_map, hv, Option.map_some,
      List.getD_eq_getElem _ _ (by omega), List.getElem?_eq_getElem]

/-- All draft tokens are in bounds, so the writes are the ids and the draft tokens in pairs. -/
theorem table_eq : refreshTargetToDraft vocabSize d2t t2d =
    List.zipWith (fun supported draftId => if supported then draftId else -1) t2d
      (scatter (List.replicate vocabSize (-1))
        (((targetIds d2t).map Int.toNat).zip ((List.range d2t.length).map Nat.cast))) := by
  have hbounds : ∀ v ∈ targetIds d2t, (decide (0 ≤ v) && decide (v < (vocabSize : ℤ))) = true := by
    intro v hv
    simpa using h.in_range v hv
  simp only [refreshTargetToDraft]
  rw [maskSelect_map_true hbounds rfl, maskSelect_map_true hbounds (by simp), if_pos h.length_t2d]

theorem length_table : (refreshTargetToDraft vocabSize d2t t2d).length = vocabSize := by
  rw [h.table_eq, List.length_zipWith, length_scatter, List.length_replicate, h.length_t2d,
    Nat.min_self]

theorem nodup_writes : ((((targetIds d2t).map Int.toNat).zip
    ((List.range d2t.length).map (Nat.cast : ℕ → ℤ))).map Prod.fst).Nodup := by
  rw [List.map_fst_zip (by simp), ← h.maskIndices_t2d]
  exact (pairwise_maskIndices t2d).imp ne_of_lt

/-- The table sends the target id of a draft token back to it. -/
theorem getElem?_table {d : ℕ} {v : ℤ} (hd : (targetIds d2t)[d]? = some v) :
    (refreshTargetToDraft vocabSize d2t t2d)[v.toNat]? = some (d : ℤ) := by
  have hv := List.mem_of_getElem? hd
  obtain ⟨hnonneg, hlt⟩ := h.in_range v hv
  have hmark : t2d[v.toNat]? = some true :=
    (h.indicator _ (by omega)).mpr (by rwa [Int.toNat_of_nonneg hnonneg])
  have hlen : d < d2t.length := length_targetIds d2t ▸ (List.getElem?_eq_some_iff.mp hd).1
  have hmem : (v.toNat, (d : ℤ)) ∈ ((targetIds d2t).map Int.toNat).zip
      ((List.range d2t.length).map Nat.cast) := by
    refine List.mem_of_getElem? (i := d) (List.getElem?_zip_eq_some.mpr ⟨?_, ?_⟩)
    · rw [List.getElem?_map, hd, Option.map_some]
    · rw [List.getElem?_map, List.getElem?_range hlen, Option.map_some]
  rw [h.table_eq, List.getElem?_zipWith, hmark, getElem?_scatter_of_mem h.nodup_writes hmem
    (by rw [List.length_replicate]; omega)]
  rfl

/-- The other entries are `-1`. -/
theorem getElem?_table_of_notMem {v : ℕ} (hlt : v < vocabSize) (hv : (v : ℤ) ∉ targetIds d2t) :
    (refreshTargetToDraft vocabSize d2t t2d)[v]? = some (-1) := by
  have hmark : t2d[v]? = some false := by
    cases hb : t2d[v]? with
    | none => exact absurd (List.getElem?_eq_none_iff.mp hb) (by rw [h.length_t2d]; omega)
    | some b =>
      cases b with
      | false => rfl
      | true => exact absurd ((h.indicator v hlt).mp hb) hv
  have hget : ∃ x, (scatter (List.replicate vocabSize (-1 : ℤ))
      (((targetIds d2t).map Int.toNat).zip ((List.range d2t.length).map Nat.cast)))[v]? = some x :=
    ⟨_, List.getElem?_eq_getElem (by simpa using hlt)⟩
  obtain ⟨x, hx⟩ := hget
  rw [h.table_eq, List.getElem?_zipWith, hmark, hx]
  rfl

/-- The label path : a token of the draft vocabulary gets its draft id. -/
theorem mapTargetToDraftId_of_getElem? {d : ℕ} {v : ℤ} (hd : (targetIds d2t)[d]? = some v) :
    mapTargetToDraftId (refreshTargetToDraft vocabSize d2t t2d) v = some ((d : ℤ), true) := by
  obtain ⟨hnonneg, hlt⟩ := h.in_range v (List.mem_of_getElem? hd)
  have hsafe : min (max v 0) ((vocabSize : ℤ) - 1) = v := by omega
  simp only [mapTargetToDraftId]
  rw [h.length_table, hsafe, h.getElem?_table hd, Option.map_some]
  simp [hnonneg, hlt]

/-- Any other token, also one outside the target's vocabulary, is not supported. -/
theorem mapTargetToDraftId_of_notMem (hpos : 0 < vocabSize) {v : ℤ} (hv : v ∉ targetIds d2t) :
    ∃ draftId, mapTargetToDraftId (refreshTargetToDraft vocabSize d2t t2d) v =
      some (draftId, false) := by
  simp only [mapTargetToDraftId]
  rw [h.length_table]
  by_cases hin : 0 ≤ v ∧ v < vocabSize
  · obtain ⟨hnonneg, hlt⟩ := hin
    have hsafe : min (max v 0) ((vocabSize : ℤ) - 1) = v := by omega
    have hnone := h.getElem?_table_of_notMem (v := v.toNat) (by omega)
      (by rwa [Int.toNat_of_nonneg hnonneg])
    rw [hsafe, hnone]
    exact ⟨_, by simp; rfl⟩
  · have hbound : (min (max v 0) ((vocabSize : ℤ) - 1)).toNat <
        (refreshTargetToDraft vocabSize d2t t2d).length := by
      rw [h.length_table]
      omega
    have hout : (decide (0 ≤ v) && decide (v < (vocabSize : ℤ))) = false := by
      rw [Bool.and_eq_false_iff, decide_eq_false_iff_not, decide_eq_false_iff_not]
      omega
    rw [List.getElem?_eq_getElem hbound, Option.map_some, hout, Bool.false_and]
    exact ⟨_, rfl⟩

end VocabMaps

/-! ## The two paths of the response loss -/

/-- `log_softmax` and `softmax` of a row of logits. -/
structure RowSoftmax (K : Type) [LT K] where
  logSoftmax : List K → List K
  softmax : List K → List K
  length_logSoftmax : ∀ xs, (logSoftmax xs).length = xs.length
  length_softmax : ∀ xs, (softmax xs).length = xs.length
  /-- A larger logit has a larger probability. -/
  softmax_lt : ∀ {xs : List K} {i j : ℕ} {x y p q : K}, xs[i]? = some x → xs[j]? = some y →
    (softmax xs)[i]? = some p → (softmax xs)[j]? = some q → (p < q ↔ x < y)

/-- The exceptions of `_compute_eagle3_native_response_outputs`. The last is the `IndexError` of a
lookup or a maximum in an empty dimension. -/
inductive NativeError where
  | targetVocabMismatch (targetLogits t2d : ℕ)
  | draftVocabMismatch (draftLogits t2dSupported : ℕ)
  | outOfRange
deriving DecidableEq, Repr

/-- One selected position : the draft's logits, the target's, and the label. -/
structure ResponseRow (K : Type) where
  logits : List K
  targetLogits : List K
  targetTokenId : ℤ

/-- What is returned for a position. -/
structure ResponseOutput (K : Type) where
  scalarLogProb : K
  entropy : Option K
  scalarSupported : Bool
  nativeLoss : K
  nativeSupported : Bool
  top1Match : Bool

section Paths

variable {K : Type} [Field K] [LinearOrder K] (S : RowSoftmax K) (exp : K → K)

/-- An `IndexError` for what is not there. -/
def orOutOfRange {α : Type*} : Option α → Except NativeError α
  | none => .error .outOfRange
  | some a => .ok a

/-- The outputs of a position with its scalar log-probability and the maximum of the target at
`targetArgmax` (`eagle3_student.py:577-594`). -/
def responseOutput (t2d : List Bool) (calculateEntropy : Bool) (row : ResponseRow K)
    (scalarSupported : Bool) (scalarLogProb : K) (targetArgmax : ℕ) : ResponseOutput K :=
  let logProbs := S.logSoftmax row.logits
  let nativeSupported := t2d.getD targetArgmax false
  let targetP := S.softmax (maskSelect row.targetLogits t2d)
  let chunkLoss := -(List.zipWith (· * ·) targetP logProbs).sum
  let top1Match := nativeSupported &&
    decide ((torchMax row.logits).map Prod.snd = (torchMax targetP).map Prod.snd)
  let chunkEntropy := -(logProbs.map fun logProb => exp logProb * logProb).sum
  { scalarLogProb, scalarSupported, nativeSupported, top1Match
    entropy := if calculateEntropy then some (if nativeSupported then chunkEntropy else 0) else none
    nativeLoss := if nativeSupported then chunkLoss else 0 }

/-- One position of a chunk (`eagle3_student.py:565-594`), with its entry of
`_map_target_to_draft_ids`. -/
def nativeResponseRow (t2d : List Bool) (calculateEntropy : Bool) (row : ResponseRow K)
    (label : ℤ × Bool) : Except NativeError (ResponseOutput K) := do
  let scalarLogProb ←
    if label.2 then orOutOfRange (S.logSoftmax row.logits)[label.1.toNat]? else .ok 0
  let targetMax ← orOutOfRange (torchMax row.targetLogits)
  .ok (responseOutput S exp t2d calculateEntropy row label.2 scalarLogProb targetMax.2)

/-- A chunk of positions, with the check of the draft's logits. -/
def nativeResponseChunk (t2d : List Bool) (calculateEntropy : Bool)
    (chunk : List (ResponseRow K × (ℤ × Bool))) : Except NativeError (List (ResponseOutput K)) :=
  let draftVocabSize := t2d.count true
  chunk.mapM fun x =>
    if x.1.logits.length ≠ draftVocabSize then
      .error (.draftVocabMismatch x.1.logits.length draftVocabSize)
    else nativeResponseRow S exp t2d calculateEntropy x.1 x.2

/-- `_compute_eagle3_native_response_outputs` (`eagle3_student.py:522-599`), with the outputs of a
position together. -/
def computeEagle3NativeResponseOutputs (targetToDraft : List ℤ) (t2d : List Bool)
    (chunkSize : ℕ) (calculateEntropy : Bool) (rows : List (ResponseRow K)) :
    Except NativeError (List (ResponseOutput K)) :=
  match rows with
  | [] => .ok []
  | row :: _ =>
    if row.targetLogits.length ≠ t2d.length then
      .error (.targetVocabMismatch row.targetLogits.length t2d.length)
    else do
      let labels ← rows.mapM fun row => orOutOfRange (mapTargetToDraftId targetToDraft
        row.targetTokenId)
      let parts ← (chunks chunkSize (rows.zip labels)).mapM
        (nativeResponseChunk S exp t2d calculateEntropy)
      .ok parts.flatten

end Paths

/-! ## The same maximum -/

section Maximum

variable {K : Type} [LinearOrder K]

theorem FirstMax.torchMax_eq {xs : List K} {m : K} {i : ℕ} (h : FirstMax xs m i) :
    torchMax xs = some (m, i) := by
  have hne : xs ≠ [] := by
    rintro rfl
    cases h.at_index
  obtain ⟨m', i', heq, h'⟩ := torchMax_spec hne
  have hle := h.le_max m' (List.mem_of_getElem? h'.at_index)
  have hle' := h'.le_max m (List.mem_of_getElem? h.at_index)
  obtain rfl : m = m' := le_antisymm hle' hle
  have hi : ¬ i < i' := fun hlt => lt_irrefl m (h'.lt_max i hlt m h.at_index)
  have hi' : ¬ i' < i := fun hlt => lt_irrefl m (h.lt_max i' hlt m h'.at_index)
  rw [heq, show i' = i by omega]

/-- Probabilities have their maximum where the logits have it. -/
theorem RowSoftmax.firstMax (S : RowSoftmax K) {xs : List K} {m : K} {i : ℕ}
    (h : FirstMax xs m i) : ∃ q, FirstMax (S.softmax xs) q i := by
  have hsome : ∀ {j : ℕ} {q : K}, (S.softmax xs)[j]? = some q → ∃ x, xs[j]? = some x := by
    intro j q hq
    have hj := (List.getElem?_eq_some_iff.mp hq).1
    exact ⟨_, List.getElem?_eq_getElem (S.length_softmax xs ▸ hj)⟩
  have hi : i < (S.softmax xs).length := by
    rw [S.length_softmax]
    exact (List.getElem?_eq_some_iff.mp h.at_index).1
  have hq := List.getElem?_eq_getElem hi
  refine ⟨_, hq, fun p hp => ?_, fun j hj p hp => ?_⟩
  · obtain ⟨j, hp⟩ := List.mem_iff_getElem?.mp hp
    obtain ⟨x, hx⟩ := hsome hp
    exact not_lt.mp fun hlt => absurd ((S.softmax_lt h.at_index hx hq hp).mp hlt)
      (not_lt.mpr (h.le_max x (List.mem_of_getElem? hx)))
  · obtain ⟨x, hx⟩ := hsome hp
    exact (S.softmax_lt hx h.at_index hp hq).mpr (h.lt_max j hj x hx)

variable {vocabSize : ℕ} {d2t : List ℤ} {t2d : List Bool}

/-- A maximum of the target at a supported id is the maximum under the mask, at its draft id. -/
theorem VocabMaps.firstMax_column (h : VocabMaps vocabSize d2t t2d) {row : List K}
    (hrow : row.length = vocabSize) {m : K} {v d : ℕ} (hmax : FirstMax row m v)
    (hd : (targetIds d2t)[d]? = some (v : ℤ)) : FirstMax (maskSelect row t2d) m d := by
  refine ⟨?_, fun x hx => hmax.le_max x ?_, fun j hj x hx => ?_⟩
  · rw [h.getElem?_column hrow hd, Int.toNat_natCast, hmax.at_index]
  · obtain ⟨y, hy, rfl⟩ := List.mem_map.mp hx
    exact (List.of_mem_zip (List.mem_filter.mp hy).1).1
  · -- An earlier column is an earlier target id.
    have hd' := (List.getElem?_eq_some_iff.mp hd).1
    have hj' := List.getElem?_eq_getElem (hj.trans hd')
    have hmem := h.in_range _ (List.mem_of_getElem? hj')
    have hlt : (targetIds d2t)[j] < v := by
      have hinc := List.pairwise_iff_getElem.mp h.increasing j d (hj.trans hd') hd' hj
      rwa [(List.getElem?_eq_some_iff.mp hd).2] at hinc
    rw [h.getElem?_column hrow hj'] at hx
    exact hmax.lt_max _ (by omega) x hx

end Maximum

/-! ## The agreement -/

section Agreement

variable {K : Type} [Field K] [LinearOrder K] (S : RowSoftmax K) (exp : K → K)

/-- What a position's outputs have to do with the draft token `d` of a target id `v`. -/
structure PathsAgree (d2t : List ℤ) (row : ResponseRow K) (out : ResponseOutput K) : Prop where
  /-- The label path reads the draft token of the label. -/
  scalar : ∀ d : ℕ, (targetIds d2t)[d]? = some row.targetTokenId →
    out.scalarSupported = true ∧ (S.logSoftmax row.logits)[d]? = some out.scalarLogProb
  scalar_unsupported : row.targetTokenId ∉ targetIds d2t → out.scalarSupported = false
  /-- The native path weights the draft token `d` by the probability of its target id. -/
  native_loss : out.nativeSupported = true → out.nativeLoss = -(List.zipWith (· * ·)
    (S.softmax ((targetIds d2t).map fun v => row.targetLogits.getD v.toNat 0))
    (S.logSoftmax row.logits)).sum
  /-- The first maximum of the target is compared with the draft's as the draft token of its
  id. -/
  top1 : ∃ m v, FirstMax row.targetLogits m v ∧
    (out.nativeSupported = true ↔ (v : ℤ) ∈ targetIds d2t) ∧
    ∀ d : ℕ, (targetIds d2t)[d]? = some (v : ℤ) →
      (out.top1Match = true ↔ ∃ x, FirstMax row.logits x d)

namespace VocabMaps

variable {vocabSize : ℕ} {d2t : List ℤ} {t2d : List Bool} (h : VocabMaps vocabSize d2t t2d)

include h

/-- The native path of a position, whatever its label. -/
theorem responseOutput_agrees (calculateEntropy : Bool) {row : ResponseRow K}
    (htarget : row.targetLogits.length = vocabSize) {m : K} {v : ℕ}
    (hmax : FirstMax row.targetLogits m v) (label : ℤ × Bool) (logProb : K)
    (hscalar : ∀ d : ℕ, (targetIds d2t)[d]? = some row.targetTokenId →
      label.2 = true ∧ (S.logSoftmax row.logits)[d]? = some logProb)
    (hunsupported : row.targetTokenId ∉ targetIds d2t → label.2 = false) :
    PathsAgree S d2t row (responseOutput S exp t2d calculateEntropy row label.2 logProb v) := by
  have hv : v < t2d.length := by
    rw [h.length_t2d, ← htarget]
    exact (List.getElem?_eq_some_iff.mp hmax.at_index).1
  have hsup : t2d.getD v false = true ↔ (v : ℤ) ∈ targetIds d2t := by
    rw [← h.indicator v (h.length_t2d ▸ hv), List.getD_eq_getElem?_getD,
      List.getElem?_eq_getElem hv, Option.getD_some, Option.some.injEq]
  refine ⟨hscalar, hunsupported, fun hnative => ?_, m, v, hmax, hsup, fun d hd => ?_⟩
  · rw [← h.column_eq htarget 0]
    exact if_pos hnative
  · obtain ⟨q, hq⟩ := S.firstMax (h.firstMax_column htarget hmax hd)
    have hmatch : (responseOutput S exp t2d calculateEntropy row label.2 logProb v).top1Match =
        (t2d.getD v false && decide ((torchMax row.logits).map Prod.snd =
          (torchMax (S.softmax (maskSelect row.targetLogits t2d))).map Prod.snd)) := rfl
    rw [hmatch, hsup.mpr (List.mem_of_getElem? hd), Bool.true_and, decide_eq_true_eq,
      hq.torchMax_eq, Option.map_some, Option.map_eq_some_iff]
    constructor
    · rintro ⟨⟨x, i⟩, hi, rfl⟩
      have hne : row.logits ≠ [] := by
        intro hnil
        rw [hnil] at hi
        cases hi
      obtain ⟨x', i', hi', hfirst⟩ := torchMax_spec hne
      obtain ⟨rfl, rfl⟩ := Prod.mk.inj (Option.some.inj (hi.symm.trans hi'))
      exact ⟨x, hfirst⟩
    · rintro ⟨x, hx⟩
      exact ⟨(x, d), hx.torchMax_eq, rfl⟩

/-- The positions of the response, one by one. -/
theorem nativeResponseRow_agrees (hpos : 0 < vocabSize) (calculateEntropy : Bool)
    {row : ResponseRow K} (htarget : row.targetLogits.length = vocabSize)
    (hdraft : row.logits.length = d2t.length) :
    ∃ label out, mapTargetToDraftId (refreshTargetToDraft vocabSize d2t t2d) row.targetTokenId =
        some label ∧
      nativeResponseRow S exp t2d calculateEntropy row label = .ok out ∧
      PathsAgree S d2t row out := by
  obtain ⟨m, v, hmax, hfirst⟩ := torchMax_spec (List.ne_nil_of_length_pos (htarget ▸ hpos))
  by_cases hmem : row.targetTokenId ∈ targetIds d2t
  · obtain ⟨d, hd⟩ := List.mem_iff_getElem?.mp hmem
    have hlt : d < (S.logSoftmax row.logits).length := by
      rw [S.length_logSoftmax, hdraft, ← length_targetIds]
      exact (List.getElem?_eq_some_iff.mp hd).1
    have hget := List.getElem?_eq_getElem hlt
    refine ⟨(d, true), _, h.mapTargetToDraftId_of_getElem? hd, ?_,
      h.responseOutput_agrees S exp calculateEntropy htarget hfirst (d, true)
        (S.logSoftmax row.logits)[d] (fun d' hd' => ?_) (fun hn => absurd hmem hn)⟩
    · rw [nativeResponseRow, hmax]
      simp only [if_true, Int.toNat_natCast, hget]
      rfl
    · -- An id has one draft token.
      have hnodup : (targetIds d2t).Nodup := h.increasing.imp ne_of_lt
      have heq : d' = d := by
        have h₁ := List.getElem?_eq_some_iff.mp hd'
        have h₂ := List.getElem?_eq_some_iff.mp hd
        exact (hnodup.getElem_inj_iff).mp (h₁.2.trans h₂.2.symm)
      rw [heq]
      exact ⟨rfl, hget⟩
  · obtain ⟨draftId, hmap⟩ := h.mapTargetToDraftId_of_notMem hpos hmem
    refine ⟨(draftId, false), _, hmap, ?_,
      h.responseOutput_agrees S exp calculateEntropy htarget hfirst (draftId, false) 0
        (fun d hd => absurd (List.mem_of_getElem? hd) hmem) (fun _ => rfl)⟩
    rw [nativeResponseRow, hmax]
    rfl

/-- The chunks cover the positions, so each position gives its own outputs. -/
theorem computeEagle3NativeResponseOutputs_agrees (hpos : 0 < vocabSize) {chunkSize : ℕ}
    (hchunk : 0 < chunkSize) (calculateEntropy : Bool) {rows : List (ResponseRow K)}
    (hrows : ∀ row ∈ rows, row.targetLogits.length = vocabSize ∧
      row.logits.length = d2t.length) :
    ∃ outs, computeEagle3NativeResponseOutputs S exp (refreshTargetToDraft vocabSize d2t t2d) t2d
        chunkSize calculateEntropy rows = .ok outs ∧
      List.Forall₂ (PathsAgree S d2t) rows outs := by
  have hall : ∀ row, ∃ label out, row ∈ rows →
      mapTargetToDraftId (refreshTargetToDraft vocabSize d2t t2d) row.targetTokenId =
          some label ∧
        nativeResponseRow S exp t2d calculateEntropy row label = .ok out ∧
        PathsAgree S d2t row out := by
    intro row
    by_cases hrow : row ∈ rows
    · obtain ⟨label, out, hspec⟩ := h.nativeResponseRow_agrees S exp hpos calculateEntropy
        (hrows row hrow).1 (hrows row hrow).2
      exact ⟨label, out, fun _ => hspec⟩
    · exact ⟨(0, false), ⟨0, none, false, 0, false, false⟩, fun hmem => absurd hmem hrow⟩
  choose label out hspec using hall
  refine ⟨rows.map out, ?_, List.forall₂_map_right_iff.mpr
    (List.forall₂_same.mpr fun row hrow => (hspec row hrow).2.2)⟩
  have hlabels : (rows.mapM fun row => orOutOfRange (mapTargetToDraftId
      (refreshTargetToDraft vocabSize d2t t2d) row.targetTokenId)) = .ok (rows.map label) :=
    mapM_eq_ok fun row hrow => by rw [(hspec row hrow).1]; rfl
  have hzip : rows.zip (rows.map label) = rows.map fun row => (row, label row) :=
    List.map_prod_left_eq_zip.symm
  have hparts : ((chunks chunkSize (rows.zip (rows.map label))).mapM
      (nativeResponseChunk S exp t2d calculateEntropy)) =
        .ok ((chunks chunkSize (rows.zip (rows.map label))).map (List.map fun x => out x.1)) := by
    refine mapM_eq_ok fun chunk hmem => mapM_eq_ok fun x hx => ?_
    have hx' : x ∈ rows.map fun row => (row, label row) := by
      rw [← hzip, ← flatten_chunks hchunk (rows.zip (rows.map label))]
      exact List.mem_flatten_of_mem hmem hx
    obtain ⟨row, hrow, rfl⟩ := List.mem_map.mp hx'
    rw [if_neg (by rw [h.count_t2d, (hrows row hrow).2]; exact not_ne_iff.mpr rfl)]
    exact (hspec row hrow).2.1
  have hflat : ((chunks chunkSize (rows.zip (rows.map label))).map
      (List.map fun x => out x.1)).flatten = rows.map out := by
    rw [← List.map_flatten, flatten_chunks hchunk, hzip, List.map_map]
    rfl
  cases rows with
  | nil => rfl
  | cons row rest =>
    simp only [computeEagle3NativeResponseOutputs]
    rw [if_neg (by rw [h.length_t2d, (hrows row List.mem_cons_self).1]; exact not_ne_iff.mpr rfl),
      hlabels]
    simp only [bind, Except.bind]
    rw [hparts]
    exact congrArg Except.ok hflat

end VocabMaps

/-- The table inverts the target ids, the columns under the mask are the target ids, and the two
paths mean the same draft token by a target id. -/
theorem eagle3_vocab_paths_agree {vocabSize : ℕ} {d2t : List ℤ} {t2d : List Bool}
    (h : VocabMaps vocabSize d2t t2d) :
    ((∀ (d : ℕ) (offset : ℤ), d2t[d]? = some offset →
        (refreshTargetToDraft vocabSize d2t t2d)[(d + offset).toNat]? = some (d : ℤ)) ∧
      ∀ v < vocabSize,
        (t2d[v]? = some true → ∃ (d : ℕ) (offset : ℤ), d2t[d]? = some offset ∧ d + offset = v ∧
          (refreshTargetToDraft vocabSize d2t t2d)[v]? = some (d : ℤ)) ∧
        (t2d[v]? ≠ some true → (refreshTargetToDraft vocabSize d2t t2d)[v]? = some (-1))) ∧
    (∀ row : List K, row.length = vocabSize → (maskSelect row t2d).length = d2t.length ∧
      ∀ (k : ℕ) (offset : ℤ), d2t[k]? = some offset →
        (maskSelect row t2d)[k]? = row[(k + offset).toNat]?) ∧
    (∀ v < vocabSize, ∃ draftId supported,
      mapTargetToDraftId (refreshTargetToDraft vocabSize d2t t2d) v = some (draftId, supported) ∧
      (supported = true ↔ t2d[v]? = some true) ∧
      (supported = true → ∀ row : List K, row.length = vocabSize →
        (maskSelect row t2d)[draftId.toNat]? = row[v]?)) ∧
    ∀ (chunkSize : ℕ) (calculateEntropy : Bool) (rows : List (ResponseRow K)),
      0 < vocabSize → 0 < chunkSize →
      (∀ row ∈ rows, row.targetLogits.length = vocabSize ∧ row.logits.length = d2t.length) →
      ∃ outs, computeEagle3NativeResponseOutputs S exp (refreshTargetToDraft vocabSize d2t t2d)
          t2d chunkSize calculateEntropy rows = .ok outs ∧
        List.Forall₂ (PathsAgree S d2t) rows outs := by
  have hid : ∀ {d : ℕ} {offset : ℤ}, d2t[d]? = some offset →
      (targetIds d2t)[d]? = some (d + offset) := by
    intro d offset hd
    rw [getElem?_targetIds, hd, Option.map_some]
  refine ⟨⟨fun d offset hd => h.getElem?_table (hid hd), fun v hv => ⟨fun hmark => ?_, ?_⟩⟩,
    fun row hrow => ⟨h.length_column hrow, fun k offset hk => h.getElem?_column hrow (hid hk)⟩,
    fun v hv => ?_, fun chunkSize calculateEntropy rows hpos hchunk hrows =>
      h.computeEagle3NativeResponseOutputs_agrees S exp hpos hchunk calculateEntropy hrows⟩
  · obtain ⟨d, hd⟩ := List.mem_iff_getElem?.mp ((h.indicator v hv).mp hmark)
    have htable := h.getElem?_table hd
    rw [getElem?_targetIds, Option.map_eq_some_iff] at hd
    obtain ⟨offset, hoffset, heq⟩ := hd
    exact ⟨d, offset, hoffset, heq, by rwa [Int.toNat_natCast] at htable⟩
  · intro hmark
    exact h.getElem?_table_of_notMem hv fun hmem => hmark ((h.indicator v hv).mpr hmem)
  · by_cases hmem : (v : ℤ) ∈ targetIds d2t
    · obtain ⟨d, hd⟩ := List.mem_iff_getElem?.mp hmem
      refine ⟨d, true, h.mapTargetToDraftId_of_getElem? hd, by simp [h.indicator v hv, hmem],
        fun _ row hrow => ?_⟩
      have hcolumn := h.getElem?_column hrow hd
      rwa [Int.toNat_natCast] at hcolumn ⊢
    · obtain ⟨draftId, hmap⟩ := h.mapTargetToDraftId_of_notMem (by omega) hmem
      exact ⟨draftId, false, hmap, by simp [h.indicator v hv, hmem], fun hf => by cases hf⟩

end Agreement

/-- The functions over the reals. -/
noncomputable def realSoftmax : RowSoftmax ℝ where
  logSoftmax xs := xs.map fun x => x - Real.log (xs.map Real.exp).sum
  softmax xs := xs.map fun x => Real.exp x / (xs.map Real.exp).sum
  length_logSoftmax xs := List.length_map _
  length_softmax xs := List.length_map _
  softmax_lt := by
    intro xs i j x y p q hx hy hp hq
    have hpos : 0 < (xs.map Real.exp).sum := by
      refine List.sum_pos _ (fun a ha => ?_) fun hnil => ?_
      · obtain ⟨b, -, rfl⟩ := List.mem_map.mp ha
        exact Real.exp_pos b
      · rw [List.map_eq_nil_iff] at hnil
        rw [hnil] at hx
        cases hx
    rw [List.getElem?_map, hx, Option.map_some, Option.some.injEq] at hp
    rw [List.getElem?_map, hy, Option.map_some, Option.some.injEq] at hq
    rw [← hp, ← hq, div_lt_div_iff_of_pos_right hpos, Real.exp_lt_exp]

/-- Three draft tokens for the ids `0`, `3` and `6` of ten, and a response of two positions. -/
theorem eagle3_vocab_paths_agree_three :
    refreshTargetToDraft 10 [0, 2, 4]
        [true, false, false, true, false, false, true, false, false, false] =
        [0, -1, -1, 1, -1, -1, 2, -1, -1, -1] ∧
      ∃ outs, computeEagle3NativeResponseOutputs realSoftmax Real.exp
          [0, -1, -1, 1, -1, -1, 2, -1, -1, -1]
          [true, false, false, true, false, false, true, false, false, false] 1 true
          [⟨[2, 1, -1], [0, -5, 3, 7, 1, 0, 0, 0, 0, 0], 3⟩,
            ⟨[-1, 0, 1], [0, 5, 1, -1, 2, 0, 0, 0, 0, 0], 4⟩] = .ok outs ∧
        List.Forall₂ (PathsAgree realSoftmax [0, 2, 4])
          [⟨[2, 1, -1], [0, -5, 3, 7, 1, 0, 0, 0, 0, 0], 3⟩,
            ⟨[-1, 0, 1], [0, 5, 1, -1, 2, 0, 0, 0, 0, 0], 4⟩] outs := by
  have hmaps : VocabMaps 10 [0, 2, 4]
      [true, false, false, true, false, false, true, false, false, false] :=
    ⟨by decide, by decide, rfl, by decide⟩
  have htable : refreshTargetToDraft 10 [0, 2, 4]
      [true, false, false, true, false, false, true, false, false, false] =
      [0, -1, -1, 1, -1, -1, 2, -1, -1, -1] := by decide
  refine ⟨htable, ?_⟩
  rw [← htable]
  refine (eagle3_vocab_paths_agree realSoftmax Real.exp hmaps).2.2.2 1 true _ (by decide)
    Nat.one_pos fun row hrow => ?_
  rcases List.mem_cons.mp hrow with rfl | hrow
  · exact ⟨rfl, rfl⟩
  · rw [List.mem_singleton.mp hrow]
    exact ⟨rfl, rfl⟩

end DraftOpd
