import DraftOpd.CustomizedInfo
import DraftOpd.SortedSet
import Mathlib.Algebra.Order.Ring.Rat

/-!
# Rejected drafts in the training engine

The engine reads the rejected-draft lists of a batch twice : once on the whole mini-batch
to count its rejected tokens, sum their position weights or count its TV blocks, and once
on every micro-batch to build the padded tensors the model gets. A row of those tensors
is modelled as a row of cells, one cell a position.

`Sample.kept` is what both keep of a sample. `countDflashRejectedDraftTokens_eq`,
`sumDflashRejectedDraftPositionWeights_eq` and `buildDflashRejectedDraftTensors_eq`
compute the functions on the lists of a batch of samples.
-/

namespace DraftOpd

/-- The `ValueError`s of the metadata functions, with the numbers in their messages. -/
inductive DraftBatchError where
  | countBatchSize (tokenIds batchSize : ℕ)
  | weightBatchSize (tokenIds offsets batchSize : ℕ)
  | weightLengths (sampleIdx tokenIds offsets : ℕ)
  | decayRange (decay : ℚ)
  | filterLengths (sampleIdx anchors offsets tokenIds : ℕ) (teacherLogprobs : Option ℕ)
  | tensorBatchSize (anchors offsets tokenIds teacherLogprobs batchSize : ℕ)
  | tensorLengths (sampleIdx anchors offsets tokenIds teacherLogprobs : ℕ)
  | tvLengths (sampleIdx anchors offsets tokenIds : ℕ)
  | randomTokenCount (tokenCount : ℤ) (responseLen : ℕ)
  | rejectBatchSize (entries batchSize : ℕ)
  | tvResponses

/-- A sample of a training batch, with its metadata. -/
structure Sample where
  /-- Its row of the input : the prompt, then the response. -/
  inputIds : List ℤ
  promptLen : ℕ
  responseLen : ℕ
  /-- The sum of its row of the attention mask, the padded length without a mask. -/
  validSeqLen : ℕ
  rejectTokenIndices : List ℤ
  anchors : List ℤ
  offsets : List ℤ
  tokenIds : List ℤ
  teacherLogprobs : List LogProb
  deriving Inhabited

/-- `_normalize_dflash_rejected_draft_values` (`transformer_impl.py:1255-1286`) on values
that are one list a sample. -/
def normalizeDflashRejectedDraftValues {α : Type*} (rawValues : Option (List (List α)))
    (batchSize : ℕ) : List (List α) :=
  match rawValues with
  | none => List.replicate batchSize []
  | some values => if batchSize = 1 then [values.flatten] else values

/-- The raw `dflash_rejected_draft_*` values of a batch. -/
structure RejectedMetadata where
  anchorIndices : Option (List (List ℤ))
  offsets : Option (List (List ℤ))
  tokenIds : Option (List (List ℤ))
  teacherLogprobs : Option (List (List LogProb))

/-- The metadata of a batch of samples. -/
def RejectedMetadata.ofSamples (samples : List Sample) : RejectedMetadata where
  anchorIndices := some (samples.map Sample.anchors)
  offsets := some (samples.map Sample.offsets)
  tokenIds := some (samples.map Sample.tokenIds)
  teacherLogprobs := some (samples.map Sample.teacherLogprobs)

theorem normalize_map {α : Type*} (samples : List Sample) (f : Sample → List α) :
    normalizeDflashRejectedDraftValues (some (samples.map f)) samples.length = samples.map f := by
  unfold normalizeDflashRejectedDraftValues
  dsimp only
  split_ifs with h
  · obtain ⟨s, rfl⟩ := List.length_eq_one_iff.mp h
    simp
  · rfl

theorem getD_column {α : Type*} (samples : List Sample) {f : Sample → List α}
    (hf : f default = []) (i : ℕ) : (samples.map f).getD i [] = f (samples.getD i default) := by
  rw [← hf, List.getD_map]

/-- A loop over the samples of a batch. -/
theorem forRange_samples {ε β : Type*} {samples : List Sample} {body : ℕ → Except ε β}
    {g : Sample → β}
    (h : ∀ i < samples.length, body i = .ok (g (samples.getD i default))) :
    forRange samples.length body = .ok (samples.map g) := by
  rw [forRange_eq_ok h, map_range_getD]

theorem getD_mem {α : Type*} {xs : List α} {i : ℕ} (h : i < xs.length) (d : α) :
    xs.getD i d ∈ xs := by
  rw [List.getD_eq_getElem _ _ h]
  exact List.getElem_mem h

/-! ## The first rejected token of every anchor -/

/-- An entry of `selected_by_anchor`. -/
structure SelectedItem where
  itemIdx : ℕ
  anchor : ℤ
  offset : ℤ
  tokenId : ℤ
  teacherLogprob : Option LogProb

/-- The items of a sample. -/
def sampleItems (anchors offsets tokenIds : List ℤ) (teacherLogprobs : Option (List LogProb)) :
    List SelectedItem :=
  (anchors.zip (offsets.zip tokenIds)).mapIdx fun i x =>
    ⟨i, x.1, x.2.1, x.2.2, teacherLogprobs.bind fun ts => ts[i]?⟩

/-- One item of the filter loop (`transformer_impl.py:1328-1336`). -/
def selectFirst (selectedByAnchor : Dict ℤ SelectedItem) (item : SelectedItem) :
    Dict ℤ SelectedItem :=
  if item.tokenId < 0 ∨ item.offset ≤ 0 then selectedByAnchor
  else if ((selectedByAnchor.get? item.anchor).all fun current => item.offset < current.offset) then
    selectedByAnchor.set item.anchor item
  else selectedByAnchor

/-- The items selected for a sample, in the order of the metadata. -/
def firstTokens (items : List SelectedItem) : List SelectedItem :=
  ((items.foldl selectFirst .empty).entries.map Prod.snd).insertionSort
    fun a b => a.itemIdx ≤ b.itemIdx

/-- The items the filter does not pass over. -/
def SelectedItem.valid (item : SelectedItem) : Bool := decide (0 ≤ item.tokenId ∧ 0 < item.offset)

theorem selectFirst_of_not_valid {d : Dict ℤ SelectedItem} {item : SelectedItem}
    (h : item.valid = false) : selectFirst d item = d := by
  have h' : item.tokenId < 0 ∨ item.offset ≤ 0 := by
    simp only [SelectedItem.valid, decide_eq_false_iff_not] at h
    omega
  rw [selectFirst, if_pos h']

/-- A valid item is selected for its anchor when its offset is the smallest so far. -/
theorem get?_selectFirst (d : Dict ℤ SelectedItem) {item : SelectedItem} (h : item.valid = true)
    (k : ℤ) : (selectFirst d item).get? k =
      if k = item.anchor ∧ (d.get? k).all (fun current => item.offset < current.offset) then
        some item else d.get? k := by
  have h' : ¬(item.tokenId < 0 ∨ item.offset ≤ 0) := by
    simp only [SelectedItem.valid, decide_eq_true_eq] at h
    omega
  rw [selectFirst, if_neg h']
  by_cases hk : k = item.anchor
  · subst hk
    simp only [true_and]
    split_ifs
    · rw [Dict.get?_set, if_pos rfl]
    · rfl
  · simp only [hk, false_and, if_false]
    split_ifs
    · rw [Dict.get?_set, if_neg hk]
    · rfl

theorem mem_keys_selectFirst {d : Dict ℤ SelectedItem} {item : SelectedItem}
    (h : item.valid = true) (k : ℤ) :
    k ∈ (selectFirst d item).keys ↔ k = item.anchor ∨ k ∈ d.keys := by
  have h' : ¬(item.tokenId < 0 ∨ item.offset ≤ 0) := by
    simp only [SelectedItem.valid, decide_eq_true_eq] at h
    omega
  rw [selectFirst, if_neg h']
  split_ifs with hall
  · exact Dict.mem_keys_set
  · have hmem : item.anchor ∈ d.keys := by
      rw [Dict.mem_keys_iff]
      intro hnone
      rw [hnone] at hall
      exact hall rfl
    constructor
    · exact Or.inr
    · rintro (rfl | hk)
      · exact hmem
      · exact hk

/-- The dictionary after the loop holds valid items under their anchors. -/
theorem get?_foldl_selectFirst : ∀ (items : List SelectedItem) (d : Dict ℤ SelectedItem) (k : ℤ)
    (item : SelectedItem), (items.foldl selectFirst d).get? k = some item →
      d.get? k = some item ∨ item ∈ items ∧ item.valid = true ∧ item.anchor = k
  | [], _, _, _, h => Or.inl h
  | x :: items, d, k, item, h => by
    rcases get?_foldl_selectFirst items (selectFirst d x) k item h with h | ⟨hmem, hrest⟩
    · by_cases hv : x.valid = true
      · rw [get?_selectFirst d hv] at h
        split_ifs at h with hnew
        · obtain rfl := Option.some.inj h
          exact Or.inr ⟨List.mem_cons_self, hv, hnew.1.symm⟩
        · exact Or.inl h
      · rw [selectFirst_of_not_valid (by simpa using hv)] at h
        exact Or.inl h
    · exact Or.inr ⟨List.mem_cons_of_mem _ hmem, hrest⟩

theorem mem_keys_foldl_selectFirst : ∀ (items : List SelectedItem) (d : Dict ℤ SelectedItem)
    (k : ℤ), k ∈ (items.foldl selectFirst d).keys ↔
      k ∈ (items.filter SelectedItem.valid).map SelectedItem.anchor ∨ k ∈ d.keys
  | [], _, _ => by simp
  | x :: items, d, k => by
    rw [List.foldl_cons, mem_keys_foldl_selectFirst items]
    by_cases hv : x.valid = true
    · rw [mem_keys_selectFirst hv, List.filter_cons_of_pos hv, List.map_cons, List.mem_cons]
      tauto
    · rw [selectFirst_of_not_valid (by simpa using hv), List.filter_cons_of_neg hv]

theorem mem_firstTokens {items : List SelectedItem} {item : SelectedItem}
    (h : item ∈ firstTokens items) : item ∈ items ∧ item.valid = true := by
  rw [firstTokens, List.mem_insertionSort] at h
  obtain ⟨⟨k, item'⟩, hmem, rfl⟩ := List.mem_map.mp h
  rcases get?_foldl_selectFirst items .empty k item' (Dict.mem_entries_iff.mp hmem) with h | h
  · cases h
  · exact ⟨h.1, h.2.1⟩

/-- One item is selected for every anchor of a valid item. -/
theorem length_firstTokens (items : List SelectedItem) : (firstTokens items).length =
    ((items.filter SelectedItem.valid).map SelectedItem.anchor).dedup.length := by
  have hlen : (firstTokens items).length = (items.foldl selectFirst .empty).keys.length := by
    simp [firstTokens, Dict.keys]
  rw [hlen]
  refine List.Perm.length_eq ((List.perm_ext_iff_of_nodup (Dict.nodup_keys _)
    (List.nodup_dedup _)).mpr fun k => ?_)
  rw [mem_keys_foldl_selectFirst, List.mem_dedup]
  exact or_iff_left List.not_mem_nil

/-- `_filter_dflash_rejected_draft_first_tokens` (`transformer_impl.py:1288-1344`). The
items selected stand for the filtered lists. -/
def filterDflashRejectedDraftFirstTokens (anchors offsets tokenIds : List (List ℤ))
    (teacherLogprobs : Option (List (List LogProb))) :
    Except DraftBatchError (List (List SelectedItem)) :=
  forRange tokenIds.length fun sampleIdx =>
    let sampleAnchors := anchors.getD sampleIdx []
    let sampleOffsets := offsets.getD sampleIdx []
    let sampleTokenIds := tokenIds.getD sampleIdx []
    let sampleTeacherLogprobs := teacherLogprobs.map fun ts => ts.getD sampleIdx []
    if sampleAnchors.length = sampleOffsets.length ∧
        sampleOffsets.length = sampleTokenIds.length ∧
        (sampleTeacherLogprobs.all fun ts => sampleTokenIds.length == ts.length) then
      .ok (firstTokens (sampleItems sampleAnchors sampleOffsets sampleTokenIds
        sampleTeacherLogprobs))
    else
      .error (.filterLengths sampleIdx sampleAnchors.length sampleOffsets.length
        sampleTokenIds.length (sampleTeacherLogprobs.map List.length))

/-! ## The normalisers of the mini-batch -/

/-- `min(n, max_tokens_per_sample)`, when there is a limit. -/
def capped (maxTokensPerSample : Option ℕ) (n : ℕ) : ℕ := maxTokensPerSample.elim n (min n)

/-- `_count_dflash_rejected_draft_tokens` (`transformer_impl.py:1010-1045`). -/
def countDflashRejectedDraftTokens (rawTokenIds : Option (List (List ℤ))) (batchSize : ℕ)
    (maxTokensPerSample : Option ℕ) (rawAnchorIndices rawOffsets : Option (List (List ℤ)))
    (firstTokenOnly : Bool) : Except DraftBatchError ℕ := do
  let tokenIds := normalizeDflashRejectedDraftValues rawTokenIds batchSize
  if tokenIds.length ≠ batchSize then
    throw (.countBatchSize tokenIds.length batchSize)
  let tokenIds ← if firstTokenOnly then do
      let items ← filterDflashRejectedDraftFirstTokens
        (normalizeDflashRejectedDraftValues rawAnchorIndices batchSize)
        (normalizeDflashRejectedDraftValues rawOffsets batchSize) tokenIds none
      pure (items.map fun sample => sample.map SelectedItem.tokenId)
    else pure tokenIds
  return (tokenIds.map fun sample =>
    capped maxTokensPerSample (sample.countP fun tokenId => decide (0 ≤ tokenId))).sum

/-- `decay ** max(offset - 1, 0)`. -/
def positionWeight (decay : ℚ) (offset : ℤ) : ℚ := decay ^ (max (offset - 1) 0).toNat

/-- The weight loop over the items of a sample (`transformer_impl.py:1086-1093`). -/
def positionWeightLoop (maxTokensPerSample : Option ℕ) (decay : ℚ) : ℕ → List (ℤ × ℤ) → ℚ
  | _, [] => 0
  | selectedCount, (tokenId, offset) :: rest =>
    if tokenId < 0 ∨ offset ≤ 0 then
      positionWeightLoop maxTokensPerSample decay selectedCount rest
    else if (maxTokensPerSample.any fun m => m ≤ selectedCount) then 0
    else positionWeight decay offset +
      positionWeightLoop maxTokensPerSample decay (selectedCount + 1) rest

/-- `_sum_dflash_rejected_draft_position_weights` (`transformer_impl.py:1047-1095`). -/
def sumDflashRejectedDraftPositionWeights (rawTokenIds rawOffsets : Option (List (List ℤ)))
    (batchSize : ℕ) (maxTokensPerSample : Option ℕ) (decay : ℚ)
    (rawAnchorIndices : Option (List (List ℤ))) (firstTokenOnly : Bool) :
    Except DraftBatchError ℚ := do
  if decay ≤ 0 ∨ 1 < decay then
    throw (.decayRange decay)
  let tokenIds := normalizeDflashRejectedDraftValues rawTokenIds batchSize
  let offsets := normalizeDflashRejectedDraftValues rawOffsets batchSize
  if tokenIds.length ≠ batchSize ∨ offsets.length ≠ batchSize then
    throw (.weightBatchSize tokenIds.length offsets.length batchSize)
  let (tokenIds, offsets) ← if firstTokenOnly then do
      let items ← filterDflashRejectedDraftFirstTokens
        (normalizeDflashRejectedDraftValues rawAnchorIndices batchSize) offsets tokenIds none
      pure (items.map fun sample => sample.map SelectedItem.tokenId,
        items.map fun sample => sample.map SelectedItem.offset)
    else pure (tokenIds, offsets)
  let weights ← forRange tokenIds.length fun sampleIdx =>
    let sampleTokenIds := tokenIds.getD sampleIdx []
    let sampleOffsets := offsets.getD sampleIdx []
    if sampleTokenIds.length = sampleOffsets.length then
      .ok (positionWeightLoop maxTokensPerSample decay 0 (sampleTokenIds.zip sampleOffsets))
    else .error (.weightLengths sampleIdx sampleTokenIds.length sampleOffsets.length)
  return weights.sum

/-! ## The tensors of a micro-batch -/

/-- A position of the five `dflash_rejected_draft_*` tensors. -/
structure RejectedCell where
  anchor : ℤ
  offset : ℤ
  tokenId : ℤ
  teacherLogprob : LogProb
  mask : Bool

/-- The fill values of the tensors. -/
def RejectedCell.pad : RejectedCell := ⟨-2, -1, -1, ((0 : ℚ) : LogProb), false⟩

/-- `tensor[i, :count] = row`, the rest is the fill value. -/
def padRow {α : Type*} (width : ℕ) (pad : α) (row : List α) : List α :=
  row ++ List.replicate (width - row.length) pad

/-- `max((len(item) for item in rows), default=0)`. -/
def maxLength {α : Type*} (rows : List (List α)) : ℕ := (rows.map List.length).foldr max 0

/-- The cells of a sample's lists. -/
def rejectedCells (anchors offsets tokenIds : List ℤ) (teacherLogprobs : List LogProb) :
    List RejectedCell :=
  (anchors.zip (offsets.zip (tokenIds.zip teacherLogprobs))).map fun x =>
    ⟨x.1, x.2.1, x.2.2.1, x.2.2.2, true⟩

/-- The checks and the padding of `_build_dflash_rejected_draft_tensors`
(`transformer_impl.py:1393-1441`). -/
def padRejectedDraftTensors (anchors offsets tokenIds : List (List ℤ))
    (teacherLogprobs : List (List LogProb)) (batchSize : ℕ) :
    Except DraftBatchError (List (List RejectedCell)) := do
  if anchors.length ≠ batchSize ∨ offsets.length ≠ batchSize ∨ tokenIds.length ≠ batchSize ∨
      teacherLogprobs.length ≠ batchSize then
    throw (.tensorBatchSize anchors.length offsets.length tokenIds.length
      teacherLogprobs.length batchSize)
  let rows ← forRange batchSize fun sampleIdx =>
    let sampleAnchors := anchors.getD sampleIdx []
    let sampleOffsets := offsets.getD sampleIdx []
    let sampleTokenIds := tokenIds.getD sampleIdx []
    let sampleTeacherLogprobs := teacherLogprobs.getD sampleIdx []
    if sampleAnchors.length = sampleOffsets.length ∧
        sampleOffsets.length = sampleTokenIds.length ∧
        sampleTokenIds.length = sampleTeacherLogprobs.length then
      .ok (rejectedCells sampleAnchors sampleOffsets sampleTokenIds sampleTeacherLogprobs)
    else
      .error (.tensorLengths sampleIdx sampleAnchors.length sampleOffsets.length
        sampleTokenIds.length sampleTeacherLogprobs.length)
  let width := max (maxLength anchors) 1
  return rows.map (padRow width .pad)

/-- `_build_dflash_rejected_draft_tensors` (`transformer_impl.py:1346-1449`). -/
def buildDflashRejectedDraftTensors (metadata : RejectedMetadata) (batchSize : ℕ)
    (firstTokenOnly useTvLoss : Bool) : Except DraftBatchError (List (List RejectedCell)) := do
  let anchors := normalizeDflashRejectedDraftValues metadata.anchorIndices batchSize
  let offsets := normalizeDflashRejectedDraftValues metadata.offsets batchSize
  let tokenIds := normalizeDflashRejectedDraftValues metadata.tokenIds batchSize
  let teacherLogprobs := normalizeDflashRejectedDraftValues metadata.teacherLogprobs batchSize
  if firstTokenOnly && !useTvLoss then
    let items ← filterDflashRejectedDraftFirstTokens anchors offsets tokenIds
      (some teacherLogprobs)
    padRejectedDraftTensors (items.map fun sample => sample.map SelectedItem.anchor)
      (items.map fun sample => sample.map SelectedItem.offset)
      (items.map fun sample => sample.map SelectedItem.tokenId)
      (items.map fun sample => sample.map fun item =>
        item.teacherLogprob.getD ((0 : ℚ) : LogProb)) batchSize
  else padRejectedDraftTensors anchors offsets tokenIds teacherLogprobs batchSize

/-! ## The functions on a batch of samples -/

/-- The metadata lists of a sample have one length. -/
structure Sample.Even (s : Sample) : Prop where
  length_offsets : s.anchors.length = s.offsets.length
  length_tokenIds : s.offsets.length = s.tokenIds.length
  length_teacherLogprobs : s.tokenIds.length = s.teacherLogprobs.length

/-- Metadata as a server records it : anchors in the response or just before it, offsets
in the block. -/
structure Sample.WellFormed (s : Sample) (blockSize : ℕ) : Prop extends s.Even where
  anchor_range : ∀ a ∈ s.anchors, -1 ≤ a ∧ a < s.responseLen
  offset_range : ∀ o ∈ s.offsets, 1 ≤ o ∧ o < blockSize
  token_nonneg : ∀ t ∈ s.tokenIds, 0 ≤ t

/-- The cell of a selected item. -/
def SelectedItem.cell (item : SelectedItem) : RejectedCell :=
  ⟨item.anchor, item.offset, item.tokenId, item.teacherLogprob.getD ((0 : ℚ) : LogProb), true⟩

theorem rejectedCells_map (items : List SelectedItem) :
    rejectedCells (items.map SelectedItem.anchor) (items.map SelectedItem.offset)
      (items.map SelectedItem.tokenId)
      (items.map fun item => item.teacherLogprob.getD ((0 : ℚ) : LogProb)) =
        items.map SelectedItem.cell := by
  rw [rejectedCells, List.zip_map', List.zip_map', List.zip_map', List.map_map]
  rfl

theorem map_anchor_sampleItems {anchors offsets tokenIds : List ℤ}
    (h₁ : anchors.length = offsets.length) (h₂ : offsets.length = tokenIds.length)
    (teacherLogprobs : Option (List LogProb)) :
    (sampleItems anchors offsets tokenIds teacherLogprobs).map SelectedItem.anchor = anchors := by
  refine List.ext_getElem (by simp [sampleItems, h₁, h₂]) fun i hi₁ hi₂ => ?_
  simp [sampleItems]

theorem mem_of_mem_sampleItems {anchors offsets tokenIds : List ℤ}
    {teacherLogprobs : Option (List LogProb)} {item : SelectedItem}
    (h : item ∈ sampleItems anchors offsets tokenIds teacherLogprobs) :
    item.anchor ∈ anchors ∧ item.offset ∈ offsets ∧ item.tokenId ∈ tokenIds := by
  obtain ⟨i, hi, rfl⟩ := List.mem_mapIdx.mp h
  simp only [List.getElem_zip]
  exact ⟨List.getElem_mem _, List.getElem_mem _, List.getElem_mem _⟩

theorem mem_of_mem_rejectedCells {anchors offsets tokenIds : List ℤ}
    {teacherLogprobs : List LogProb} {cell : RejectedCell}
    (h : cell ∈ rejectedCells anchors offsets tokenIds teacherLogprobs) :
    cell.anchor ∈ anchors ∧ cell.offset ∈ offsets ∧ cell.tokenId ∈ tokenIds ∧
      cell.mask = true := by
  obtain ⟨⟨a, o, t, l⟩, hmem, rfl⟩ := List.mem_map.mp h
  obtain ⟨ha, hrest⟩ := List.of_mem_zip hmem
  obtain ⟨ho, hrest⟩ := List.of_mem_zip hrest
  exact ⟨ha, ho, (List.of_mem_zip hrest).1, rfl⟩

namespace Sample

variable {s : Sample} {blockSize : ℕ}

/-- The items of a sample the filter selects. -/
def firstItems (s : Sample) : List SelectedItem :=
  firstTokens (sampleItems s.anchors s.offsets s.tokenIds (some s.teacherLogprobs))

/-- What the tensors keep of a sample. -/
def kept (s : Sample) (firstTokenOnly : Bool) : List RejectedCell :=
  if firstTokenOnly then s.firstItems.map SelectedItem.cell
  else rejectedCells s.anchors s.offsets s.tokenIds s.teacherLogprobs

theorem Even.zip_eq (h : s.Even) :
    s.tokenIds.zip s.offsets = (s.kept false).map fun cell => (cell.tokenId, cell.offset) := by
  have h₁ := h.length_offsets
  have h₂ := h.length_tokenIds
  have h₃ := h.length_teacherLogprobs
  refine List.ext_getElem (by simp [kept, rejectedCells]; omega) fun i hi₁ hi₂ => ?_
  simp [kept, rejectedCells]

theorem WellFormed.items_valid (h : s.WellFormed blockSize)
    (teacherLogprobs : Option (List LogProb)) :
    ∀ item ∈ sampleItems s.anchors s.offsets s.tokenIds teacherLogprobs, item.valid = true := by
  intro item hitem
  obtain ⟨-, ho, ht⟩ := mem_of_mem_sampleItems hitem
  have ho := h.offset_range _ ho
  have ht := h.token_nonneg _ ht
  simp only [SelectedItem.valid, decide_eq_true_eq]
  omega

/-- The number of items selected does not depend on the log-probabilities. -/
theorem WellFormed.length_firstTokens (h : s.WellFormed blockSize)
    (teacherLogprobs : Option (List LogProb)) :
    (firstTokens (sampleItems s.anchors s.offsets s.tokenIds teacherLogprobs)).length =
      s.anchors.dedup.length := by
  rw [DraftOpd.length_firstTokens, List.filter_eq_self.mpr (h.items_valid teacherLogprobs),
    map_anchor_sampleItems h.length_offsets h.length_tokenIds]

theorem WellFormed.length_kept (h : s.WellFormed blockSize) (firstTokenOnly : Bool) :
    (s.kept firstTokenOnly).length =
      if firstTokenOnly then s.anchors.dedup.length else s.tokenIds.length := by
  unfold kept
  split_ifs
  · rw [List.length_map, firstItems, h.length_firstTokens]
  · have h₁ := h.length_offsets
    have h₂ := h.length_tokenIds
    have h₃ := h.length_teacherLogprobs
    simp [rejectedCells]
    omega

/-- What is kept is in range. -/
theorem WellFormed.kept_range (h : s.WellFormed blockSize) {firstTokenOnly : Bool}
    {cell : RejectedCell} (hcell : cell ∈ s.kept firstTokenOnly) :
    cell.mask = true ∧ -1 ≤ cell.anchor ∧ cell.anchor < s.responseLen ∧ 1 ≤ cell.offset ∧
      cell.offset < blockSize ∧ 0 ≤ cell.tokenId := by
  unfold kept at hcell
  have hall : cell.anchor ∈ s.anchors ∧ cell.offset ∈ s.offsets ∧ cell.tokenId ∈ s.tokenIds ∧
      cell.mask = true := by
    split_ifs at hcell
    · obtain ⟨item, hitem, rfl⟩ := List.mem_map.mp hcell
      obtain ⟨ha, ho, ht⟩ := mem_of_mem_sampleItems (mem_firstTokens hitem).1
      exact ⟨ha, ho, ht, rfl⟩
    · exact mem_of_mem_rejectedCells hcell
  obtain ⟨ha, ho, ht, hm⟩ := hall
  have ha := h.anchor_range _ ha
  have ho := h.offset_range _ ho
  exact ⟨hm, ha.1, ha.2, ho.1, ho.2, h.token_nonneg _ ht⟩

end Sample

theorem padRejectedDraftTensors_eq (samples : List Sample) {a o t : Sample → List ℤ}
    {l : Sample → List LogProb} (ha : a default = []) (ho : o default = []) (ht : t default = [])
    (hl : l default = []) (h₁ : ∀ s ∈ samples, (a s).length = (o s).length)
    (h₂ : ∀ s ∈ samples, (o s).length = (t s).length)
    (h₃ : ∀ s ∈ samples, (t s).length = (l s).length) :
    ∃ width, padRejectedDraftTensors (samples.map a) (samples.map o) (samples.map t)
        (samples.map l) samples.length =
      .ok (samples.map fun s => padRow width .pad (rejectedCells (a s) (o s) (t s) (l s))) := by
  refine ⟨max (maxLength (samples.map a)) 1, ?_⟩
  unfold padRejectedDraftTensors
  rw [if_neg (by simp)]
  change (forRange _ _ >>= fun rows => pure (rows.map _)) = _
  rw [forRange_samples (g := fun s => rejectedCells (a s) (o s) (t s) (l s)) fun i hi => ?_]
  · simp only [bind, Except.bind, pure, Except.pure, List.map_map]
    rfl
  · have hs := getD_mem hi default
    rw [getD_column samples ha, getD_column samples ho, getD_column samples ht,
      getD_column samples hl, if_pos ⟨h₁ _ hs, h₂ _ hs, h₃ _ hs⟩]

/-- The tensors are only built of lists of one length. -/
theorem even_of_padRejectedDraftTensors_ok {samples : List Sample}
    {tensors : List (List RejectedCell)}
    (h : padRejectedDraftTensors (samples.map Sample.anchors) (samples.map Sample.offsets)
      (samples.map Sample.tokenIds) (samples.map Sample.teacherLogprobs) samples.length =
        .ok tensors) : ∀ s ∈ samples, s.Even := by
  intro s hs
  obtain ⟨i, hi, rfl⟩ := List.getElem_of_mem hs
  unfold padRejectedDraftTensors at h
  rw [if_neg (by simp)] at h
  obtain ⟨rows, hrows, -⟩ := of_bind_ok h
  have hrow := (of_forRange_ok hrows []).2 i hi
  rw [getD_column samples (f := Sample.anchors) rfl,
    getD_column samples (f := Sample.offsets) rfl,
    getD_column samples (f := Sample.tokenIds) rfl,
    getD_column samples (f := Sample.teacherLogprobs) rfl,
    List.getD_eq_getElem _ _ hi] at hrow
  dsimp only at hrow
  split_ifs at hrow with heven
  exact ⟨heven.1, heven.2.1, heven.2.2⟩

/-! The TV loss gets the metadata as it is, also when only first tokens are trained. -/

theorem tvTensors_eq (samples : List Sample) (firstTokenOnly : Bool) :
    buildDflashRejectedDraftTensors (.ofSamples samples) samples.length firstTokenOnly true =
      padRejectedDraftTensors (samples.map Sample.anchors) (samples.map Sample.offsets)
        (samples.map Sample.tokenIds) (samples.map Sample.teacherLogprobs) samples.length := by
  simp only [buildDflashRejectedDraftTensors, RejectedMetadata.ofSamples, normalize_map,
    Bool.not_true, Bool.and_false, Bool.false_eq_true, if_false]

theorem tvTensors_ok {samples : List Sample} (heven : ∀ s ∈ samples, s.Even)
    (firstTokenOnly : Bool) : ∃ width,
      buildDflashRejectedDraftTensors (.ofSamples samples) samples.length firstTokenOnly true =
        .ok (samples.map fun s => padRow width .pad (s.kept false)) := by
  rw [tvTensors_eq]
  exact padRejectedDraftTensors_eq samples rfl rfl rfl rfl
    (fun s hs => (heven s hs).length_offsets) (fun s hs => (heven s hs).length_tokenIds)
    (fun s hs => (heven s hs).length_teacherLogprobs)

theorem of_tvTensors_ok {samples : List Sample} {firstTokenOnly : Bool}
    {tensors : List (List RejectedCell)}
    (h : buildDflashRejectedDraftTensors (.ofSamples samples) samples.length firstTokenOnly true =
      .ok tensors) :
    (∀ s ∈ samples, s.Even) ∧
      ∃ width, tensors = samples.map fun s => padRow width .pad (s.kept false) := by
  have heven : ∀ s ∈ samples, s.Even := by
    rw [tvTensors_eq] at h
    exact even_of_padRejectedDraftTensors_ok h
  obtain ⟨width, htensors⟩ := tvTensors_ok heven firstTokenOnly
  exact ⟨heven, width, Except.ok.inj (h.symm.trans htensors)⟩

section Batch

variable {samples : List Sample} {blockSize : ℕ}
  (h : ∀ s ∈ samples, s.WellFormed blockSize)

include h

theorem filter_first_eq (teacher : Option (Sample → List LogProb))
    (hdef : ∀ f ∈ teacher, f default = [])
    (hlen : ∀ f ∈ teacher, ∀ s ∈ samples, s.tokenIds.length = (f s).length) :
    filterDflashRejectedDraftFirstTokens (samples.map Sample.anchors) (samples.map Sample.offsets)
        (samples.map Sample.tokenIds) (teacher.map samples.map) =
      .ok (samples.map fun s => firstTokens (sampleItems s.anchors s.offsets s.tokenIds
        (teacher.map fun f => f s))) := by
  unfold filterDflashRejectedDraftFirstTokens
  rw [List.length_map]
  refine forRange_samples fun i hi => ?_
  have hs := h _ (getD_mem hi default)
  rw [getD_column samples (f := Sample.anchors) rfl, getD_column samples (f := Sample.offsets) rfl,
    getD_column samples (f := Sample.tokenIds) rfl]
  have hteacher : ((teacher.map samples.map).map fun ts => ts.getD i []) =
      teacher.map fun f => f (samples.getD i default) := by
    cases teacher with
    | none => rfl
    | some f => simp only [Option.map_some, getD_column samples (hdef f rfl)]
  rw [hteacher, if_pos]
  refine ⟨hs.length_offsets, hs.length_tokenIds, ?_⟩
  cases teacher with
  | none => rfl
  | some f => simpa using hlen f rfl _ (getD_mem hi default)

/-- The tensors of a micro-batch : what is kept of every sample, padded. -/
theorem buildDflashRejectedDraftTensors_eq (firstTokenOnly useTvLoss : Bool) :
    ∃ width, buildDflashRejectedDraftTensors (.ofSamples samples) samples.length firstTokenOnly
        useTvLoss =
      .ok (samples.map fun s => padRow width .pad (s.kept (firstTokenOnly && !useTvLoss))) := by
  unfold buildDflashRejectedDraftTensors RejectedMetadata.ofSamples
  simp only [normalize_map]
  cases hfirst : firstTokenOnly && !useTvLoss with
  | true =>
    have hfilter := filter_first_eq h (some Sample.teacherLogprobs) (by simp; rfl)
      (by simpa using fun s hs => (h s hs).length_teacherLogprobs)
    simp only [Option.map_some] at hfilter
    rw [if_pos rfl, hfilter]
    simp only [bind, Except.bind, List.map_map]
    obtain ⟨width, hpad⟩ := padRejectedDraftTensors_eq samples
      (a := fun s => (s.firstItems).map SelectedItem.anchor)
      (o := fun s => (s.firstItems).map SelectedItem.offset)
      (t := fun s => (s.firstItems).map SelectedItem.tokenId)
      (l := fun s => (s.firstItems).map fun item =>
        item.teacherLogprob.getD ((0 : ℚ) : LogProb)) rfl rfl rfl rfl
      (fun s _ => by simp) (fun s _ => by simp) (fun s _ => by simp)
    refine ⟨width, hpad.trans ?_⟩
    simp only [rejectedCells_map, Sample.kept, if_true]
  | false =>
    obtain ⟨width, hpad⟩ := padRejectedDraftTensors_eq samples (a := Sample.anchors)
      (o := Sample.offsets) (t := Sample.tokenIds) (l := Sample.teacherLogprobs) rfl rfl rfl rfl
      (fun s hs => (h s hs).length_offsets) (fun s hs => (h s hs).length_tokenIds)
      (fun s hs => (h s hs).length_teacherLogprobs)
    exact ⟨width, hpad⟩

/-- The rejected tokens of a mini-batch are what is kept of its samples, up to the limit. -/
theorem countDflashRejectedDraftTokens_eq (maxTokensPerSample : Option ℕ)
    (firstTokenOnly : Bool) :
    countDflashRejectedDraftTokens (some (samples.map Sample.tokenIds)) samples.length
        maxTokensPerSample (some (samples.map Sample.anchors)) (some (samples.map Sample.offsets))
        firstTokenOnly =
      .ok (samples.map fun s => capped maxTokensPerSample (s.kept firstTokenOnly).length).sum := by
  unfold countDflashRejectedDraftTokens
  simp only [normalize_map]
  rw [if_neg (by simp)]
  cases firstTokenOnly with
  | true =>
    have hfilter := filter_first_eq h none (by simp) (by simp)
    simp only [Option.map_none] at hfilter
    rw [if_pos rfl, hfilter]
    refine congrArg (fun l => Except.ok (List.sum l)) ?_
    rw [List.map_map, List.map_map]
    refine List.map_congr_left fun s hs => congrArg (capped maxTokensPerSample) ?_
    have hall : ∀ t ∈ (firstTokens (sampleItems s.anchors s.offsets s.tokenIds none)).map
        SelectedItem.tokenId, decide (0 ≤ t) = true := by
      intro t ht
      obtain ⟨item, hitem, rfl⟩ := List.mem_map.mp ht
      have hv := (mem_firstTokens hitem).2
      simp only [SelectedItem.valid, decide_eq_true_eq] at hv
      exact decide_eq_true hv.1
    rw [(h s hs).length_kept, if_pos rfl, ← (h s hs).length_firstTokens none]
    exact (List.countP_eq_length.mpr hall).trans (List.length_map ..)
  | false =>
    refine congrArg (fun l => Except.ok (List.sum l)) ?_
    rw [List.map_map]
    refine List.map_congr_left fun s hs => congrArg (capped maxTokensPerSample) ?_
    rw [(h s hs).length_kept]
    exact List.countP_eq_length.mpr fun t ht => decide_eq_true ((h s hs).token_nonneg t ht)

end Batch

/-- `row[:max_tokens_per_sample]`, when there is a limit. -/
def cappedTake {α : Type*} (maxTokensPerSample : Option ℕ) (row : List α) : List α :=
  maxTokensPerSample.elim row row.take

theorem cappedTake_map {α β : Type*} (maxTokensPerSample : Option ℕ) (f : α → β) (row : List α) :
    cappedTake maxTokensPerSample (row.map f) = (cappedTake maxTokensPerSample row).map f := by
  cases maxTokensPerSample with
  | none => rfl
  | some m => exact List.map_take.symm

/-- The weight loop adds up the weights of the first items, up to the limit. -/
theorem positionWeightLoop_eq (decay : ℚ) : ∀ (rest : List (ℤ × ℤ)) (maxTokens : Option ℕ)
    (selectedCount : ℕ), (∀ x ∈ rest, 0 ≤ x.1 ∧ 0 < x.2) →
    positionWeightLoop maxTokens decay selectedCount rest =
      ((cappedTake (maxTokens.map fun m => m - selectedCount) rest).map fun x =>
        positionWeight decay x.2).sum
  | [], none, _, _ => rfl
  | [], some _, _, _ => by simp [positionWeightLoop, cappedTake]
  | (t, o) :: rest, maxTokens, selectedCount, h => by
    have hx := h _ List.mem_cons_self
    rw [positionWeightLoop, if_neg (by omega),
      positionWeightLoop_eq decay rest maxTokens _ fun x hx => h x (List.mem_cons_of_mem _ hx)]
    cases maxTokens with
    | none => rfl
    | some m =>
      by_cases hm : m ≤ selectedCount
      · simp [cappedTake, hm, Nat.sub_eq_zero_of_le hm]
      · obtain ⟨k, hk⟩ : ∃ k, m - selectedCount = k + 1 := ⟨m - selectedCount - 1, by omega⟩
        have hk' : m - (selectedCount + 1) = k := by omega
        simp [cappedTake, hm, hk, hk']

/-- The weights of a mini-batch are those of what is kept, up to the limit. -/
theorem sumDflashRejectedDraftPositionWeights_eq {samples : List Sample} {blockSize : ℕ}
    (h : ∀ s ∈ samples, s.WellFormed blockSize) (maxTokensPerSample : Option ℕ) {decay : ℚ}
    (hdecay : 0 < decay ∧ decay ≤ 1) (rawAnchorIndices : Option (List (List ℤ))) :
    sumDflashRejectedDraftPositionWeights (some (samples.map Sample.tokenIds))
        (some (samples.map Sample.offsets)) samples.length maxTokensPerSample decay
        rawAnchorIndices false =
      .ok (samples.map fun s => ((cappedTake maxTokensPerSample (s.kept false)).map fun cell =>
        positionWeight decay cell.offset).sum).sum := by
  have hrange : ¬(decay ≤ 0 ∨ 1 < decay) := not_or.mpr ⟨not_le.mpr hdecay.1, not_lt.mpr hdecay.2⟩
  unfold sumDflashRejectedDraftPositionWeights
  simp only [normalize_map]
  rw [if_neg hrange, if_neg (by simp)]
  change (forRange _ _ >>= fun weights => pure weights.sum) = _
  rw [List.length_map, forRange_samples (g := fun s => ((cappedTake maxTokensPerSample
    (s.kept false)).map fun cell => positionWeight decay cell.offset).sum) fun i hi => ?_]
  · rfl
  · have hs := h _ (getD_mem hi default)
    rw [getD_column samples (f := Sample.tokenIds) rfl,
      getD_column samples (f := Sample.offsets) rfl, if_pos hs.length_tokenIds.symm,
      hs.toEven.zip_eq, positionWeightLoop_eq]
    · simp only [Nat.sub_zero, Option.map_id_fun', id, cappedTake_map, List.map_map]
      rfl
    · intro x hx
      obtain ⟨cell, hcell, rfl⟩ := List.mem_map.mp hx
      have hrange := hs.kept_range hcell
      exact ⟨hrange.2.2.2.2.2, hrange.2.2.2.1⟩

end DraftOpd
