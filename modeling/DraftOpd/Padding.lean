import DraftOpd.Aligned
import DraftOpd.Ragged
import DraftOpd.SortedSet

/-!
# Padded and nested micro-batches

The engine holds a micro-batch with the prompts padded on the left and the responses on the
right, or as nested rows after `left_right_2_no_padding`. `_prepare_composed_dflash_inputs`
makes rows without a gap of either, and `no_padding_2_padding` cuts the response window out of
the per-row outputs, one position to the left.

`composed_roundTrip` : both layouts give the same inputs, and what comes back at `(i, j)` is the
output of row `i` at `prompt_len + j - 1`.
-/

namespace DraftOpd

/-- A tensor of two dimensions, with rows of one width or nested rows. -/
inductive Tensor2 (α : Type) where
  | padded (rows : List (List α))
  | nested (rows : List (List α))

/-- The rows, padded or not. -/
def Tensor2.rows {α : Type} : Tensor2 α → List (List α)
  | .padded rows => rows
  | .nested rows => rows

/-- `shape[1]`. -/
def Tensor2.width {α : Type} (tensor : Tensor2 α) : ℕ := (tensor.rows.headD []).length

/-- What the layout functions read of a micro-batch. -/
structure ComposedBatch where
  inputIds : Tensor2 ℤ
  positionIds : Tensor2 ℤ
  attentionMask : List (List Bool)
  prompts : Tensor2 ℤ
  responses : Tensor2 ℤ
  padTokenId : ℤ
  /-- `max_response_len`, `-1` when it is not set. -/
  maxResponseLen : ℤ

/-- What the layout functions raise. -/
inductive LayoutError where
  /-- `max` of no rows. -/
  | emptyBatch
  /-- `Cannot pad an empty nested tensor`. -/
  | emptyNested
  /-- A row that does not fit the output. -/
  | shapeMismatch
  /-- `offsets()` of a tensor that is not nested. -/
  | notNested
  /-- `sequence_offsets[-1] == values.shape[0]`. -/
  | totalLength
  /-- `assumes prompt_len > 0`. -/
  | emptyPrompt
  /-- `OPD loss mask shape does not match response mask shape`. -/
  | maskShape
  deriving DecidableEq

/-! ## The lengths -/

/-- The sum of a row of the attention mask. -/
def maskSum (mask : List Bool) : ℕ := mask.count true

/-- `row[mask]`. -/
def selectMask {α : Type} (row : List α) (mask : List Bool) : List α :=
  ((row.zip mask).filter Prod.snd).map Prod.fst

/-- The largest of the lengths. -/
def maxOfLens (lens : List ℕ) : ℕ := lens.foldr max 0

/-- `_compute_composed_dflash_lengths` (`transformer_impl.py:1542-1566`). -/
def computeComposedDflashLengths (attentionMask : List (List Bool))
    (prompts responses : Tensor2 ℤ) : List ℕ × List ℕ :=
  let promptLengths := match prompts with
    | .nested rows => rows.map List.length
    | .padded _ => attentionMask.map fun mask => maskSum (mask.take prompts.width)
  let responseLengths := match responses with
    | .nested rows => rows.map List.length
    | .padded _ =>
      let promptWidth := match prompts with
        | .padded _ => prompts.width
        | .nested _ => maxOfLens promptLengths
      attentionMask.map fun mask => maskSum ((mask.drop promptWidth).take responses.width)
  (promptLengths, responseLengths)

/-! ## The inputs -/

/-- The rows that the composed model is given, with the lengths. -/
structure ComposedInputs where
  inputIds : List (List ℤ)
  attentionMask : List (List Bool)
  positionIds : List (List ℤ)
  promptLengths : List ℕ
  responseLengths : List ℕ

/-- `arange(width) < len`. -/
def lengthMask (width len : ℕ) : List Bool := (List.range width).map fun i => decide (i < len)

/-- `_nested_to_padded_tensor_no_kernel` (`transformer_impl.py:1514-1540`) of two dimensions. -/
def nestedToPaddedTensorNoKernel (tensor : Tensor2 ℤ) (padding : ℤ) (batchSize width : ℕ) :
    Except LayoutError (List (List ℤ)) :=
  match tensor with
  | .padded rows =>
    .ok ((List.range batchSize).map fun i => padTo padding width ((rows.getD i []).take width))
  | .nested rows =>
    if rows = [] then .error .emptyNested
    else if batchSize < rows.length ∨ rows.any fun row => decide (width < row.length) then
      .error .shapeMismatch
    else .ok ((List.range batchSize).map fun i => padTo padding width (rows.getD i []))

/-- `_compact_padded_composed_dflash_inputs` (`transformer_impl.py:1568-1603`), with position ids
of two dimensions. -/
def compactPaddedComposedDflashInputs (inputIds : List (List ℤ)) (attentionMask : List (List Bool))
    (positionIds : List (List ℤ)) (padTokenId : ℤ) :
    List (List ℤ) × List (List Bool) × List (List ℤ) :=
  let validLengths := attentionMask.map maskSum
  let maxSeqLen := maxOfLens validLengths
  (List.zipWith (fun row mask => padTo padTokenId maxSeqLen (selectMask row mask)) inputIds
      attentionMask,
    validLengths.map (lengthMask maxSeqLen),
    List.zipWith (fun row mask => padTo 0 maxSeqLen (selectMask row mask)) positionIds
      attentionMask)

/-- The layout part of `_prepare_composed_dflash_inputs` (`transformer_impl.py:1605-1644`). -/
def prepareComposedDflashInputs (batch : ComposedBatch) : Except LayoutError ComposedInputs := do
  let lengths := computeComposedDflashLengths batch.attentionMask batch.prompts batch.responses
  match batch.inputIds with
  | .nested rows =>
    if rows = [] then
      throw .emptyBatch
    let seqLengths := rows.map List.length
    let maxSeqLen := maxOfLens seqLengths
    let inputIds ← nestedToPaddedTensorNoKernel batch.inputIds batch.padTokenId rows.length
      maxSeqLen
    let positionIds ← nestedToPaddedTensorNoKernel batch.positionIds 0 rows.length maxSeqLen
    return ⟨inputIds, seqLengths.map (lengthMask maxSeqLen), positionIds, lengths.1, lengths.2⟩
  | .padded rows =>
    let positionIds := batch.positionIds.rows
    if batch.attentionMask.all fun mask => mask.all id then
      return ⟨rows, batch.attentionMask, positionIds, lengths.1, lengths.2⟩
    let compact := compactPaddedComposedDflashInputs rows batch.attentionMask positionIds
      batch.padTokenId
    return ⟨compact.1, compact.2.1, compact.2.2, lengths.1, lengths.2⟩

/-! ## The nested layout -/

/-- `unpad_input` (`npu_flash_attn_utils.py:99-129`) : the attended positions of the flattened
rows, and how many each row has. -/
def unpadInput {α : Type} (rows : List (List α)) (attentionMask : List (List Bool)) :
    List α × List ℕ :=
  let indices := ((attentionMask.flatten.zipIdx).filter Prod.fst).map Prod.snd
  (indices.filterMap fun i => rows.flatten[i]?, attentionMask.map maskSum)

/-- `left_right_2_no_padding` (`padding.py:23-96`) on the fields that are read here. -/
def leftRight2NoPadding (batch : ComposedBatch) : ComposedBatch :=
  match batch.inputIds, batch.positionIds with
  | .padded ids, .padded positions =>
    let unpadded := unpadInput ids batch.attentionMask
    { batch with
      inputIds := .nested (splitLens unpadded.2 unpadded.1)
      positionIds := .nested (List.zipWith selectMask positions batch.attentionMask)
      maxResponseLen := batch.responses.width }
  | _, _ => batch

/-! ## The outputs -/

/-- A per-token output, nested or flat. -/
inductive SequenceOutput (β : Type) where
  | nested (rows : List (List β))
  | flat (values : List β)

/-- `values()`. -/
def SequenceOutput.values {β : Type} : SequenceOutput β → List β
  | .nested rows => rows.flatten
  | .flat values => values

/-- `format_dflash_sequence_output` (`transformer_impl.py:1955-1968`). -/
def formatDflashSequenceOutput {β : Type} (batch : ComposedBatch) (output : List (List β)) :
    SequenceOutput β :=
  match batch.inputIds with
  | .nested rows =>
    let seqLens := rows.map List.length
    let values := (seqLens.zipIdx.map fun x => (output.getD x.2 []).take x.1).flatten
    .nested (splitLens seqLens values)
  | .padded _ =>
    let seqLens := batch.attentionMask.map maskSum
    .flat (seqLens.zipIdx.map fun x => (output.getD x.2 []).take x.1).flatten

/-- `F.pad(xs, (0, size))`, which cuts for a negative size. -/
def padRight {β : Type} (zero : β) (size : ℤ) (xs : List β) : List β :=
  if size < 0 then xs.take (xs.length + size).toNat else xs ++ List.replicate size.toNat zero

/-- The lengths that `no_padding_2_padding` reads, with the width of the responses. -/
def responseLayout (batch : ComposedBatch) : Except LayoutError (List ℕ × List ℕ × ℤ) :=
  match batch.prompts, batch.responses with
  | .nested prompts, .nested responses =>
    let responseLens := responses.map List.length
    .ok (prompts.map List.length, responseLens,
      if batch.maxResponseLen < 0 then maxOfLens responseLens else batch.maxResponseLen)
  | .nested _, .padded _ => .error .notNested
  | .padded _, responses =>
    .ok (batch.attentionMask.map fun mask => maskSum (mask.take batch.prompts.width),
      batch.attentionMask.map fun mask => maskSum (mask.drop batch.prompts.width),
      responses.width)

/-- `response_list` : the window of each row, padded on the right. -/
def responseList {β : Type} (zero : β) (values : List β) (maxResponseLen : ℤ)
    (responseLens sequenceOffsets : List ℕ) : List (List β) :=
  List.zipWith (fun (respLen seqOffset : ℕ) => padRight zero (maxResponseLen - respLen)
    ((values.drop (seqOffset - respLen - 1)).take respLen)) responseLens sequenceOffsets

/-- `no_padding_2_padding` (`padding.py:99-143`). -/
def noPadding2Padding {β : Type} (zero : β) (tensor : SequenceOutput β) (batch : ComposedBatch) :
    Except LayoutError (List (List β)) := do
  let values := tensor.values
  let (promptLens, responseLens, maxResponseLen) ← responseLayout batch
  let sequenceLens := List.zipWith (· + ·) promptLens responseLens
  let sequenceOffsets := cumsum 0 sequenceLens
  if sequenceOffsets.getLastD 0 ≠ values.length then
    throw .totalLength
  if promptLens.any fun promptLen => promptLen == 0 then
    throw .emptyPrompt
  return responseList zero values maxResponseLen responseLens sequenceOffsets

/-! ## Masks and lengths -/

section Masks

variable {α γ : Type}

theorem maskSum_map (p : α → Bool) (xs : List α) :
    maskSum (xs.map p) = (xs.filter p).length := by
  rw [maskSum, List.count, List.countP_map, ← List.countP_eq_length_filter]
  congr 1
  funext x
  simp

theorem selectMask_map (f : α → γ) (p : α → Bool) (xs : List α) :
    selectMask (xs.map f) (xs.map p) = (xs.filter p).map f := by
  rw [selectMask, List.zip_map', List.filter_map, List.map_map]
  rfl

/-- The attended positions, read one after another, are the attended tokens. -/
theorem filterMap_indices (p : α → Bool) (f : α → γ) (get : ℕ → Option γ) :
    ∀ (xs : List α) (n : ℕ), (∀ i x, xs[i]? = some x → get (n + i) = some (f x)) →
      ((((xs.map p).zipIdx n).filter Prod.fst).map Prod.snd).filterMap get =
        (xs.filter p).map f
  | [], _, _ => rfl
  | x :: xs, n, h => by
    have hrest := filterMap_indices p f get xs (n + 1) fun i y hy => by
      rw [Nat.add_right_comm]
      exact h (i + 1) y hy
    have hx : get n = some (f x) := h 0 x rfl
    rw [List.map_cons, List.zipIdx_cons]
    by_cases hp : p x = true
    · rw [List.filter_cons_of_pos (by exact hp), List.filter_cons_of_pos hp, List.map_cons,
        List.filterMap_cons_some hx, List.map_cons, hrest]
    · rw [List.filter_cons_of_neg (by exact hp), List.filter_cons_of_neg hp, hrest]

theorem le_maxOfLens {n : ℕ} {lens : List ℕ} (h : n ∈ lens) : n ≤ maxOfLens lens := by
  induction lens with
  | nil => exact absurd h List.not_mem_nil
  | cons m lens ih =>
    rcases List.mem_cons.mp h with rfl | h
    · exact le_max_left _ _
    · exact (ih h).trans (le_max_right _ _)

theorem maxOfLens_eq {n : ℕ} {lens : List ℕ} (hne : lens ≠ []) (h : ∀ m ∈ lens, m = n) :
    maxOfLens lens = n := by
  have hle : ∀ lens : List ℕ, (∀ m ∈ lens, m = n) → maxOfLens lens ≤ n := by
    intro lens
    induction lens with
    | nil => exact fun _ => Nat.zero_le n
    | cons m lens ih =>
      intro hall
      exact max_le (hall m List.mem_cons_self).le
        (ih fun m' hm' => hall m' (List.mem_cons_of_mem _ hm'))
  obtain ⟨m, hm⟩ := List.exists_mem_of_ne_nil lens hne
  exact le_antisymm (hle lens h) ((h m hm) ▸ le_maxOfLens hm)

theorem lengthMask_self (n : ℕ) : lengthMask n n = List.replicate n true := by
  refine List.eq_replicate_iff.mpr ⟨by simp [lengthMask], fun b hb => ?_⟩
  obtain ⟨i, hi, rfl⟩ := List.mem_map.mp hb
  simpa using hi

theorem maskSum_lengthMask {width len : ℕ} (h : len ≤ width) :
    maskSum (lengthMask width len) = len := by
  obtain ⟨k, rfl⟩ := Nat.exists_eq_add_of_le h
  have hrest : ((List.range k).map fun i => decide (len + i < len)).count true = 0 := by
    refine List.count_eq_zero.mpr fun hmem => ?_
    obtain ⟨i, -, hi⟩ := List.mem_map.mp hmem
    exact absurd (of_decide_eq_true hi) (by omega)
  have hself : ((List.range len).map fun i => decide (i < len)) = List.replicate len true :=
    lengthMask_self len
  rw [maskSum, lengthMask, List.range_add, List.map_append, List.map_map, hself, List.count_append,
    List.count_replicate_self]
  exact congrArg (len + ·) hrest

end Masks

/-! ## A batch with padding on both sides -/

/-- A token of a padded row, with its position and its entry of the attention mask. -/
structure PaddedToken where
  id : ℤ
  position : ℤ
  attended : Bool

/-- A micro-batch whose rows are a prompt of one width, then a response of one width. -/
structure PaddedBatch where
  promptWidth : ℕ
  responseWidth : ℕ
  rows : List (List PaddedToken)
  widths : ∀ row ∈ rows, row.length = promptWidth + responseWidth
  nonempty : rows ≠ []

namespace PaddedBatch

variable (b : PaddedBatch) (padTokenId : ℤ)

/-- The tensors of the micro-batch. -/
def toBatch : ComposedBatch where
  inputIds := .padded (b.rows.map (List.map PaddedToken.id))
  positionIds := .padded (b.rows.map (List.map PaddedToken.position))
  attentionMask := b.rows.map (List.map PaddedToken.attended)
  prompts := .padded (b.rows.map fun row => (row.take b.promptWidth).map PaddedToken.id)
  responses := .padded (b.rows.map fun row => (row.drop b.promptWidth).map PaddedToken.id)
  padTokenId := padTokenId
  maxResponseLen := -1

/-- The tokens that are not padding. -/
def valid (row : List PaddedToken) : List PaddedToken := row.filter PaddedToken.attended

/-- The prompt tokens of a row that are not padding. -/
def promptLen (row : List PaddedToken) : ℕ := (valid (row.take b.promptWidth)).length

/-- The response tokens of a row that are not padding. -/
def responseLen (row : List PaddedToken) : ℕ := (valid (row.drop b.promptWidth)).length

/-- The length of the longest row without its padding. -/
def maxSeqLen : ℕ := maxOfLens (b.rows.map fun row => (valid row).length)

/-- The rows without a gap, padded on the right. -/
def compactInputs : ComposedInputs where
  inputIds := b.rows.map fun row => padTo padTokenId b.maxSeqLen ((valid row).map PaddedToken.id)
  attentionMask := b.rows.map fun row => lengthMask b.maxSeqLen (valid row).length
  positionIds := b.rows.map fun row => padTo 0 b.maxSeqLen ((valid row).map PaddedToken.position)
  promptLengths := b.rows.map b.promptLen
  responseLengths := b.rows.map b.responseLen

theorem promptLen_add_responseLen (row : List PaddedToken) :
    b.promptLen row + b.responseLen row = (valid row).length := by
  rw [promptLen, responseLen, ← List.length_append, valid, valid, ← List.filter_append,
    List.take_append_drop]
  rfl

theorem responseLen_le {row : List PaddedToken} (h : row ∈ b.rows) :
    b.responseLen row ≤ b.responseWidth := by
  have hwidth := b.widths row h
  have hle : (valid (row.drop b.promptWidth)).length ≤ (row.drop b.promptWidth).length :=
    List.length_filter_le ..
  rw [List.length_drop] at hle
  rw [responseLen]
  omega

theorem width_prompts : (b.toBatch padTokenId).prompts.width = b.promptWidth := by
  obtain ⟨row, rows, heq⟩ := List.exists_cons_of_ne_nil b.nonempty
  have hwidth := b.widths row (by simp [heq])
  simp only [toBatch, Tensor2.width, Tensor2.rows, heq, List.map_cons, List.headD_cons,
    List.length_map, List.length_take]
  omega

theorem width_responses : (b.toBatch padTokenId).responses.width = b.responseWidth := by
  obtain ⟨row, rows, heq⟩ := List.exists_cons_of_ne_nil b.nonempty
  have hwidth := b.widths row (by simp [heq])
  simp only [toBatch, Tensor2.width, Tensor2.rows, heq, List.map_cons, List.headD_cons,
    List.length_map, List.length_drop]
  omega

/-- The lengths that the inputs carry. -/
theorem lengths_eq : computeComposedDflashLengths (b.toBatch padTokenId).attentionMask
    (b.toBatch padTokenId).prompts (b.toBatch padTokenId).responses =
      (b.rows.map b.promptLen, b.rows.map b.responseLen) := by
  have hp := b.width_prompts padTokenId
  have hr := b.width_responses padTokenId
  simp only [toBatch] at hp hr
  simp only [computeComposedDflashLengths, toBatch, hp, hr, List.map_map]
  refine Prod.ext (List.map_congr_left fun row _ => ?_) (List.map_congr_left fun row hrow => ?_)
  · rw [Function.comp_apply, ← List.map_take, maskSum_map]
    rfl
  · have hwidth := b.widths row hrow
    rw [Function.comp_apply, ← List.map_drop, List.take_of_length_le (by
      rw [List.length_map, List.length_drop]; omega), maskSum_map]
    rfl

/-- A row that is attended throughout is as long as the longest. -/
theorem valid_of_all (hall : ((b.toBatch padTokenId).attentionMask.all fun mask => mask.all id) =
    true) : ∀ row ∈ b.rows, valid row = row ∧ row.length = b.maxSeqLen := by
  have hvalid : ∀ row ∈ b.rows, valid row = row := by
    intro row hrow
    have hmask := List.all_eq_true.mp hall _ (List.mem_map_of_mem hrow)
    rw [List.all_map, List.all_eq_true] at hmask
    exact List.filter_eq_self.mpr hmask
  have hmax : b.maxSeqLen = b.promptWidth + b.responseWidth := by
    refine maxOfLens_eq (by simpa using b.nonempty) fun m hm => ?_
    obtain ⟨row, hrow, rfl⟩ := List.mem_map.mp hm
    rw [hvalid row hrow]
    exact b.widths row hrow
  exact fun row hrow => ⟨hvalid row hrow, (b.widths row hrow).trans hmax.symm⟩

/-- The padded path. -/
theorem prepare_padded : prepareComposedDflashInputs (b.toBatch padTokenId) =
    .ok (b.compactInputs padTokenId) := by
  have hlengths := b.lengths_eq padTokenId
  by_cases hall : ((b.toBatch padTokenId).attentionMask.all fun mask => mask.all id) = true
  · have hrows := b.valid_of_all padTokenId hall
    have hpad : ∀ {γ : Type} (pad : γ) (f : PaddedToken → γ), b.rows.map (List.map f) =
        b.rows.map fun row => padTo pad b.maxSeqLen ((valid row).map f) := by
      intro γ pad f
      refine List.map_congr_left fun row hrow => ?_
      obtain ⟨hvalid, hlen⟩ := hrows row hrow
      rw [hvalid, padTo_of_length_ge (by rw [List.length_map, hlen])]
    have hmask : b.rows.map (List.map PaddedToken.attended) =
        b.rows.map fun row => lengthMask b.maxSeqLen (valid row).length := by
      refine List.map_congr_left fun row hrow => ?_
      obtain ⟨hvalid, hlen⟩ := hrows row hrow
      rw [hvalid, hlen, lengthMask_self, ← hlen, List.eq_replicate_iff]
      refine ⟨List.length_map .., fun b hb => ?_⟩
      obtain ⟨token, htoken, rfl⟩ := List.mem_map.mp hb
      rw [← hvalid] at htoken
      exact (List.mem_filter.mp htoken).2
    simp only [prepareComposedDflashInputs, hlengths, hall, if_true]
    simp only [toBatch, Tensor2.rows, compactInputs, hmask, hpad padTokenId PaddedToken.id,
      hpad 0 PaddedToken.position]
    rfl
  · have hselect : ∀ {γ : Type} (pad : γ) (f : PaddedToken → γ),
        List.zipWith (fun row mask => padTo pad b.maxSeqLen (selectMask row mask))
          (b.rows.map (List.map f)) (b.rows.map (List.map PaddedToken.attended)) =
        b.rows.map fun row => padTo pad b.maxSeqLen ((valid row).map f) := by
      intro γ pad f
      rw [List.zipWith_map, List.zipWith_self]
      exact List.map_congr_left fun row _ => by rw [selectMask_map]; rfl
    have hsums : (b.rows.map (List.map PaddedToken.attended)).map maskSum =
        b.rows.map fun row => (valid row).length := by
      rw [List.map_map]
      exact List.map_congr_left fun row _ => maskSum_map PaddedToken.attended row
    simp only [prepareComposedDflashInputs, hlengths, Bool.eq_false_iff.mpr hall,
      Bool.false_eq_true, if_false]
    have hmax : maxOfLens (b.rows.map fun row => (valid row).length) = b.maxSeqLen := rfl
    simp only [toBatch, Tensor2.rows, compactPaddedComposedDflashInputs, hsums, hmax, hselect,
      List.map_map]
    rfl

/-- The nested rows are the rows without their padding. -/
theorem leftRight2NoPadding_toBatch : leftRight2NoPadding (b.toBatch padTokenId) =
    { b.toBatch padTokenId with
      inputIds := .nested (b.rows.map fun row => (valid row).map PaddedToken.id)
      positionIds := .nested (b.rows.map fun row => (valid row).map PaddedToken.position)
      maxResponseLen := b.responseWidth } := by
  have hflat : (unpadInput (b.rows.map (List.map PaddedToken.id))
      (b.rows.map (List.map PaddedToken.attended))).1 =
        (b.rows.map fun row => (valid row).map PaddedToken.id).flatten := by
    have hget := filterMap_indices PaddedToken.attended PaddedToken.id
      (fun i => (b.rows.flatten.map PaddedToken.id)[i]?) b.rows.flatten 0 fun i x hx => by
        rw [Nat.zero_add, List.getElem?_map, hx]
        rfl
    simp only [unpadInput]
    rw [← List.map_flatten, ← List.map_flatten, hget, List.filter_flatten, List.map_flatten,
      List.map_map]
    rfl
  have hlens : (unpadInput (b.rows.map (List.map PaddedToken.id))
      (b.rows.map (List.map PaddedToken.attended))).2 =
        (b.rows.map fun row => (valid row).map PaddedToken.id).map List.length := by
    simp only [unpadInput, List.map_map]
    refine List.map_congr_left fun row _ => ?_
    rw [Function.comp_apply, Function.comp_apply, maskSum_map, List.length_map]
    rfl
  have hpositions : List.zipWith selectMask (b.rows.map (List.map PaddedToken.position))
      (b.rows.map (List.map PaddedToken.attended)) =
        b.rows.map fun row => (valid row).map PaddedToken.position := by
    rw [List.zipWith_map, List.zipWith_self]
    exact List.map_congr_left fun row _ => selectMask_map ..
  have hwidth := b.width_responses padTokenId
  simp only [toBatch] at hwidth
  simp only [leftRight2NoPadding, toBatch, hflat, hlens, splitLens_flatten, hpositions, hwidth]

/-- The nested path. -/
theorem prepare_nested : prepareComposedDflashInputs (leftRight2NoPadding (b.toBatch padTokenId)) =
    .ok (b.compactInputs padTokenId) := by
  have hlengths := b.lengths_eq padTokenId
  have hlens : ∀ {γ : Type} (f : PaddedToken → γ),
      (b.rows.map fun row => (valid row).map f).map List.length =
        b.rows.map fun row => (valid row).length := by
    intro γ f
    rw [List.map_map]
    exact List.map_congr_left fun row _ => List.length_map ..
  have hpadded : ∀ (pad : ℤ) (f : PaddedToken → ℤ),
      nestedToPaddedTensorNoKernel (.nested (b.rows.map fun row => (valid row).map f)) pad
        b.rows.length b.maxSeqLen =
      .ok (b.rows.map fun row => padTo pad b.maxSeqLen ((valid row).map f)) := by
    intro pad f
    have hne : (b.rows.map fun row => (valid row).map f) ≠ [] := by simpa using b.nonempty
    have hfits : ¬(b.rows.length < (b.rows.map fun row => (valid row).map f).length ∨
        ((b.rows.map fun row => (valid row).map f).any
          fun row => decide (b.maxSeqLen < row.length)) = true) := by
      rw [not_or, List.length_map, Bool.not_eq_true, List.any_eq_false]
      refine ⟨lt_irrefl _, fun row hrow => ?_⟩
      obtain ⟨row, hmem, rfl⟩ := List.mem_map.mp hrow
      rw [List.length_map, decide_eq_true_eq, not_lt]
      exact le_maxOfLens (List.mem_map_of_mem hmem)
    have hrange := map_range_getD (b.rows.map fun row => (valid row).map f) []
      (padTo pad b.maxSeqLen)
    rw [List.length_map] at hrange
    simp only [nestedToPaddedTensorNoKernel]
    rw [if_neg hne, if_neg hfits, hrange, List.map_map]
    rfl
  have hne : (b.rows.map fun row => (valid row).map PaddedToken.id) ≠ [] := by
    simpa using b.nonempty
  rw [leftRight2NoPadding_toBatch]
  simp only [prepareComposedDflashInputs]
  rw [if_neg hne]
  have hmax : maxOfLens (b.rows.map fun row => (valid row).length) = b.maxSeqLen := rfl
  simp only [hlens, List.length_map, hmax, hpadded]
  simp only [toBatch] at hlengths ⊢
  simp only [hlengths, compactInputs, List.map_map]
  rfl

/-! ## The round trip -/

section Output

variable {β : Type} {output : List (List β)}

/-- The rows of an output, each cut to its length. -/
def outputRows (output : List (List β)) : List (List β) :=
  b.rows.zipIdx.map fun x => (output.getD x.2 []).take (valid x.1).length

theorem getElem?_outputRows {i : ℕ} {row : List PaddedToken} {xs : List β}
    (hrow : b.rows[i]? = some row) (hxs : output[i]? = some xs) :
    (b.outputRows output)[i]? = some (xs.take (valid row).length) := by
  rw [outputRows, List.getElem?_map, List.getElem?_zipIdx, hrow]
  simp [hxs]

/-- A window that ends one position before the row does, padded to the width. -/
theorem padRight_window (zero : β) {xs : List β} {promptLen respLen width : ℕ}
    (hpos : 1 ≤ promptLen) (hfit : promptLen + respLen ≤ xs.length) (hwidth : respLen ≤ width) :
    (padRight zero ((width : ℤ) - respLen)
      (((xs.take (promptLen + respLen)).drop (promptLen - 1)).take respLen)).length = width ∧
    ∀ j < width, (padRight zero ((width : ℤ) - respLen)
      (((xs.take (promptLen + respLen)).drop (promptLen - 1)).take respLen))[j]? =
        if j < respLen then xs[promptLen + j - 1]? else some zero := by
  have hlen : (((xs.take (promptLen + respLen)).drop (promptLen - 1)).take respLen).length =
      respLen := by
    rw [List.length_take, List.length_drop, List.length_take]
    omega
  have hsize : ((width : ℤ) - respLen).toNat = width - respLen := by omega
  rw [padRight, if_neg (by omega), hsize]
  refine ⟨by rw [List.length_append, hlen, List.length_replicate]; omega, fun j hj => ?_⟩
  by_cases hlt : j < respLen
  · rw [if_pos hlt, List.getElem?_append_left (by omega), List.getElem?_take_of_lt hlt,
      List.getElem?_drop, List.getElem?_take_of_lt (by omega)]
    congr 1
    omega
  · rw [if_neg hlt, List.getElem?_append_right (by omega), hlen,
      List.getElem?_replicate_of_lt (by omega)]

/-- The sum of a row whose entries are inside the window is the sum of the window. -/
theorem sum_window [AddCommMonoid β] {xs ys : List β} {promptLen respLen width : ℕ}
    (hpos : 1 ≤ promptLen) (hwidth : respLen ≤ width) (hlen : ys.length = width)
    (hys : ∀ j < width, ys[j]? = if j < respLen then xs[promptLen + j - 1]? else some 0)
    (hfit : promptLen + respLen ≤ xs.length)
    (hzero : ∀ r x, xs[r]? = some x → r < promptLen - 1 ∨ promptLen - 1 + respLen ≤ r → x = 0) :
    ys.sum = xs.sum := by
  have hsplit : xs = xs.take (promptLen - 1) ++ ((xs.drop (promptLen - 1)).take respLen ++
      xs.drop (promptLen - 1 + respLen)) := by
    conv_lhs => rw [← List.take_append_drop (promptLen - 1) xs,
      ← List.take_append_drop respLen (xs.drop (promptLen - 1)), List.drop_drop]
  have hwindow : ys = (xs.drop (promptLen - 1)).take respLen ++
      List.replicate (width - respLen) 0 := by
    have hlen' : ((xs.drop (promptLen - 1)).take respLen).length = respLen := by
      rw [List.length_take, List.length_drop]
      omega
    refine List.ext_getElem? fun j => ?_
    by_cases hj : j < width
    · rw [hys j hj]
      by_cases hlt : j < respLen
      · rw [if_pos hlt, List.getElem?_append_left (by omega), List.getElem?_take_of_lt hlt,
          List.getElem?_drop]
        congr 1
        omega
      · rw [if_neg hlt, List.getElem?_append_right (by omega), hlen',
          List.getElem?_replicate_of_lt (by omega)]
    · rw [List.getElem?_eq_none (by omega), List.getElem?_eq_none (by
        rw [List.length_append, hlen', List.length_replicate]
        omega)]
  have hbefore : (xs.take (promptLen - 1)).sum = 0 := by
    refine List.sum_eq_zero fun x hx => ?_
    obtain ⟨r, hr, rfl⟩ := List.getElem_of_mem hx
    rw [List.length_take] at hr
    refine hzero r _ ?_ (Or.inl (by omega))
    rw [List.getElem_take, List.getElem?_eq_getElem]
  have hafter : (xs.drop (promptLen - 1 + respLen)).sum = 0 := by
    refine List.sum_eq_zero fun x hx => ?_
    obtain ⟨r, hr, rfl⟩ := List.getElem_of_mem hx
    rw [List.length_drop] at hr
    refine hzero (promptLen - 1 + respLen + r) _ ?_ (Or.inr (by omega))
    rw [List.getElem_drop, List.getElem?_eq_getElem]
  have hpad : (List.replicate (width - respLen) (0 : β)).sum = 0 := by simp
  rw [hwindow, List.sum_append, hpad]
  conv_rhs => rw [hsplit, List.sum_append, List.sum_append, hbefore, hafter]
  rw [add_zero, zero_add]

variable (hlen : output.length = b.rows.length) (hwidth : ∀ xs ∈ output, xs.length = b.maxSeqLen)

include hlen hwidth

theorem length_outputRows : (b.outputRows output).map List.length =
    b.rows.map fun row => (valid row).length := by
  refine List.ext_getElem? fun i => ?_
  rw [List.getElem?_map, List.getElem?_map]
  by_cases hi : i < b.rows.length
  · have hrow := List.getElem?_eq_getElem hi
    have hxs := List.getElem?_eq_getElem (l := output) (by omega : i < output.length)
    have hfit : (valid b.rows[i]).length ≤ (output[i]).length := by
      rw [hwidth _ (List.getElem_mem _)]
      exact le_maxOfLens (List.mem_map_of_mem (List.getElem_mem hi))
    rw [b.getElem?_outputRows hrow hxs, hrow, Option.map_some, Option.map_some, List.length_take,
      Nat.min_eq_left hfit]
  · rw [List.getElem?_eq_none (by simp [outputRows]; omega), List.getElem?_eq_none (by omega)]
    rfl

/-- Both layouts hold the rows one after another. -/
theorem values_format : (formatDflashSequenceOutput (b.toBatch padTokenId) output).values =
      (b.outputRows output).flatten ∧
    (formatDflashSequenceOutput (leftRight2NoPadding (b.toBatch padTokenId)) output).values =
      (b.outputRows output).flatten := by
  have hzip : ((b.rows.map fun row => (valid row).length).zipIdx.map fun x =>
      (output.getD x.2 []).take x.1) = b.outputRows output := by
    rw [List.zipIdx_map, List.map_map]
    rfl
  constructor
  · have hsums : (b.rows.map (List.map PaddedToken.attended)).map maskSum =
        b.rows.map fun row => (valid row).length := by
      rw [List.map_map]
      exact List.map_congr_left fun row _ => maskSum_map PaddedToken.attended row
    simp only [formatDflashSequenceOutput, toBatch, hsums, hzip, SequenceOutput.values]
  · have hlens : (b.rows.map fun row => (valid row).map PaddedToken.id).map List.length =
        b.rows.map fun row => (valid row).length := by
      rw [List.map_map]
      exact List.map_congr_left fun row _ => List.length_map ..
    rw [leftRight2NoPadding_toBatch]
    simp only [formatDflashSequenceOutput, hlens, hzip, SequenceOutput.values]
    rw [← b.length_outputRows hlen hwidth, splitLens_flatten]

/-- The response windows of the rows. -/
theorem noPadding2Padding_flatten (hprompt : ∀ row ∈ b.rows, 1 ≤ b.promptLen row) (zero : β)
    {batch : ComposedBatch} {tensor : SequenceOutput β}
    (hlayout : responseLayout batch =
      .ok (b.rows.map b.promptLen, b.rows.map b.responseLen, (b.responseWidth : ℤ)))
    (hvalues : tensor.values = (b.outputRows output).flatten) :
    ∃ out, noPadding2Padding zero tensor batch = .ok out ∧ out.length = b.rows.length ∧
      ∀ (i : ℕ) (row : List PaddedToken) (xs : List β), b.rows[i]? = some row →
        output[i]? = some xs → ∃ outRow, out[i]? = some outRow ∧
          outRow.length = b.responseWidth ∧
          ∀ j < b.responseWidth, outRow[j]? =
            if j < b.responseLen row then xs[b.promptLen row + j - 1]? else some zero := by
  have hseq : List.zipWith (· + ·) (b.rows.map b.promptLen) (b.rows.map b.responseLen) =
      b.rows.map fun row => (valid row).length := by
    rw [List.zipWith_map, List.zipWith_self]
    exact List.map_congr_left fun row _ => b.promptLen_add_responseLen row
  have htotal : (cumsum 0 (b.rows.map fun row => (valid row).length)).getLastD 0 =
      (b.outputRows output).flatten.length := by
    rw [getLastD_cumsum, Nat.zero_add, List.length_flatten, b.length_outputRows hlen hwidth]
  have hpositive : ((b.rows.map b.promptLen).any fun promptLen => promptLen == 0) = false := by
    rw [List.any_eq_false]
    intro n hn
    obtain ⟨row, hrow, rfl⟩ := List.mem_map.mp hn
    have := hprompt row hrow
    simp only [beq_iff_eq]
    omega
  refine ⟨responseList zero (b.outputRows output).flatten b.responseWidth
    (b.rows.map b.responseLen) (cumsum 0 (b.rows.map fun row => (valid row).length)), ?_, ?_, ?_⟩
  · unfold noPadding2Padding
    simp only [hlayout, bind, Except.bind, hvalues, hseq, htotal, ne_eq, not_true_eq_false,
      if_false, hpositive, Bool.false_eq_true]
    rfl
  · simp [responseList]
  · intro i row xs hrow hxs
    have hmem := List.mem_of_getElem? hrow
    have hsum := b.promptLen_add_responseLen row
    have hpos := hprompt row hmem
    have hfit : (valid row).length ≤ xs.length := by
      rw [hwidth xs (List.mem_of_getElem? hxs)]
      exact le_maxOfLens (List.mem_map_of_mem hmem)
    have hstart : rowStart (b.outputRows output) i =
        ((b.rows.map fun row => (valid row).length).take i).sum := by
      rw [rowStart, List.map_take, b.length_outputRows hlen hwidth]
    have hoffset : (cumsum 0 (b.rows.map fun row => (valid row).length))[i]? =
        some (rowStart (b.outputRows output) i + (valid row).length) := by
      rw [getElem?_cumsum (by rw [List.getElem?_map, hrow, Option.map_some]), Nat.zero_add, hstart]
    -- the window starts at the last prompt token of the row
    have hdrop : rowStart (b.outputRows output) i + (valid row).length - b.responseLen row - 1 =
        rowStart (b.outputRows output) i + (b.promptLen row - 1) := by
      omega
    have hwindow := slice_flatten (b.getElem?_outputRows hrow hxs)
      (a := b.promptLen row - 1) (n := b.responseLen row)
      (by rw [List.length_take]; omega)
    refine ⟨padRight zero ((b.responseWidth : ℤ) - b.responseLen row)
      (((xs.take (b.promptLen row + b.responseLen row)).drop (b.promptLen row - 1)).take
        (b.responseLen row)), ?_, padRight_window zero hpos (by omega) (b.responseLen_le hmem)⟩
    rw [responseList, List.getElem?_zipWith, List.getElem?_map, hrow, hoffset, Option.map_some]
    simp only [hdrop, hwindow, hsum]

omit hlen hwidth

/-- `no_padding_2_padding` reads the same lengths of both layouts. -/
theorem responseLayout_eq : responseLayout (b.toBatch padTokenId) =
      .ok (b.rows.map b.promptLen, b.rows.map b.responseLen, (b.responseWidth : ℤ)) ∧
    responseLayout (leftRight2NoPadding (b.toBatch padTokenId)) =
      .ok (b.rows.map b.promptLen, b.rows.map b.responseLen, (b.responseWidth : ℤ)) := by
  have hp := b.width_prompts padTokenId
  have hr := b.width_responses padTokenId
  have hpadded : responseLayout (b.toBatch padTokenId) =
      .ok (b.rows.map b.promptLen, b.rows.map b.responseLen, (b.responseWidth : ℤ)) := by
    simp only [toBatch] at hp hr
    simp only [responseLayout, toBatch, hp, hr, List.map_map]
    congr 2
    · refine List.map_congr_left fun row _ => ?_
      rw [Function.comp_apply, ← List.map_take, maskSum_map]
      rfl
    · congr 1
      refine List.map_congr_left fun row _ => ?_
      rw [Function.comp_apply, ← List.map_drop, maskSum_map]
      rfl
  refine ⟨hpadded, ?_⟩
  rw [leftRight2NoPadding_toBatch]
  exact hpadded

/-- The response windows of an output, in either layout. -/
theorem noPadding2Padding_format (hprompt : ∀ row ∈ b.rows, 1 ≤ b.promptLen row) (zero : β)
    (hlen : output.length = b.rows.length) (hwidth : ∀ xs ∈ output, xs.length = b.maxSeqLen)
    {batch : ComposedBatch}
    (hbatch : batch ∈ [b.toBatch padTokenId, leftRight2NoPadding (b.toBatch padTokenId)]) :
    ∃ out, noPadding2Padding zero (formatDflashSequenceOutput batch output) batch = .ok out ∧
      out.length = b.rows.length ∧
      ∀ (i : ℕ) (row : List PaddedToken) (xs : List β), b.rows[i]? = some row →
        output[i]? = some xs → ∃ outRow, out[i]? = some outRow ∧
          outRow.length = b.responseWidth ∧
          ∀ j < b.responseWidth, outRow[j]? =
            if j < b.responseLen row then xs[b.promptLen row + j - 1]? else some zero := by
  obtain ⟨hpadded, hnested⟩ := b.values_format padTokenId hlen hwidth
  obtain ⟨hlayout, hlayout'⟩ := b.responseLayout_eq padTokenId
  rcases List.mem_cons.mp hbatch with rfl | hbatch
  · exact b.noPadding2Padding_flatten hlen hwidth hprompt zero hlayout hpadded
  · obtain rfl := List.mem_singleton.mp hbatch
    exact b.noPadding2Padding_flatten hlen hwidth hprompt zero hlayout' hnested

/-- Every batch whose prompts are not empty : the padded and the nested path give the composed
model the same rows, masks and lengths, and the response window of any output of these rows holds
at `(i, j)` the value of row `i` at `prompt_len + j - 1`, and `0` after the response. -/
theorem composed_roundTrip (hprompt : ∀ row ∈ b.rows, 1 ≤ b.promptLen row) :
    prepareComposedDflashInputs (b.toBatch padTokenId) = .ok (b.compactInputs padTokenId) ∧
    prepareComposedDflashInputs (leftRight2NoPadding (b.toBatch padTokenId)) =
      .ok (b.compactInputs padTokenId) ∧
    ∀ {β : Type} (zero : β) (output : List (List β)), output.length = b.rows.length →
      (∀ xs ∈ output, xs.length = b.maxSeqLen) →
      ∀ batch ∈ [b.toBatch padTokenId, leftRight2NoPadding (b.toBatch padTokenId)],
        ∃ out, noPadding2Padding zero (formatDflashSequenceOutput batch output) batch = .ok out ∧
          out.length = b.rows.length ∧
          ∀ (i : ℕ) (row : List PaddedToken) (xs : List β), b.rows[i]? = some row →
            output[i]? = some xs → ∃ outRow, out[i]? = some outRow ∧
              outRow.length = b.responseWidth ∧
              ∀ j < b.responseWidth, outRow[j]? =
                if j < b.responseLen row then xs[b.promptLen row + j - 1]? else some zero := by
  refine ⟨b.prepare_padded padTokenId, b.prepare_nested padTokenId, ?_⟩
  intro β zero output hlen hwidth batch hbatch
  exact b.noPadding2Padding_format padTokenId hprompt zero hlen hwidth hbatch

end Output

/-- Two rows of width `2 + 3` : a short prompt with a response, and a prompt without one. -/
def twoRows : PaddedBatch where
  promptWidth := 2
  responseWidth := 3
  rows := [[⟨0, 0, false⟩, ⟨11, 0, true⟩, ⟨12, 1, true⟩, ⟨13, 2, true⟩, ⟨0, 0, false⟩],
    [⟨21, 0, true⟩, ⟨22, 1, true⟩, ⟨0, 0, false⟩, ⟨0, 0, false⟩, ⟨0, 0, false⟩]]
  widths := by decide
  nonempty := by decide

theorem composed_roundTrip_twoRows :
    prepareComposedDflashInputs (leftRight2NoPadding (twoRows.toBatch 9)) =
      .ok ⟨[[11, 12, 13], [21, 22, 9]], [[true, true, true], [true, true, false]],
        [[0, 1, 2], [0, 1, 0]], [1, 2], [2, 0]⟩ ∧
    ∃ out, noPadding2Padding (0 : ℤ) (formatDflashSequenceOutput (leftRight2NoPadding
        (twoRows.toBatch 9)) [[1, 2, 3], [4, 5, 6]]) (leftRight2NoPadding (twoRows.toBatch 9)) =
          .ok out ∧ out.length = 2 ∧ ∃ outRow, out[0]? = some outRow ∧ outRow.length = 3 ∧
            outRow[0]? = some 1 ∧ outRow[1]? = some 2 ∧ outRow[2]? = some 0 := by
  have hprompt : ∀ row ∈ twoRows.rows, 1 ≤ twoRows.promptLen row := by decide
  obtain ⟨-, hnested, hout⟩ := composed_roundTrip twoRows 9 hprompt
  have hwidth : ∀ xs ∈ ([[1, 2, 3], [4, 5, 6]] : List (List ℤ)),
      xs.length = twoRows.maxSeqLen := by decide
  obtain ⟨out, heq, hlen, hvalues⟩ := hout (0 : ℤ) [[1, 2, 3], [4, 5, 6]] rfl hwidth _
    (List.mem_cons_of_mem _ (List.mem_singleton_self _))
  obtain ⟨outRow, hrow, hlen', hcells⟩ := hvalues 0 _ [1, 2, 3] rfl rfl
  refine ⟨hnested.trans (congrArg _ rfl), out, heq, hlen, outRow, hrow, hlen', ?_, ?_, ?_⟩
  · exact hcells 0 (by decide)
  · exact hcells 1 (by decide)
  · exact hcells 2 (by decide)

end PaddedBatch

end DraftOpd
