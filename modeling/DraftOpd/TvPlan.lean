import DraftOpd.AnchorPlan

/-!
# The position plan of the TV loss

`_build_tv_position_plan` merges the accepted and the rejected positions of a micro-batch
into blocks. It first indexes the rejected drafts by anchor and offset, refusing what does
not fit, then walks over the anchors of the plan. A block with rejected drafts has the
offsets before the first of them and theirs, any other block those of its segment.

The plan succeeds when its checks pass (`buildTvBlocks_ok`), and then its blocks are those of
the anchors that have an offset (`of_buildTvBlocks_ok`).
-/

namespace DraftOpd

/-- What the plan raises, with the numbers of the messages. -/
inductive TvError where
  | metadata (error : DraftBatchError)
  | anchorRange (sampleIdx : ℕ) (anchor fullAnchor : ℤ) (validLen : ℕ)
  | offsetRange (sampleIdx : ℕ) (anchor offset : ℤ) (draftBlockSize : ℕ)
  | negativeTokenId (sampleIdx : ℕ) (anchor offset tokenId : ℤ)
  | conflictingTokenIds (sampleIdx : ℕ) (anchor offset previous tokenId : ℤ)
  | notContiguous (sampleIdx : ℕ) (fullAnchor : ℤ) (offsets : List ℤ)
  | firstRejectContext (sampleIdx : ℕ) (fullAnchor firstOffset targetRow : ℤ) (validLen : ℕ)
  | duplicateAnchor (sampleIdx : ℕ) (fullAnchor : ℤ)
  | targetRowRange (sampleIdx : ℕ) (fullAnchor offset targetRow : ℤ) (validLen : ℕ)
  | branchAssertion
  | missingAnchors (anchors : List (ℕ × ℤ))

/-- `rejected_by_sample_anchor[batch_idx]` : the token of every anchor and offset. -/
abbrev RejectedIndex := Dict ℤ (Dict ℤ ℤ)

/-! ## The index of the rejected drafts -/

/-- One item of the index loop (`dflash_student.py:1101-1136`). -/
def Sample.indexCell (s : Sample) (batchIdx draftBlockSize : ℕ) (index : RejectedIndex)
    (cell : RejectedCell) : Except TvError RejectedIndex :=
  let fullAnchor := s.fullAnchor cell.anchor
  let byOffset := (index.get? fullAnchor).getD .empty
  if cell.mask = false then .ok index
  else if fullAnchor < 0 ∨ (s.validSeqLen : ℤ) ≤ fullAnchor then
    .error (.anchorRange batchIdx cell.anchor fullAnchor s.validSeqLen)
  else if cell.offset ≤ 0 ∨ (draftBlockSize : ℤ) ≤ cell.offset then
    .error (.offsetRange batchIdx cell.anchor cell.offset draftBlockSize)
  else if cell.tokenId < 0 then
    .error (.negativeTokenId batchIdx cell.anchor cell.offset cell.tokenId)
  else match byOffset.get? cell.offset with
    | some previous =>
      if previous ≠ cell.tokenId then
        .error (.conflictingTokenIds batchIdx cell.anchor cell.offset previous cell.tokenId)
      else .ok (index.set fullAnchor (byOffset.set cell.offset cell.tokenId))
    | none => .ok (index.set fullAnchor (byOffset.set cell.offset cell.tokenId))

/-- `sorted(by_offset)`. -/
def sortedOffsets (byOffset : Dict ℤ ℤ) : List ℤ := sortedSet byOffset.keys

/-- The check of an anchor's offsets (`dflash_student.py:1138-1157`). -/
def Sample.checkSuffix (s : Sample) (batchIdx : ℕ) (entry : ℤ × Dict ℤ ℤ) : Except TvError Unit :=
  let offsets := sortedOffsets entry.2
  let firstOffset := offsets.headD 0
  let firstTargetRow := entry.1 + firstOffset - 1
  if offsets ≠ intRange firstOffset (offsets.getLastD 0 + 1) then
    .error (.notContiguous batchIdx entry.1 offsets)
  else if (s.validSeqLen : ℤ) ≤ firstTargetRow then
    .error (.firstRejectContext batchIdx entry.1 firstOffset firstTargetRow s.validSeqLen)
  else .ok ()

/-! ## The blocks -/

/-- A position of a block. -/
structure TvPosition where
  offset : ℤ
  draftIdx : ℤ
  /-- `-1` for a later reject. -/
  targetRow : ℤ
  isLaterReject : Bool

/-- `branch_spec` of a block with several rejected drafts. -/
structure TvBranch where
  firstOffset : ℤ
  tokenIds : List ℤ

/-- A block with its sample and anchor. -/
structure TvBlock where
  sampleIdx : ℕ
  fullAnchor : ℤ
  positions : List TvPosition
  branch : Option TvBranch

/-- `selected_offsets` (`dflash_student.py:1183-1202`). -/
def selectedOffsets (byOffset : Option (Dict ℤ ℤ)) (segmentLen : ℤ) (firstTokenOnly : Bool) :
    List ℤ :=
  match byOffset with
  | some byOffset =>
    let rejected := sortedOffsets byOffset
    intRange 1 (rejected.headD 0) ++ if firstTokenOnly then rejected.take 1 else rejected
  | none => intRange 1 (segmentLen + 1)

/-- A reject after the first of its block. -/
def isLaterReject (byOffset : Option (Dict ℤ ℤ)) (offset : ℤ) : Bool :=
  byOffset.any fun byOffset =>
    decide ((sortedOffsets byOffset).headD 0 < offset ∧ offset ∈ byOffset.keys)

/-- The branch of a block (`dflash_student.py:1190-1198`). -/
def tvBranch (byOffset : Option (Dict ℤ ℤ)) (firstTokenOnly : Bool) : Option TvBranch :=
  byOffset.bind fun byOffset =>
    let rejected := sortedOffsets byOffset
    if !firstTokenOnly ∧ 1 < rejected.length then
      some ⟨rejected.headD 0, rejected.map fun offset => (byOffset.get? offset).getD 0⟩
    else none

/-- The block of an anchor. -/
def tvBlock (index : RejectedIndex) (draftBlockSize batchIdx anchorBlockIdx : ℕ)
    (firstTokenOnly : Bool) (cell : AnchorCell) : TvBlock :=
  let byOffset := index.get? cell.anchorPosition
  { sampleIdx := batchIdx
    fullAnchor := cell.anchorPosition
    positions := (selectedOffsets byOffset cell.segmentLen firstTokenOnly).map fun offset =>
      { offset := offset
        draftIdx := anchorBlockIdx * draftBlockSize + offset
        targetRow := if isLaterReject byOffset offset then -1 else cell.anchorPosition + offset - 1
        isLaterReject := isLaterReject byOffset offset }
    branch := tvBranch byOffset firstTokenOnly }

/-- The bounds check of a position and the assertion of a later reject
(`dflash_student.py:1205-1226`). -/
def Sample.checkPosition (s : Sample) (block : TvBlock) (position : TvPosition) :
    Except TvError Unit :=
  let targetRow := block.fullAnchor + position.offset - 1
  if position.isLaterReject = false ∧ (s.validSeqLen : ℤ) ≤ targetRow then
    .error (.targetRowRange block.sampleIdx block.fullAnchor position.offset targetRow
      s.validSeqLen)
  else if position.isLaterReject = true ∧ block.branch.isNone then .error .branchAssertion
  else .ok ()

/-- `selected_offsets` is not empty. -/
def TvBlock.hasPosition (block : TvBlock) : Bool := !block.positions.isEmpty

/-- The state of the block loop of a sample. -/
structure TvState where
  seenAnchors : List ℤ
  blocks : List TvBlock

/-- One anchor of the block loop (`dflash_student.py:1169-1233`). -/
def Sample.addBlock (s : Sample) (index : RejectedIndex) (draftBlockSize batchIdx : ℕ)
    (firstTokenOnly : Bool) (state : TvState) (x : AnchorCell × ℕ) : Except TvError TvState := do
  if x.1.keep = false then
    return state
  if x.1.anchorPosition ∈ state.seenAnchors then
    throw (.duplicateAnchor batchIdx x.1.anchorPosition)
  let block := tvBlock index draftBlockSize batchIdx x.2 firstTokenOnly x.1
  let seenAnchors := state.seenAnchors ++ [x.1.anchorPosition]
  if block.positions.isEmpty then
    return ⟨seenAnchors, state.blocks⟩
  let _ ← block.positions.mapM (s.checkPosition block)
  return ⟨seenAnchors, state.blocks ++ [block]⟩

/-- The blocks of a micro-batch. -/
def buildTvBlocks (draftBlockSize : ℕ) (firstTokenOnly : Bool) (samples : List Sample)
    (planRows : List (List AnchorCell)) (rejectedDrafts : Option (List (List RejectedCell))) :
    Except TvError (List TvBlock) := do
  let indices ← forRange samples.length fun batchIdx =>
    ((rejectedDrafts.map fun rows => rows.getD batchIdx []).getD []).foldlM
      ((samples.getD batchIdx default).indexCell batchIdx draftBlockSize) .empty
  let _ ← forRange samples.length fun batchIdx =>
    (indices.getD batchIdx .empty).entries.mapM
      ((samples.getD batchIdx default).checkSuffix batchIdx)
  let states ← forRange samples.length fun batchIdx =>
    (planRows.getD batchIdx []).zipIdx.foldlM
      ((samples.getD batchIdx default).addBlock (indices.getD batchIdx .empty) draftBlockSize
        batchIdx firstTokenOnly) ⟨[], []⟩
  let missing := (List.range samples.length).flatMap fun batchIdx =>
    ((sortedSet (indices.getD batchIdx .empty).keys).filter fun fullAnchor =>
      decide (fullAnchor ∉ (states.getD batchIdx ⟨[], []⟩).seenAnchors)).map fun fullAnchor =>
        (batchIdx, fullAnchor)
  if missing ≠ [] then
    throw (.missingAnchors missing)
  return states.flatMap TvState.blocks

/-! ## The flat plan -/

/-- A branch of the flat plan. -/
structure TvBranchSpec where
  sampleIdx : ℕ
  fullAnchor : ℤ
  firstOffset : ℤ
  tokenIds : List ℤ
  flatIndices : List ℕ
  suffixIndices : List ℤ

/-- What `_build_tv_position_plan` returns. -/
structure TvPlan where
  batchIndices : List ℕ
  draftIndices : List ℤ
  targetRowIndices : List ℤ
  blockIndices : List ℕ
  offsets : List ℤ
  branchSpecs : List TvBranchSpec
  blockCount : ℕ

/-- The branch of a block whose first position has index `flatIdx`. -/
def TvBlock.branchSpec (block : TvBlock) (flatIdx : ℕ) : Option TvBranchSpec :=
  block.branch.map fun branch =>
    let later := (block.positions.zipIdx flatIdx).filter fun x => x.1.isLaterReject
    { sampleIdx := block.sampleIdx
      fullAnchor := block.fullAnchor
      firstOffset := branch.firstOffset
      tokenIds := branch.tokenIds
      flatIndices := later.map Prod.snd
      suffixIndices := later.map fun x => x.1.offset - branch.firstOffset }

/-- The branches of consecutive blocks. -/
def tvBranchSpecs : ℕ → List TvBlock → List TvBranchSpec
  | _, [] => []
  | flatIdx, block :: blocks =>
    (block.branchSpec flatIdx).toList ++ tvBranchSpecs (flatIdx + block.positions.length) blocks

/-- The lists of the plan. -/
def flattenBlocks (blocks : List TvBlock) : TvPlan where
  batchIndices := blocks.flatMap fun block => block.positions.map fun _ => block.sampleIdx
  draftIndices := blocks.flatMap fun block => block.positions.map TvPosition.draftIdx
  targetRowIndices := blocks.flatMap fun block => block.positions.map TvPosition.targetRow
  blockIndices := blocks.zipIdx.flatMap fun x => x.1.positions.map fun _ => x.2
  offsets := blocks.flatMap fun block => block.positions.map TvPosition.offset
  branchSpecs := tvBranchSpecs 0 blocks
  blockCount := blocks.length

/-- `_build_tv_position_plan` (`dflash_student.py:1044-1246`). -/
def buildTvPositionPlan (draftBlockSize : ℕ) (firstTokenOnly : Bool) (samples : List Sample)
    (planRows : List (List AnchorCell)) (rejectedDrafts : Option (List (List RejectedCell))) :
    Except TvError TvPlan :=
  (buildTvBlocks draftBlockSize firstTokenOnly samples planRows rejectedDrafts).map flattenBlocks

/-! ## What the index holds -/

namespace Sample

variable {s : Sample} {batchIdx draftBlockSize : ℕ}

/-- The checks a rejected draft has to pass. -/
structure CellOk (s : Sample) (draftBlockSize : ℕ) (cell : RejectedCell) : Prop where
  anchor_nonneg : 0 ≤ s.fullAnchor cell.anchor
  anchor_lt : s.fullAnchor cell.anchor < s.validSeqLen
  offset_pos : 0 < cell.offset
  offset_lt : cell.offset < draftBlockSize
  token_nonneg : 0 ≤ cell.tokenId

/-- The token stored for an anchor and an offset. -/
def lookup (index : RejectedIndex) (fullAnchor offset : ℤ) : Option ℤ :=
  (index.get? fullAnchor).bind fun byOffset => byOffset.get? offset

/-- The index with one more token. -/
def store (index : RejectedIndex) (fullAnchor offset tokenId : ℤ) : RejectedIndex :=
  index.set fullAnchor (((index.get? fullAnchor).getD .empty).set offset tokenId)

theorem lookup_store (index : RejectedIndex) (a o t a' o' : ℤ) :
    lookup (store index a o t) a' o' = if a' = a ∧ o' = o then some t else lookup index a' o' := by
  unfold lookup store
  rw [Dict.get?_set]
  by_cases ha : a' = a
  · subst ha
    rw [if_pos rfl, Option.bind_some, Dict.get?_set]
    by_cases ho : o' = o
    · rw [if_pos ho, if_pos ⟨rfl, ho⟩]
    · rw [if_neg ho, if_neg fun h => ho h.2]
      cases index.get? a' <;> rfl
  · rw [if_neg ha, if_neg fun h => ha h.1]

theorem lookup_getD (index : RejectedIndex) (a o : ℤ) :
    ((index.get? a).getD .empty).get? o = lookup index a o := by
  unfold lookup
  cases index.get? a <;> rfl

theorem indexCell_of_not_mask (index : RejectedIndex) {cell : RejectedCell}
    (h : cell.mask = false) : s.indexCell batchIdx draftBlockSize index cell = .ok index := by
  simp only [indexCell, if_pos h]

/-- A rejected draft is stored when it passes its checks and agrees with what is there. -/
theorem indexCell_ok_iff {index index' : RejectedIndex} {cell : RejectedCell}
    (h : cell.mask = true) : s.indexCell batchIdx draftBlockSize index cell = .ok index' ↔
      s.CellOk draftBlockSize cell ∧
      (∀ t ∈ lookup index (s.fullAnchor cell.anchor) cell.offset, t = cell.tokenId) ∧
      index' = store index (s.fullAnchor cell.anchor) cell.offset cell.tokenId := by
  unfold indexCell
  simp only [h, Bool.true_eq_false, if_false, lookup_getD]
  by_cases h₁ : s.fullAnchor cell.anchor < 0 ∨ (s.validSeqLen : ℤ) ≤ s.fullAnchor cell.anchor
  · rw [if_pos h₁]
    refine ⟨fun h => (by cases h), fun hall => ?_⟩
    have := hall.1.anchor_nonneg
    have := hall.1.anchor_lt
    omega
  by_cases h₂ : cell.offset ≤ 0 ∨ (draftBlockSize : ℤ) ≤ cell.offset
  · rw [if_neg h₁, if_pos h₂]
    refine ⟨fun h => (by cases h), fun hall => ?_⟩
    have := hall.1.offset_pos
    have := hall.1.offset_lt
    omega
  by_cases h₃ : cell.tokenId < 0
  · rw [if_neg h₁, if_neg h₂, if_pos h₃]
    exact ⟨fun h => (by cases h), fun hall => absurd hall.1.token_nonneg (not_le.mpr h₃)⟩
  have hok : s.CellOk draftBlockSize cell :=
    ⟨by omega, by omega, by omega, by omega, not_lt.mp h₃⟩
  rw [if_neg h₁, if_neg h₂, if_neg h₃]
  cases hlook : lookup index (s.fullAnchor cell.anchor) cell.offset with
  | none =>
    refine ⟨fun heq => ⟨hok, fun t ht => (by cases ht), (Except.ok.inj heq).symm⟩,
      fun hall => congrArg Except.ok hall.2.2.symm⟩
  | some previous =>
    by_cases hne : previous = cell.tokenId
    · simp only [hne, ne_eq, not_true_eq_false, if_false]
      exact ⟨fun heq => ⟨hok, fun t ht => (Option.some.inj ht).symm, (Except.ok.inj heq).symm⟩,
        fun hall => congrArg Except.ok hall.2.2.symm⟩
    · simp only [ne_eq, hne, not_false_eq_true, if_true]
      exact ⟨fun h => (by cases h), fun hall => absurd (hall.2.1 previous rfl) hne⟩

/-- The index holds the rejected drafts seen so far. -/
structure Indexed (s : Sample) (index : RejectedIndex) (cells : List RejectedCell) : Prop where
  stored : ∀ a o t, lookup index a o = some t → ∃ cell ∈ cells, cell.mask = true ∧
    s.fullAnchor cell.anchor = a ∧ cell.offset = o ∧ cell.tokenId = t
  found : ∀ cell ∈ cells, cell.mask = true →
    lookup index (s.fullAnchor cell.anchor) cell.offset ≠ none
  nonempty : ∀ a byOffset, index.get? a = some byOffset → byOffset.keys ≠ []

theorem indexed_empty (s : Sample) : s.Indexed .empty [] :=
  ⟨fun _ _ _ h => (nomatch h), fun _ h => absurd h List.not_mem_nil, fun _ _ h => (nomatch h)⟩

theorem Indexed.skip {index : RejectedIndex} {cells : List RejectedCell} {cell : RejectedCell}
    (h : s.Indexed index cells) (hmask : cell.mask = false) :
    s.Indexed index (cells ++ [cell]) := by
  refine ⟨fun a o t hl => ?_, fun c hc hm => ?_, h.nonempty⟩
  · obtain ⟨c, hc, hrest⟩ := h.stored a o t hl
    exact ⟨c, List.mem_append_left _ hc, hrest⟩
  · rcases List.mem_append.mp hc with hc | hc
    · exact h.found c hc hm
    · rw [List.mem_singleton.mp hc, hmask] at hm
      cases hm

theorem Indexed.store {index : RejectedIndex} {cells : List RejectedCell} {cell : RejectedCell}
    (h : s.Indexed index cells) (hmask : cell.mask = true) :
    s.Indexed (store index (s.fullAnchor cell.anchor) cell.offset cell.tokenId)
      (cells ++ [cell]) := by
  refine ⟨fun a o t hl => ?_, fun c hc hm => ?_, fun a byOffset hget => ?_⟩
  · rw [lookup_store] at hl
    split_ifs at hl with heq
    · exact ⟨cell, List.mem_append_right _ (List.mem_singleton_self _), hmask, heq.1.symm,
        heq.2.symm, Option.some.inj hl⟩
    · obtain ⟨c, hc, hrest⟩ := h.stored a o t hl
      exact ⟨c, List.mem_append_left _ hc, hrest⟩
  · rw [lookup_store]
    split_ifs with heq
    · simp
    · rcases List.mem_append.mp hc with hc | hc
      · exact h.found c hc hm
      · rw [List.mem_singleton.mp hc] at heq
        exact absurd ⟨rfl, rfl⟩ heq
  · unfold Sample.store at hget
    rw [Dict.get?_set] at hget
    split_ifs at hget with ha
    · rw [← Option.some.inj hget]
      exact List.ne_nil_of_mem (Dict.mem_keys_set.mpr (Or.inl rfl))
    · exact h.nonempty a byOffset hget

/-- An index that was built holds the rejected drafts, which passed their checks. -/
theorem of_indexCells_ok : ∀ {cells done : List RejectedCell} {index index' : RejectedIndex},
    s.Indexed index done → cells.foldlM (s.indexCell batchIdx draftBlockSize) index = .ok index' →
    s.Indexed index' (done ++ cells) ∧
      ∀ cell ∈ cells, cell.mask = true → s.CellOk draftBlockSize cell
  | [], done, index, index', hdone, h => by
    obtain rfl := Except.ok.inj h
    rw [List.append_nil]
    exact ⟨hdone, fun c hc => absurd hc List.not_mem_nil⟩
  | cell :: cells, done, index, index', hdone, h => by
    rw [List.foldlM_cons] at h
    obtain ⟨index₁, hstep, h⟩ := of_bind_ok h
    have hcell : s.Indexed index₁ (done ++ [cell]) ∧
        (cell.mask = true → s.CellOk draftBlockSize cell) := by
      by_cases hmask : cell.mask = true
      · obtain ⟨hok, -, rfl⟩ := (indexCell_ok_iff hmask).mp hstep
        exact ⟨hdone.store hmask, fun _ => hok⟩
      · have hmask' := Bool.eq_false_iff.mpr hmask
        rw [indexCell_of_not_mask index hmask'] at hstep
        obtain rfl := Except.ok.inj hstep
        exact ⟨hdone.skip hmask', fun hm => absurd hm hmask⟩
    obtain ⟨hrest, hoks⟩ := of_indexCells_ok hcell.1 h
    rw [List.append_assoc] at hrest
    refine ⟨hrest, fun c hc hm => ?_⟩
    rcases List.mem_cons.mp hc with rfl | hc
    · exact hcell.2 hm
    · exact hoks c hc hm

/-- The index of a sample holds its rejected drafts, which passed their checks. -/
theorem indexed_of_ok {cells : List RejectedCell} {index : RejectedIndex}
    (h : cells.foldlM (s.indexCell batchIdx draftBlockSize) .empty = .ok index) :
    s.Indexed index cells ∧ ∀ cell ∈ cells, cell.mask = true → s.CellOk draftBlockSize cell :=
  of_indexCells_ok s.indexed_empty h

/-- An index that was built keeps the tokens it had, and has those of the rejected drafts. -/
theorem lookup_of_indexCells_ok :
    ∀ {cells : List RejectedCell} {index index' : RejectedIndex},
      cells.foldlM (s.indexCell batchIdx draftBlockSize) index = .ok index' →
      (∀ a o t, lookup index a o = some t → lookup index' a o = some t) ∧
      ∀ cell ∈ cells, cell.mask = true →
        lookup index' (s.fullAnchor cell.anchor) cell.offset = some cell.tokenId
  | [], index, index', h => by
    obtain rfl := Except.ok.inj h
    exact ⟨fun _ _ _ hl => hl, fun cell hcell => absurd hcell List.not_mem_nil⟩
  | cell :: cells, index, index', h => by
    rw [List.foldlM_cons] at h
    obtain ⟨index₁, hstep, h⟩ := of_bind_ok h
    obtain ⟨hkeep, hfound⟩ := lookup_of_indexCells_ok h
    have hcell : (∀ a o t, lookup index a o = some t → lookup index₁ a o = some t) ∧
        (cell.mask = true →
          lookup index₁ (s.fullAnchor cell.anchor) cell.offset = some cell.tokenId) := by
      by_cases hmask : cell.mask = true
      · obtain ⟨-, hsame, rfl⟩ := (indexCell_ok_iff hmask).mp hstep
        refine ⟨fun a o t hl => ?_, fun _ => by rw [lookup_store, if_pos ⟨rfl, rfl⟩]⟩
        rw [lookup_store]
        split_ifs with heq
        · rw [heq.1, heq.2] at hl
          rw [hsame t hl]
        · exact hl
      · rw [indexCell_of_not_mask index (Bool.eq_false_iff.mpr hmask)] at hstep
        obtain rfl := Except.ok.inj hstep
        exact ⟨fun _ _ _ hl => hl, fun hm => absurd hm hmask⟩
    refine ⟨fun a o t hl => hkeep a o t (hcell.1 a o t hl), fun c hc hm => ?_⟩
    rcases List.mem_cons.mp hc with rfl | hc
    · exact hkeep _ _ _ (hcell.2 hm)
    · exact hfound c hc hm

/-- Rejected drafts that pass their checks and do not contradict each other are indexed. -/
theorem indexCells_ok : ∀ {cells done : List RejectedCell} {index : RejectedIndex},
    s.Indexed index done →
    (∀ cell ∈ cells, cell.mask = true → s.CellOk draftBlockSize cell) →
    (∀ c ∈ done ++ cells, ∀ c' ∈ cells, c.mask = true → c'.mask = true →
      s.fullAnchor c.anchor = s.fullAnchor c'.anchor → c.offset = c'.offset →
      c.tokenId = c'.tokenId) →
    ∃ index', cells.foldlM (s.indexCell batchIdx draftBlockSize) index = .ok index' ∧
      s.Indexed index' (done ++ cells)
  | [], done, index, hdone, _, _ => ⟨index, rfl, by rw [List.append_nil]; exact hdone⟩
  | cell :: cells, done, index, hdone, hoks, hsame => by
    have hstep : ∃ index₁, s.indexCell batchIdx draftBlockSize index cell = .ok index₁ ∧
        s.Indexed index₁ (done ++ [cell]) := by
      by_cases hmask : cell.mask = true
      · refine ⟨_, (indexCell_ok_iff hmask).mpr ⟨hoks cell List.mem_cons_self hmask,
          fun t ht => ?_, rfl⟩, hdone.store hmask⟩
        obtain ⟨c, hc, hm, ha, ho, rfl⟩ := hdone.stored _ _ _ ht
        exact hsame c (List.mem_append_left _ hc) cell List.mem_cons_self hm hmask ha ho
      · have hmask' := Bool.eq_false_iff.mpr hmask
        exact ⟨index, indexCell_of_not_mask index hmask', hdone.skip hmask'⟩
    obtain ⟨index₁, hindex₁, hdone₁⟩ := hstep
    obtain ⟨index', hindex', hdone'⟩ := indexCells_ok hdone₁
      (fun c hc => hoks c (List.mem_cons_of_mem _ hc))
      (fun c hc c' hc' => hsame c (by simpa using hc) c' (List.mem_cons_of_mem _ hc'))
    refine ⟨index', ?_, by simpa using hdone'⟩
    rw [List.foldlM_cons, hindex₁]
    exact hindex'

/-! ## What the block loop adds -/

/-- The positions of a block have a row of the target. -/
def BlockOk (s : Sample) (block : TvBlock) : Prop :=
  ∀ p ∈ block.positions, p.isLaterReject = false →
    block.fullAnchor + p.offset - 1 < (s.validSeqLen : ℤ)

theorem checkPosition_ok_iff {block : TvBlock} {p : TvPosition}
    (hbranch : p.isLaterReject = true → block.branch.isSome = true) :
    s.checkPosition block p = .ok () ↔
      (p.isLaterReject = false → block.fullAnchor + p.offset - 1 < (s.validSeqLen : ℤ)) := by
  have hassert : ¬(p.isLaterReject = true ∧ block.branch.isNone = true) := by
    rintro ⟨hlater, hnone⟩
    rw [Option.isNone_iff_eq_none.mp hnone] at hbranch
    exact absurd (hbranch hlater) (by simp)
  unfold checkPosition
  by_cases h : p.isLaterReject = false ∧ (s.validSeqLen : ℤ) ≤ block.fullAnchor + p.offset - 1
  · rw [if_pos h]
    refine ⟨fun heq => (by cases heq), fun hlt => ?_⟩
    have := hlt h.1
    omega
  · rw [if_neg h, if_neg hassert]
    exact ⟨fun _ hlater => not_le.mp fun hle => h ⟨hlater, hle⟩, fun _ => rfl⟩

/-- A later reject is only selected with a branch, whatever the index holds. -/
theorem tvBranch_of_later {byOffset : Option (Dict ℤ ℤ)} {segmentLen : ℤ} {firstTokenOnly : Bool}
    {o : ℤ} (ho : o ∈ selectedOffsets byOffset segmentLen firstTokenOnly)
    (hlater : isLaterReject byOffset o = true) :
    (tvBranch byOffset firstTokenOnly).isSome = true := by
  cases byOffset with
  | none => simp [isLaterReject] at hlater
  | some byOffset =>
    obtain ⟨hhead, hkey⟩ : (sortedOffsets byOffset).headD 0 < o ∧ o ∈ byOffset.keys := by
      simpa [isLaterReject] using hlater
    have hmem : o ∈ sortedOffsets byOffset := mem_sortedSet.mpr hkey
    obtain ⟨first, rest, hcons⟩ := List.exists_cons_of_ne_nil (List.ne_nil_of_mem hmem)
    simp only [hcons, List.headD_cons] at hhead
    have hrest : o ∈ rest := by
      rw [hcons] at hmem
      exact (List.mem_cons.mp hmem).resolve_left hhead.ne'
    have hlen : 1 < (sortedOffsets byOffset).length := by
      rw [hcons, List.length_cons]
      have := List.length_pos_of_mem hrest
      omega
    cases firstTokenOnly with
    | true =>
      simp only [selectedOffsets, hcons, List.headD_cons, if_true, List.take_succ_cons,
        List.take_zero, List.mem_append, mem_intRange, List.mem_singleton] at ho
      omega
    | false => simp [tvBranch, hlen]

theorem tvBlock_branch (index : RejectedIndex) (draftBlockSize batchIdx anchorBlockIdx : ℕ)
    (firstTokenOnly : Bool) (cell : AnchorCell) :
    ∀ p ∈ (tvBlock index draftBlockSize batchIdx anchorBlockIdx firstTokenOnly cell).positions,
      p.isLaterReject = true →
        (tvBlock index draftBlockSize batchIdx anchorBlockIdx firstTokenOnly cell).branch.isSome =
          true := by
  intro p hp hlater
  obtain ⟨o, ho, rfl⟩ := List.mem_map.mp hp
  exact tvBranch_of_later ho hlater

variable {index : RejectedIndex} {firstTokenOnly : Bool}

theorem addBlock_of_not_keep {state : TvState} {x : AnchorCell × ℕ} (h : x.1.keep = false) :
    s.addBlock index draftBlockSize batchIdx firstTokenOnly state x = .ok state := by
  unfold addBlock
  rw [if_pos h]
  rfl

/-- An anchor is added when it is new and its positions have a row. -/
theorem addBlock_ok_iff {state state' : TvState} {x : AnchorCell × ℕ} (h : x.1.keep = true) :
    s.addBlock index draftBlockSize batchIdx firstTokenOnly state x = .ok state' ↔
      x.1.anchorPosition ∉ state.seenAnchors ∧
      s.BlockOk (tvBlock index draftBlockSize batchIdx x.2 firstTokenOnly x.1) ∧
      state' = ⟨state.seenAnchors ++ [x.1.anchorPosition], state.blocks ++
        [tvBlock index draftBlockSize batchIdx x.2 firstTokenOnly x.1].filter
          TvBlock.hasPosition⟩ := by
  unfold addBlock
  rw [if_neg (by simp [h])]
  by_cases hseen : x.1.anchorPosition ∈ state.seenAnchors
  · rw [if_pos hseen]
    exact ⟨fun heq => (by cases heq), fun hnew => absurd hseen hnew.1⟩
  rw [if_neg hseen]
  have hbranch := tvBlock_branch index draftBlockSize batchIdx x.2 firstTokenOnly x.1
  generalize tvBlock index draftBlockSize batchIdx x.2 firstTokenOnly x.1 = block at hbranch ⊢
  have hchecks : (∃ ys, block.positions.mapM (s.checkPosition block) = .ok ys) ↔
      s.BlockOk block := by
    rw [mapM_checks_ok]
    exact forall₂_congr fun p hp => checkPosition_ok_iff (hbranch p hp)
  by_cases hpos : block.positions.isEmpty = true
  · have hok : s.BlockOk block := by
      intro p hp
      rw [List.isEmpty_iff.mp hpos] at hp
      exact absurd hp List.not_mem_nil
    simp only [hpos, if_true, TvBlock.hasPosition, List.filter_cons, Bool.not_true,
      Bool.false_eq_true, if_false, List.filter_nil, List.append_nil]
    exact ⟨fun heq => ⟨hseen, hok, (Except.ok.inj heq).symm⟩,
      fun hall => congrArg Except.ok hall.2.2.symm⟩
  · have hsome : block.hasPosition = true := by simpa [TvBlock.hasPosition] using hpos
    simp only [hpos, List.filter_cons_of_pos hsome, List.filter_nil]
    cases hmap : block.positions.mapM (s.checkPosition block) with
    | error e =>
      rw [hmap] at hchecks
      refine ⟨fun heq => (by cases heq), fun hall => ?_⟩
      obtain ⟨ys, hys⟩ := hchecks.mpr hall.2.1
      cases hys
    | ok ys =>
      exact ⟨fun heq => ⟨hseen, hchecks.mp ⟨ys, hmap⟩, (Except.ok.inj heq).symm⟩,
        fun hall => congrArg Except.ok hall.2.2.symm⟩

/-- The block loop succeeds when the anchors are distinct and their positions have a row, and
adds the blocks that have a position. -/
theorem addBlocks_ok_iff : ∀ {xs : List (AnchorCell × ℕ)} {state state' : TvState},
    state.seenAnchors.Nodup →
    (xs.foldlM (s.addBlock index draftBlockSize batchIdx firstTokenOnly) state = .ok state' ↔
      (state.seenAnchors ++ (xs.filter fun x => x.1.keep).map fun x => x.1.anchorPosition).Nodup ∧
      (∀ x ∈ xs.filter fun x => x.1.keep,
        s.BlockOk (tvBlock index draftBlockSize batchIdx x.2 firstTokenOnly x.1)) ∧
      state' = ⟨state.seenAnchors ++ (xs.filter fun x => x.1.keep).map fun x => x.1.anchorPosition,
        state.blocks ++ ((xs.filter fun x => x.1.keep).map fun x =>
          tvBlock index draftBlockSize batchIdx x.2 firstTokenOnly x.1).filter
            TvBlock.hasPosition⟩)
  | [], state, state', hnd => by
    simp only [List.foldlM_nil, List.filter_nil, List.map_nil, List.append_nil]
    exact ⟨fun heq => ⟨hnd, fun x hx => absurd hx List.not_mem_nil, (Except.ok.inj heq).symm⟩,
      fun hall => congrArg Except.ok hall.2.2.symm⟩
  | x :: xs, state, state', hnd => by
    rw [List.foldlM_cons]
    by_cases hkeep : x.1.keep = true
    · rw [List.filter_cons_of_pos (by exact hkeep)]
      simp only [List.map_cons, List.forall_mem_cons]
      constructor
      · intro h
        obtain ⟨state₁, hstep, h⟩ := of_bind_ok h
        obtain ⟨hnew, hok, rfl⟩ := (addBlock_ok_iff hkeep).mp hstep
        have hnd₁ : (state.seenAnchors ++ [x.1.anchorPosition]).Nodup := by
          rw [← List.concat_eq_append]
          exact hnd.concat hnew
        obtain ⟨hnd', hoks, rfl⟩ := (addBlocks_ok_iff hnd₁).mp h
        simp only [List.append_assoc, List.singleton_append] at hnd' ⊢
        refine ⟨hnd', ⟨hok, hoks⟩, ?_⟩
        rw [← List.filter_append, List.singleton_append]
      · rintro ⟨hnd', ⟨hok, hoks⟩, rfl⟩
        have hnew : x.1.anchorPosition ∉ state.seenAnchors := fun hmem =>
          (List.nodup_append.mp hnd').2.2 _ hmem _ List.mem_cons_self rfl
        rw [(addBlock_ok_iff hkeep).mpr ⟨hnew, hok, rfl⟩]
        have hnd₁ : (state.seenAnchors ++ [x.1.anchorPosition]).Nodup := by
          rw [← List.concat_eq_append]
          exact hnd.concat hnew
        refine (addBlocks_ok_iff hnd₁).mpr ⟨?_, hoks, ?_⟩
        · simpa only [List.append_assoc, List.singleton_append] using hnd'
        · simp only [List.append_assoc, List.singleton_append]
          rw [← List.filter_append, List.singleton_append]
    · rw [List.filter_cons_of_neg (by exact hkeep),
        addBlock_of_not_keep (Bool.eq_false_iff.mpr hkeep)]
      exact addBlocks_ok_iff hnd

end Sample

/-! ## The blocks of a micro-batch -/

/-- The anchors of a row of the plan. -/
def plannedAnchors (planRow : List AnchorCell) : List ℤ :=
  (planRow.zipIdx.filter fun x => x.1.keep).map fun x => x.1.anchorPosition

/-- The blocks of a row of the plan that have a position. -/
def tvBlocks (index : RejectedIndex) (draftBlockSize batchIdx : ℕ) (firstTokenOnly : Bool)
    (planRow : List AnchorCell) : List TvBlock :=
  ((planRow.zipIdx.filter fun x => x.1.keep).map fun x =>
    tvBlock index draftBlockSize batchIdx x.2 firstTokenOnly x.1).filter TvBlock.hasPosition

theorem zipIdx_padRow (width : ℕ) (blocks : List AnchorBlock) :
    ((padRow width .pad (blocks.map AnchorBlock.cell)).zipIdx.filter fun x => x.1.keep) =
      (blocks.map AnchorBlock.cell).zipIdx := by
  rw [padRow, List.zipIdx_append, List.filter_append, List.filter_eq_self.mpr,
    List.filter_eq_nil_iff.mpr, List.append_nil]
  · intro x hx
    have hmem := List.fst_mem_of_mem_zipIdx hx
    rw [List.eq_of_mem_replicate hmem]
    exact Bool.false_ne_true
  · intro x hx
    obtain ⟨block, -, heq⟩ := List.mem_map.mp (List.fst_mem_of_mem_zipIdx hx)
    rw [← heq]
    rfl

theorem plannedAnchors_padRow (width : ℕ) (blocks : List AnchorBlock) :
    plannedAnchors (padRow width .pad (blocks.map AnchorBlock.cell)) =
      blocks.map AnchorBlock.anchor := by
  have hfst : (fun x : AnchorCell × ℕ => x.1.anchorPosition) =
      AnchorCell.anchorPosition ∘ Prod.fst := rfl
  rw [plannedAnchors, zipIdx_padRow, hfst, ← List.map_map, List.zipIdx_map_fst, List.map_map]
  rfl

/-- The checks of a sample pass, with the index they are made with. -/
structure Sample.PlanOk (s : Sample) (draftBlockSize batchIdx : ℕ) (firstTokenOnly : Bool)
    (planRow : List AnchorCell) (cells : List RejectedCell) (index : RejectedIndex) : Prop where
  indexed : cells.foldlM (s.indexCell batchIdx draftBlockSize) .empty = .ok index
  suffix : ∀ entry ∈ index.entries, s.checkSuffix batchIdx entry = .ok ()
  nodup : (plannedAnchors planRow).Nodup
  positions : ∀ x ∈ planRow.zipIdx.filter fun x => x.1.keep,
    s.BlockOk (tvBlock index draftBlockSize batchIdx x.2 firstTokenOnly x.1)
  planned : ∀ a ∈ index.keys, a ∈ plannedAnchors planRow

section Batch

variable {draftBlockSize : ℕ} {firstTokenOnly : Bool} {samples : List Sample}
  {planRows : List (List AnchorCell)} {rows : List (List RejectedCell)} {blocks : List TvBlock}

theorem buildTvPositionPlan_eq_error {rejectedDrafts : Option (List (List RejectedCell))}
    {e : TvError} : buildTvPositionPlan draftBlockSize firstTokenOnly samples planRows
      rejectedDrafts = .error e ↔
    buildTvBlocks draftBlockSize firstTokenOnly samples planRows rejectedDrafts = .error e := by
  unfold buildTvPositionPlan
  cases buildTvBlocks draftBlockSize firstTokenOnly samples planRows rejectedDrafts with
  | error e' =>
    rw [Except.map, Except.error.injEq, Except.error.injEq]
  | ok blocks => exact ⟨fun h => (by cases h), fun h => (by cases h)⟩

theorem buildTvPositionPlan_eq_ok {rejectedDrafts : Option (List (List RejectedCell))}
    {plan : TvPlan} : buildTvPositionPlan draftBlockSize firstTokenOnly samples planRows
      rejectedDrafts = .ok plan ↔
    ∃ blocks, buildTvBlocks draftBlockSize firstTokenOnly samples planRows rejectedDrafts =
      .ok blocks ∧ plan = flattenBlocks blocks := by
  unfold buildTvPositionPlan
  cases buildTvBlocks draftBlockSize firstTokenOnly samples planRows rejectedDrafts with
  | error e => exact ⟨fun h => (by cases h), fun ⟨_, h, _⟩ => (by cases h)⟩
  | ok blocks =>
    refine ⟨fun h => ⟨blocks, rfl, (Except.ok.inj h).symm⟩, ?_⟩
    rintro ⟨_, hblocks, rfl⟩
    rw [← Except.ok.inj hblocks]
    rfl

theorem missing_eq_nil {n : ℕ} {keys seen : ℕ → List ℤ} :
    ((List.range n).flatMap fun i => ((sortedSet (keys i)).filter fun a =>
      decide (a ∉ seen i)).map fun a => (i, a)) = [] ↔ ∀ i < n, ∀ a ∈ keys i, a ∈ seen i := by
  simp only [List.flatMap_eq_nil_iff, List.mem_range, List.map_eq_nil_iff, List.filter_eq_nil_iff,
    mem_sortedSet, decide_eq_true_eq, not_not]

/-- The blocks of a plan that succeeds, whose samples passed their checks. -/
theorem of_buildTvBlocks_ok
    (h : buildTvBlocks draftBlockSize firstTokenOnly samples planRows (some rows) = .ok blocks) :
    ∃ indices : ℕ → RejectedIndex,
      (∀ i < samples.length, (samples.getD i default).PlanOk draftBlockSize i firstTokenOnly
        (planRows.getD i []) (rows.getD i []) (indices i)) ∧
      blocks = (List.range samples.length).flatMap fun i =>
        tvBlocks (indices i) draftBlockSize i firstTokenOnly (planRows.getD i []) := by
  unfold buildTvBlocks at h
  simp only [Option.map_some, Option.getD_some] at h
  obtain ⟨indices, hindices, h⟩ := of_bind_ok h
  obtain ⟨checks, hchecks, h⟩ := of_bind_ok h
  obtain ⟨states, hstates, h⟩ := of_bind_ok h
  split_ifs at h with hmissing
  · cases h
  have hplanned := missing_eq_nil.mp (not_not.mp hmissing)
  have hindex := (of_forRange_ok hindices .empty).2
  have hcheck := (of_forRange_ok hchecks []).2
  obtain ⟨hlen, hstate⟩ := of_forRange_ok hstates ⟨[], []⟩
  have hloop := fun i hi => (Sample.addBlocks_ok_iff List.nodup_nil).mp (hstate i hi)
  refine ⟨fun i => indices.getD i .empty, fun i hi => ⟨hindex i hi,
    mapM_checks_ok.mp ⟨_, hcheck i hi⟩, (hloop i hi).1, (hloop i hi).2.1, fun a ha => ?_⟩, ?_⟩
  · have hseen := hplanned i hi a ha
    rw [(hloop i hi).2.2] at hseen
    exact hseen
  · rw [← Except.ok.inj h, List.flatMap_def, List.flatMap_def, ← hlen,
      ← map_range_getD states ⟨[], []⟩]
    refine congrArg List.flatten (List.map_congr_left fun i hi => ?_)
    rw [(hloop i (hlen ▸ List.mem_range.mp hi)).2.2]
    rfl

/-- The plan succeeds when the checks of every sample pass. -/
theorem buildTvBlocks_ok (indices : ℕ → RejectedIndex)
    (h : ∀ i < samples.length, (samples.getD i default).PlanOk draftBlockSize i firstTokenOnly
      (planRows.getD i []) (rows.getD i []) (indices i)) :
    buildTvBlocks draftBlockSize firstTokenOnly samples planRows (some rows) =
      .ok ((List.range samples.length).flatMap fun i =>
        tvBlocks (indices i) draftBlockSize i firstTokenOnly (planRows.getD i [])) := by
  unfold buildTvBlocks
  simp only [Option.map_some, Option.getD_some]
  have hgetD : ∀ i < samples.length,
      ((List.range samples.length).map indices).getD i .empty = indices i := by
    intro i hi
    simp [hi]
  rw [forRange_eq_ok fun i hi => (h i hi).indexed]
  have hchecks : forRange samples.length (fun i =>
      (((List.range samples.length).map indices).getD i .empty).entries.mapM
        ((samples.getD i default).checkSuffix i)) = .ok ((List.range samples.length).map fun i =>
          (indices i).entries.map fun _ => ()) := by
    refine forRange_eq_ok fun i hi => ?_
    rw [hgetD i hi]
    exact mapM_eq_ok (h i hi).suffix
  have hstates : forRange samples.length (fun i => (planRows.getD i []).zipIdx.foldlM
      ((samples.getD i default).addBlock (((List.range samples.length).map indices).getD i .empty)
        draftBlockSize i firstTokenOnly) ⟨[], []⟩) = .ok ((List.range samples.length).map fun i =>
          ⟨plannedAnchors (planRows.getD i []), tvBlocks (indices i) draftBlockSize i firstTokenOnly
            (planRows.getD i [])⟩) := by
    refine forRange_eq_ok fun i hi => ?_
    rw [hgetD i hi]
    exact (Sample.addBlocks_ok_iff List.nodup_nil).mpr ⟨(h i hi).nodup, (h i hi).positions, rfl⟩
  simp only [bind, Except.bind, hchecks, hstates]
  rw [if_neg]
  · simp only [pure, Except.pure, List.flatMap_def, List.map_map]
    rfl
  · rw [not_not, missing_eq_nil]
    intro i hi a ha
    rw [hgetD i hi] at ha
    simpa [hi] using (h i hi).planned a ha

end Batch

/-! ## The plan of a micro-batch -/

/-- A micro-batch, with the width of its input. -/
structure MicroBatch where
  samples : List Sample
  seqLen : ℕ

/-- The plan of `_forward_opd_tv` (`dflash_student.py:1496-1536`) on the tensors of
`_prepare_composed_dflash_inputs`. -/
def MicroBatch.tvPlan (rng : SeededRandom) (draftBlockSize : ℕ) (firstTokenOnly : Bool)
    (micro : MicroBatch) : Except TvError TvPlan := do
  let batchSize := micro.samples.length
  let rejects ← (buildRejectTensor (some (micro.samples.map Sample.rejectTokenIndices))
    batchSize).mapError TvError.metadata
  let rejectedDrafts ← (buildDflashRejectedDraftTensors (.ofSamples micro.samples) batchSize
    firstTokenOnly true).mapError TvError.metadata
  let plan ← (buildOpdAnchorPlan { draftBlockSize := draftBlockSize } rng micro.seqLen
    micro.samples rejects (some rejectedDrafts)).mapError TvError.metadata
  buildTvPositionPlan draftBlockSize firstTokenOnly micro.samples plan.rows (some rejectedDrafts)

namespace MicroBatch

variable {rng : SeededRandom} {draftBlockSize : ℕ} {firstTokenOnly : Bool} {micro : MicroBatch}

/-- A plan is only made of metadata lists of one length. -/
theorem even_of_tvPlan_ok {plan : TvPlan}
    (h : micro.tvPlan rng draftBlockSize firstTokenOnly = .ok plan) :
    ∀ s ∈ micro.samples, s.Even := by
  unfold tvPlan at h
  obtain ⟨rejects, -, h⟩ := of_bind_ok h
  obtain ⟨tensors, htensors, -⟩ := of_bind_ok h
  exact (of_tvTensors_ok (of_mapError_ok htensors)).1

/-- The plan of a micro-batch is that of the anchors of its samples. -/
theorem tvPlan_eq (rng : SeededRandom) (draftBlockSize : ℕ) (firstTokenOnly : Bool)
    (heven : ∀ s ∈ micro.samples, s.Even) :
    ∃ (width planWidth : ℕ) (blocks : ℕ → List AnchorBlock),
      micro.tvPlan rng draftBlockSize firstTokenOnly =
        buildTvPositionPlan draftBlockSize firstTokenOnly micro.samples
          ((List.range micro.samples.length).map fun i =>
            padRow planWidth .pad ((blocks i).map AnchorBlock.cell))
          (some (micro.samples.map fun s => padRow width .pad (s.kept false))) ∧
      ∀ i < micro.samples.length, SampleBlocks { draftBlockSize := draftBlockSize } micro.seqLen
        (micro.samples.getD i default)
        (padRow width .pad ((micro.samples.getD i default).kept false)) (blocks i) := by
  obtain ⟨rejectWidth, hrejects⟩ := buildRejectTensor_eq micro.samples
  obtain ⟨width, htensors⟩ := tvTensors_ok heven firstTokenOnly
  obtain ⟨plan, planWidth, blocks, hplan, hrows, -, hblocks⟩ := buildOpdAnchorPlan_ok
    { draftBlockSize := draftBlockSize } rng micro.seqLen micro.samples rfl rejectWidth
    fun s => padRow width .pad (s.kept false)
  refine ⟨width, planWidth, blocks, ?_, hblocks⟩
  unfold tvPlan
  simp only [hrejects, htensors]
  change (((buildOpdAnchorPlan { draftBlockSize := draftBlockSize } rng micro.seqLen micro.samples
    _ (some (micro.samples.map fun s => padRow width .pad (s.kept false)))).mapError
      TvError.metadata) >>= _) = _
  rw [hplan, ← hrows]
  rfl

end MicroBatch

end DraftOpd
