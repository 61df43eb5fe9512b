import DraftOpd.RejectedSelection
import DraftOpd.Scatter
import DraftOpd.TensorOps

/-!
# The chain of rejected drafts in the EAGLE3 forward

The rejected drafts of a block are scored by running the draft over the block once more. Up to
the first of them its inputs are the tokens of the sequence, and from there on the rejected
tokens, which `_build_rejected_forced_input_token_ids` puts into the tensor `forced`.
`_collect_eagle3_rejected_draft_log_probs` reads the log-probabilities, and finds the items once
more.

`foldl_forceToken` : the builder writes the items the collector selects. Of a block whose offsets
ascend from `f` a prefix is selected, so the inputs change over at `f` and change back after the
last selected item (`chainInput_eq`), and what is read for an item is the draft's log-probability
after the accepted tokens and the rejected tokens before it (`eagle3_rejected_chain`).
-/

namespace DraftOpd

/-! ## The forward of the draft -/

/-- The draft model on one block : its state is the hidden state with the cached ones. -/
structure Eagle3Draft (σ : Type) where
  /-- `project_hidden_states` of the target's hidden state at a position of a sample. -/
  projectHiddenStates : ℕ → ℕ → σ
  /-- `backbone`, on a token and its position id. -/
  backbone : σ → ℤ → ℤ → σ
  zeros : σ
  /-- The log-probability of a target token, from `compute_logits`. -/
  logProb : σ → ℤ → LogProb
  /-- `_map_target_to_draft_ids` : the token is in the draft vocabulary. -/
  supported : ℤ → Bool

/-- `clamp(0, max(seq_len - 1, 0))`. -/
def clampPosition (seqLen : ℕ) (position : ℤ) : ℕ := min position.toNat (seqLen - 1)

/-- The input of a block at an offset (`eagle3_student.py:861-866`). -/
def draftInput (seqLen : ℕ) (inputIds : List ℤ) (forced : Option (ℕ → ℕ → ℤ)) (anchor : ℤ)
    (blockIdx offset : ℕ) : ℤ :=
  let tokenId := inputIds.getD (clampPosition seqLen (anchor + offset - 1)) 0
  match forced with
  | none => tokenId
  | some forced => if 0 ≤ forced blockIdx offset then forced blockIdx offset else tokenId

section Forward

variable {σ : Type} (draft : Eagle3Draft σ) (seqLen : ℕ)

/-- The state of a block after the inputs of the first offsets. -/
def draftState (batchIdx : ℕ) (anchor : ℤ) (input : ℕ → ℤ) : ℕ → σ
  | 0 => draft.projectHiddenStates batchIdx (clampPosition seqLen anchor)
  | offset + 1 =>
    draft.backbone (draftState batchIdx anchor input offset) (input (offset + 1))
      (max (anchor + (offset + 1 : ℕ) - 1) 0)

/-- `_run_eagle3_draft_forward` (`eagle3_student.py:838-879`) : `draft_hidden` at a flat index. -/
def runEagle3DraftForward (draftBlockSize : ℕ) (inputIds : List (List ℤ))
    (planRows : List (List AnchorCell)) (forced : Option (ℕ → ℕ → ℕ → ℤ)) : ℕ → ℕ → σ :=
  fun batchIdx index =>
    let blockIdx := index / draftBlockSize
    let offset := index % draftBlockSize
    match (planRows.getD batchIdx [])[blockIdx]? with
    | none => draft.zeros
    | some block =>
      if offset = 0 then draft.zeros
      else draftState draft seqLen batchIdx block.anchorPosition
        (draftInput seqLen (inputIds.getD batchIdx []) (forced.map fun forced => forced batchIdx)
          block.anchorPosition blockIdx) offset

/-- The state of the draft at an anchor after a list of inputs : what a log-probability is
conditioned on. -/
def Eagle3Draft.after (batchIdx : ℕ) (anchor : ℤ) (inputs : List ℤ) : σ :=
  inputs.zipIdx.foldl (fun state x => draft.backbone state x.1 (max (anchor + x.2) 0))
    (draft.projectHiddenStates batchIdx (clampPosition seqLen anchor))

theorem draftState_eq_after (batchIdx : ℕ) (anchor : ℤ) (input : ℕ → ℤ) : ∀ offset : ℕ,
    draftState draft seqLen batchIdx anchor input offset =
      draft.after seqLen batchIdx anchor ((List.range offset).map fun o => input (o + 1))
  | 0 => rfl
  | offset + 1 => by
    have hposition : anchor + (offset + 1 : ℕ) - 1 = anchor + offset := by
      push_cast
      omega
    rw [draftState, draftState_eq_after batchIdx anchor input offset, hposition,
      Eagle3Draft.after, Eagle3Draft.after, List.range_succ, List.map_append, List.zipIdx_append,
      List.foldl_append]
    simp

end Forward

/-! ## The forced inputs -/

/-- One item of the loop of `_build_rejected_forced_input_token_ids`
(`eagle3_student.py:911-932`) : the row of `forced` and `selected_count`. -/
def Sample.forceToken (s : Sample) (draftBlockSize : ℕ) (maxTokensPerSample : Option ℕ)
    (planRow : List AnchorCell) (state : (ℕ → ℕ → ℤ) × ℕ) (cell : RejectedCell) :
    (ℕ → ℕ → ℤ) × ℕ :=
  if cell.mask = false then state
  else if (maxTokensPerSample.any fun m => m ≤ state.2) then state
  else match s.collectBlock draftBlockSize planRow cell with
    | none => state
    | some blockIdx =>
      (if cell.offset + 1 < draftBlockSize then
          setAt state.1 blockIdx (cell.offset + 1).toNat cell.tokenId
        else state.1, state.2 + 1)

/-- `_build_rejected_forced_input_token_ids` (`eagle3_student.py:881-933`). -/
def buildRejectedForcedInputTokenIds (samples : List Sample) (draftBlockSize : ℕ)
    (maxTokensPerSample : Option ℕ) (planRows : List (List AnchorCell))
    (rejectedDrafts : Option (List (List RejectedCell))) : ℕ → ℕ → ℕ → ℤ :=
  match rejectedDrafts with
  | none => fun _ _ _ => -1
  | some rows =>
    if !rows.any (fun row => row.any RejectedCell.mask) then fun _ _ _ => -1
    else fun batchIdx =>
      ((rows.getD batchIdx []).foldl ((samples.getD batchIdx default).forceToken draftBlockSize
        maxTokensPerSample (planRows.getD batchIdx [])) (fun _ _ => -1, 0)).1

/-! ## The collector -/

/-- An item the collector selects, with its block. -/
structure SelectedDraft where
  itemIdx : ℕ
  blockIdx : ℕ
  cell : RejectedCell

/-- The loop of the collector over the items of a sample (`eagle3_student.py:977-1000`). -/
def Sample.selectDrafts (s : Sample) (draftBlockSize : ℕ) (maxTokensPerSample : Option ℕ)
    (planRow : List AnchorCell) : ℕ → ℕ → List RejectedCell → List SelectedDraft
  | _, _, [] => []
  | selectedCount, itemIdx, cell :: rest =>
    if cell.mask = false ∨ (maxTokensPerSample.any fun m => m ≤ selectedCount) then
      s.selectDrafts draftBlockSize maxTokensPerSample planRow selectedCount (itemIdx + 1) rest
    else match s.collectBlock draftBlockSize planRow cell with
      | none =>
        s.selectDrafts draftBlockSize maxTokensPerSample planRow selectedCount (itemIdx + 1) rest
      | some blockIdx => ⟨itemIdx, blockIdx, cell⟩ ::
        s.selectDrafts draftBlockSize maxTokensPerSample planRow (selectedCount + 1) (itemIdx + 1)
          rest

section Collector

variable {σ : Type} (draft : Eagle3Draft σ)

/-- `_compute_selected_eagle3_log_probs` (`eagle3_student.py:486-523`) : the log-probabilities
of the supported tokens, and which they are. -/
def computeSelectedEagle3LogProbs (chunkSize : ℕ) (selected : List (σ × ℤ)) :
    List LogProb × List Bool :=
  (forChunks chunkSize (fun chunk => chunk.map fun x => draft.logProb x.1 x.2)
    (selected.filter fun x => draft.supported x.2), selected.map fun x => draft.supported x.2)

/-- `_collect_eagle3_rejected_draft_log_probs` (`eagle3_student.py:935-1031`). -/
def collectEagle3RejectedDraftLogProbs (samples : List Sample) (draftBlockSize chunkSize : ℕ)
    (maxTokensPerSample : Option ℕ) (draftHidden : ℕ → ℕ → σ) (planRows : List (List AnchorCell))
    (rejectedDrafts : Option (List (List RejectedCell))) : ℕ → ℕ → CollectedCell :=
  match rejectedDrafts with
  | none => fun _ _ => .zero
  | some rows =>
    if !rows.any (fun row => row.any RejectedCell.mask) then fun _ _ => .zero
    else
      let selected := (List.range samples.length).flatMap fun batchIdx =>
        ((samples.getD batchIdx default).selectDrafts draftBlockSize maxTokensPerSample
          (planRows.getD batchIdx []) 0 0 (rows.getD batchIdx [])).map fun x => (batchIdx, x)
      let (selectedLogProbs, supported) := computeSelectedEagle3LogProbs draft chunkSize
        (selected.map fun x => (draftHidden x.1 (x.2.blockIdx * draftBlockSize +
          x.2.cell.offset.toNat), x.2.cell.tokenId))
      let supportedItems := ((selected.zip supported).filter Prod.snd).map Prod.fst
      scatterAt (fun _ _ => .zero) ((supportedItems.zip selectedLogProbs).map fun x =>
        ((x.1.1, x.1.2.itemIdx), ⟨x.2, x.1.2.cell.teacherLogprob, true⟩))

end Collector

/-! ## The items of the two loops -/

theorem mask_of_any_eq_false {rows : List (List RejectedCell)}
    (h : ¬(rows.any fun row => row.any RejectedCell.mask) = true) (i : ℕ) :
    ∀ cell ∈ rows.getD i [], cell.mask = false := by
  intro cell hcell
  by_contra hmask
  refine h (List.any_eq_true.mpr ⟨rows.getD i [], ?_, List.any_eq_true.mpr ⟨cell, hcell, ?_⟩⟩)
  · by_cases hi : i < rows.length
    · exact getD_mem hi []
    · rw [List.getD_eq_default _ _ (Nat.le_of_not_lt hi)] at hcell
      cases hcell
  · simpa using hmask

theorem Sample.selectDrafts_of_masked {s : Sample} {draftBlockSize : ℕ}
    {maxTokensPerSample : Option ℕ} {planRow : List AnchorCell} :
    ∀ {cells : List RejectedCell} (count itemIdx : ℕ), (∀ cell ∈ cells, cell.mask = false) →
      s.selectDrafts draftBlockSize maxTokensPerSample planRow count itemIdx cells = []
  | [], _, _, _ => rfl
  | cell :: rest, count, itemIdx, h => by
    rw [Sample.selectDrafts, if_pos (Or.inl (h cell List.mem_cons_self))]
    exact selectDrafts_of_masked count (itemIdx + 1) fun c hc => h c (List.mem_cons_of_mem _ hc)

/-- What the builder writes for an item. -/
def SelectedDraft.forcedWrite (draftBlockSize : ℕ) (x : SelectedDraft) : Option ((ℕ × ℕ) × ℤ) :=
  if x.cell.offset + 1 < draftBlockSize then
    some ((x.blockIdx, (x.cell.offset + 1).toNat), x.cell.tokenId)
  else none

namespace Sample

variable {s : Sample} {draftBlockSize : ℕ} {maxTokensPerSample : Option ℕ}
  {planRow : List AnchorCell}

/-- The builder writes the items the collector selects, on any plan. -/
theorem foldl_forceToken : ∀ (cells : List RejectedCell) (forced : ℕ → ℕ → ℤ) (count itemIdx : ℕ),
    (cells.foldl (s.forceToken draftBlockSize maxTokensPerSample planRow) (forced, count)).1 =
      scatterAt forced ((s.selectDrafts draftBlockSize maxTokensPerSample planRow count itemIdx
        cells).filterMap (SelectedDraft.forcedWrite draftBlockSize))
  | [], forced, count, itemIdx => rfl
  | cell :: rest, forced, count, itemIdx => by
    rw [List.foldl_cons, selectDrafts, forceToken]
    by_cases hmask : cell.mask = false
    · rw [if_pos hmask, if_pos (Or.inl hmask)]
      exact foldl_forceToken rest forced count (itemIdx + 1)
    · by_cases hfull : (maxTokensPerSample.any fun m => m ≤ count) = true
      · rw [if_neg hmask, if_pos hfull, if_pos (Or.inr hfull)]
        exact foldl_forceToken rest forced count (itemIdx + 1)
      · rw [if_neg hmask, if_neg hfull, if_neg (not_or.mpr ⟨hmask, hfull⟩)]
        cases hblock : s.collectBlock draftBlockSize planRow cell with
        | none => exact foldl_forceToken rest forced count (itemIdx + 1)
        | some blockIdx =>
          rw [foldl_forceToken rest _ (count + 1) (itemIdx + 1)]
          by_cases hlast : cell.offset + 1 < draftBlockSize
          · simp [SelectedDraft.forcedWrite, hlast]
          · simp [SelectedDraft.forcedWrite, hlast]

theorem selectDrafts_cons_of_selected {count itemIdx k : ℕ} {cell : RejectedCell}
    {rest : List RejectedCell} (h : s.Selectable draftBlockSize cell)
    (hroom : s.Room draftBlockSize maxTokensPerSample count (cell :: rest) 0)
    (hk : FirstKept planRow (s.fullAnchor cell.anchor) k) :
    s.selectDrafts draftBlockSize maxTokensPerSample planRow count itemIdx (cell :: rest) =
      ⟨itemIdx, k, cell⟩ :: s.selectDrafts draftBlockSize maxTokensPerSample planRow (count + 1)
        (itemIdx + 1) rest := by
  rw [selectDrafts, if_neg (not_or.mpr ⟨by simp [h.1], room_zero.mp hroom⟩),
    collectBlock_of_selectable h hk]

theorem selectDrafts_cons_of_skipped {count itemIdx : ℕ} {cell : RejectedCell}
    {rest : List RejectedCell} (h : ¬(s.Selectable draftBlockSize cell ∧
      s.Room draftBlockSize maxTokensPerSample count (cell :: rest) 0)) :
    s.selectDrafts draftBlockSize maxTokensPerSample planRow count itemIdx (cell :: rest) =
      s.selectDrafts draftBlockSize maxTokensPerSample planRow count (itemIdx + 1) rest := by
  rw [selectDrafts]
  split_ifs with hskip
  · rfl
  · obtain ⟨hmask, hroom⟩ := not_or.mp hskip
    have hsel : ¬s.Selectable draftBlockSize cell := fun hsel => h ⟨hsel, room_zero.mpr hroom⟩
    rw [collectBlock_of_not_selectable (by simpa using hmask) hsel]

/-- The items a sample has room for after `count` items : a prefix of the selectable ones. -/
def taken (s : Sample) (draftBlockSize : ℕ) (maxTokensPerSample : Option ℕ) (count : ℕ)
    (cells : List RejectedCell) : List RejectedCell :=
  let selectable := cells.filter fun cell => s.Selectable draftBlockSize cell
  maxTokensPerSample.elim selectable fun m => selectable.take (m - count)

theorem taken_initial (count : ℕ) (cells : List RejectedCell) :
    s.taken draftBlockSize maxTokensPerSample count cells <+:
      cells.filter fun cell => s.Selectable draftBlockSize cell := by
  cases maxTokensPerSample with
  | none => exact List.prefix_refl _
  | some m => exact List.take_prefix _ _

theorem taken_cons_of_selected {count : ℕ} {cell : RejectedCell} {rest : List RejectedCell}
    (h : s.Selectable draftBlockSize cell)
    (hroom : s.Room draftBlockSize maxTokensPerSample count (cell :: rest) 0) :
    s.taken draftBlockSize maxTokensPerSample count (cell :: rest) =
      cell :: s.taken draftBlockSize maxTokensPerSample (count + 1) rest := by
  unfold taken
  rw [List.filter_cons_of_pos (by simpa using h)]
  cases maxTokensPerSample with
  | none => rfl
  | some m =>
    have hlt : count < m := by simpa using hroom m rfl
    have hsub : m - count = m - (count + 1) + 1 := by omega
    simp only [Option.elim_some, hsub, List.take_succ_cons]

theorem taken_cons_of_skipped {count : ℕ} {cell : RejectedCell} {rest : List RejectedCell}
    (h : ¬(s.Selectable draftBlockSize cell ∧
      s.Room draftBlockSize maxTokensPerSample count (cell :: rest) 0)) :
    s.taken draftBlockSize maxTokensPerSample count (cell :: rest) =
      s.taken draftBlockSize maxTokensPerSample count rest := by
  by_cases hsel : s.Selectable draftBlockSize cell
  · obtain ⟨m, rfl, hle⟩ : ∃ m, maxTokensPerSample = some m ∧ m ≤ count := by
      simpa [room_zero, hsel, Option.any_eq_true] using h
    simp only [taken, Option.elim_some, Nat.sub_eq_zero_of_le hle, List.take_zero]
  · unfold taken
    rw [List.filter_cons_of_neg (by simpa using hsel)]

theorem map_cell_selectDrafts : ∀ {count : ℕ} (itemIdx : ℕ) {cells : List RejectedCell},
    s.Covers draftBlockSize maxTokensPerSample planRow count cells →
    (s.selectDrafts draftBlockSize maxTokensPerSample planRow count itemIdx cells).map
      SelectedDraft.cell = s.taken draftBlockSize maxTokensPerSample count cells
  | count, itemIdx, [], _ => by
    cases maxTokensPerSample <;> simp [selectDrafts, taken]
  | count, itemIdx, cell :: rest, hcover => by
    by_cases h : s.Selectable draftBlockSize cell ∧
        s.Room draftBlockSize maxTokensPerSample count (cell :: rest) 0
    · obtain ⟨k, hk⟩ := hcover 0 cell rfl h.1 h.2
      rw [selectDrafts_cons_of_selected h.1 h.2 hk, taken_cons_of_selected h.1 h.2, List.map_cons,
        map_cell_selectDrafts (itemIdx + 1) (hcover.of_selected h.1)]
    · rw [selectDrafts_cons_of_skipped h, taken_cons_of_skipped h,
        map_cell_selectDrafts (itemIdx + 1) (hcover.of_skipped h)]

/-- The collector selects the first selectable items, each at the first block of its anchor. -/
theorem mem_selectDrafts {x : SelectedDraft} : ∀ {count itemIdx : ℕ} {cells : List RejectedCell},
    s.Covers draftBlockSize maxTokensPerSample planRow count cells →
    (x ∈ s.selectDrafts draftBlockSize maxTokensPerSample planRow count itemIdx cells ↔
      ∃ j, x.itemIdx = itemIdx + j ∧ cells[j]? = some x.cell ∧
        s.Selectable draftBlockSize x.cell ∧
        s.Room draftBlockSize maxTokensPerSample count cells j ∧
        FirstKept planRow (s.fullAnchor x.cell.anchor) x.blockIdx)
  | count, itemIdx, [], _ => by simp [selectDrafts]
  | count, itemIdx, cell :: rest, hcover => by
    by_cases h : s.Selectable draftBlockSize cell ∧
        s.Room draftBlockSize maxTokensPerSample count (cell :: rest) 0
    · obtain ⟨k, hk⟩ := hcover 0 cell rfl h.1 h.2
      rw [selectDrafts_cons_of_selected h.1 h.2 hk, List.mem_cons,
        mem_selectDrafts (hcover.of_selected h.1)]
      constructor
      · rintro (rfl | ⟨j, hidx, hcell, hsel, hroom, hkept⟩)
        · exact ⟨0, rfl, rfl, h.1, h.2, hk⟩
        · exact ⟨j + 1, by omega, hcell, hsel, (room_succ_of_selectable h.1).mpr hroom, hkept⟩
      · rintro ⟨_ | j, hidx, hcell, hsel, hroom, hkept⟩
        · left
          obtain ⟨itemIdx', blockIdx, cell'⟩ := x
          obtain rfl : cell = cell' := by simpa using hcell
          obtain rfl : itemIdx' = itemIdx := hidx
          obtain rfl := hkept.unique hk
          rfl
        · exact Or.inr ⟨j, by omega, hcell, hsel, (room_succ_of_selectable h.1).mp hroom, hkept⟩
    · rw [selectDrafts_cons_of_skipped h, mem_selectDrafts (hcover.of_skipped h)]
      constructor
      · rintro ⟨j, hidx, hcell, hsel, hroom, hkept⟩
        exact ⟨j + 1, by omega, hcell, hsel, (room_succ_of_skipped h).mpr hroom, hkept⟩
      · rintro ⟨_ | j, hidx, hcell, hsel, hroom, hkept⟩
        · obtain rfl : cell = x.cell := by simpa using hcell
          exact absurd ⟨hsel, hroom⟩ h
        · exact ⟨j, by omega, hcell, hsel, (room_succ_of_skipped h).mp hroom, hkept⟩

/-! ## The inputs of a block -/

/-- The selectable items of the block at an anchor. -/
def blockItems (s : Sample) (anchor : ℤ) (items : List RejectedCell) : List RejectedCell :=
  items.filter fun cell => s.fullAnchor cell.anchor = anchor

/-- The offsets of a list of items ascend by one from `f`. -/
def Ascends (f : ℕ) (items : List RejectedCell) : Prop :=
  ∀ (t : ℕ) (cell : RejectedCell), items[t]? = some cell → cell.offset = (f + t : ℕ)

theorem Ascends.of_initial {f : ℕ} {items items' : List RejectedCell} (h : Ascends f items)
    (hinitial : items' <+: items) : Ascends f items' := by
  obtain ⟨rest, rfl⟩ := hinitial
  intro t cell ht
  have hlt := (List.getElem?_eq_some_iff.mp ht).1
  exact h t cell ((List.getElem?_append_left hlt).trans ht)

section Block

variable {cells : List RejectedCell} {anchor : ℤ} {k f : ℕ}
  (hcover : s.Covers draftBlockSize maxTokensPerSample planRow 0 cells)
  (hk : FirstKept planRow anchor k)

include hcover hk

/-- The items of a block that are selected. -/
theorem mem_block_iff {cell : RejectedCell} :
    (∃ x ∈ s.selectDrafts draftBlockSize maxTokensPerSample planRow 0 0 cells,
      x.blockIdx = k ∧ x.cell = cell) ↔
      cell ∈ s.blockItems anchor (s.taken draftBlockSize maxTokensPerSample 0 cells) := by
  rw [blockItems, List.mem_filter, ← map_cell_selectDrafts 0 hcover, List.mem_map]
  constructor
  · rintro ⟨x, hx, rfl, rfl⟩
    obtain ⟨-, -, -, -, -, hkept⟩ := (mem_selectDrafts hcover).mp hx
    exact ⟨⟨x, hx, rfl⟩, by simpa using hkept.anchor_eq hk⟩
  · rintro ⟨⟨x, hx, rfl⟩, hanchor⟩
    obtain ⟨-, -, -, -, -, hkept⟩ := (mem_selectDrafts hcover).mp hx
    rw [of_decide_eq_true hanchor] at hkept
    exact ⟨x, hx, hkept.unique hk, rfl⟩

variable (hasc : Ascends f
  (s.blockItems anchor (s.taken draftBlockSize maxTokensPerSample 0 cells)))

include hasc

/-- What is written to the forced tokens of a block : the token of an item, one offset on. -/
theorem mem_forcedWrites {o : ℕ} {token : ℤ} :
    ((k, o), token) ∈ (s.selectDrafts draftBlockSize maxTokensPerSample planRow 0 0
        cells).filterMap (SelectedDraft.forcedWrite draftBlockSize) ↔
      ∃ (t : ℕ) (cell : RejectedCell), (s.blockItems anchor (s.taken draftBlockSize
        maxTokensPerSample 0 cells))[t]? = some cell ∧ o = f + t + 1 ∧ o < draftBlockSize ∧
          token = cell.tokenId := by
  rw [List.mem_filterMap]
  constructor
  · rintro ⟨x, hx, hwrite⟩
    obtain ⟨hlast, hwrite⟩ := Option.ite_none_right_eq_some.mp hwrite
    obtain ⟨⟨hblock, hoffset⟩, rfl⟩ := by simpa only [Option.some.injEq, Prod.mk.injEq] using hwrite
    obtain ⟨t, ht⟩ := List.mem_iff_getElem?.mp ((mem_block_iff hcover hk).mp ⟨x, hx, hblock, rfl⟩)
    have hat := hasc t x.cell ht
    exact ⟨t, x.cell, ht, by omega, by omega, rfl⟩
  · rintro ⟨t, cell, ht, rfl, hlast, rfl⟩
    obtain ⟨x, hx, hblock, rfl⟩ := (mem_block_iff hcover hk).mpr (List.mem_of_getElem? ht)
    have hat := hasc t x.cell ht
    refine ⟨x, hx, ?_⟩
    have hoffset : (x.cell.offset + 1).toNat = f + t + 1 := by omega
    rw [SelectedDraft.forcedWrite, if_pos (by omega), hblock, hoffset]

/-- The inputs of a block : the tokens of the sequence up to the first rejected offset, then the
rejected tokens, then the tokens of the sequence again. -/
theorem chainInput_eq (seqLen : ℕ) (inputIds : List ℤ) {o : ℕ} (ho : o < draftBlockSize) :
    draftInput seqLen inputIds (some (scatterAt (fun _ _ => -1) ((s.selectDrafts draftBlockSize
        maxTokensPerSample planRow 0 0 cells).filterMap
          (SelectedDraft.forcedWrite draftBlockSize)))) anchor k o =
      if f < o ∧ o ≤ f + (s.blockItems anchor (s.taken draftBlockSize maxTokensPerSample 0
          cells)).length then
        ((s.blockItems anchor (s.taken draftBlockSize maxTokensPerSample 0 cells)).getD (o - 1 - f)
          .pad).tokenId
      else inputIds.getD (clampPosition seqLen (anchor + o - 1)) 0 := by
  have hwrites : ∀ token, ((k, o), token) ∈ _ ↔ _ := fun _ => mem_forcedWrites hcover hk hasc
  simp only [draftInput]
  by_cases hin : f < o ∧ o ≤ f + (s.blockItems anchor (s.taken draftBlockSize maxTokensPerSample 0
      cells)).length
  · rw [if_pos hin]
    have hlt : o - 1 - f < (s.blockItems anchor (s.taken draftBlockSize maxTokensPerSample 0
      cells)).length := by omega
    have hitem := List.getElem?_eq_getElem hlt
    have hmem := (hwrites _).mpr ⟨o - 1 - f, _, hitem, by omega, ho, rfl⟩
    have hall : ∀ b, ((k, o), b) ∈ _ → b = _ := fun b hb => by
      obtain ⟨t, cell, ht, hto, -, rfl⟩ := (hwrites b).mp hb
      obtain rfl : t = o - 1 - f := by omega
      rw [Option.some.inj (ht.symm.trans hitem)]
    have hnonneg : 0 ≤ ((s.blockItems anchor (s.taken draftBlockSize maxTokensPerSample 0
        cells))[o - 1 - f]).tokenId := by
      have hmem := List.mem_of_mem_filter (List.getElem_mem hlt)
      have hsel := List.of_mem_filter ((taken_initial 0 cells).subset hmem)
      exact (of_decide_eq_true hsel).2.2.1
    rw [scatterAt_of_mem hmem hall, if_pos hnonneg, List.getD_eq_getElem _ _ hlt]
  · have hnone : ∀ b, ((k, o), b) ∉ _ := fun b hb => by
      obtain ⟨t, cell, ht, rfl, -, -⟩ := (hwrites b).mp hb
      have := (List.getElem?_eq_some_iff.mp ht).1
      exact hin ⟨by omega, by omega⟩
    rw [if_neg hin, scatterAt_of_notMem hnone, if_neg (by decide)]

/-- The inputs up to an item : the accepted tokens, then the rejected tokens before it. -/
theorem chainInputs_eq (seqLen : ℕ) (inputIds : List ℤ) {t : ℕ}
    (ht : t < (s.blockItems anchor (s.taken draftBlockSize maxTokensPerSample 0 cells)).length)
    (ho : f + t < draftBlockSize) :
    ((List.range (f + t)).map fun o => draftInput seqLen inputIds (some (scatterAt (fun _ _ => -1)
        ((s.selectDrafts draftBlockSize maxTokensPerSample planRow 0 0 cells).filterMap
          (SelectedDraft.forcedWrite draftBlockSize)))) anchor k (o + 1)) =
      ((List.range f).map fun o : ℕ => inputIds.getD (clampPosition seqLen (anchor + o)) 0) ++
        ((s.blockItems anchor (s.taken draftBlockSize maxTokensPerSample 0 cells)).take t).map
          RejectedCell.tokenId := by
  refine List.ext_getElem (by simp; omega) fun o h₁ h₂ => ?_
  rw [List.length_map, List.length_range] at h₁
  rw [List.getElem_map, List.getElem_range, chainInput_eq hcover hk hasc _ _ (by omega)]
  by_cases hof : o < f
  · rw [if_neg (by omega), List.getElem_append_left (by simpa using hof), List.getElem_map,
      List.getElem_range]
    push_cast
    rw [add_sub_assoc, add_sub_cancel_right]
  · have hidx : o + 1 - 1 - f = o - f := by omega
    rw [if_pos ⟨by omega, by omega⟩, List.getElem_append_right (by simpa using hof), hidx,
      List.getD_eq_getElem _ _ (by omega)]
    simp

end Block

/-! ## The blocks of the pass -/

theorem nodup_selectedAnchors (seqLen : ℕ) (cells : List RejectedCell) :
    (s.selectedAnchors seqLen draftBlockSize maxTokensPerSample cells).Nodup := by
  have hfold : ∀ (cells : List RejectedCell) (found : List ℤ × ℕ), found.1.Nodup →
      (cells.foldl (s.addSelectedAnchor seqLen draftBlockSize maxTokensPerSample)
        found).1.Nodup := by
    intro cells
    induction cells with
    | nil => exact fun found h => h
    | cons cell cells ih =>
      intro found h
      refine ih _ ?_
      simp only [addSelectedAnchor]
      split_ifs with h₁ h₂ h₃ h₄ h₅
      · exact h
      · exact h
      · exact h
      · exact h
      · exact h
      · exact List.Nodup.append h (List.nodup_singleton _) (by simpa using h₅)
  exact hfold cells ([], 0) List.nodup_nil

/-- The kept blocks of a plan whose anchors differ are the first at their anchor. -/
theorem firstKept_of_nodup {anchors : List ℤ} (hnodup : anchors.Nodup) {n k : ℕ}
    {block : AnchorCell} (hk : ((anchors.map fun anchor => (⟨anchor, 0, 0, true⟩ : AnchorCell)) ++
      List.replicate n .pad)[k]? = some block) (hkeep : block.keep = true) :
    FirstKept ((anchors.map fun anchor => (⟨anchor, 0, 0, true⟩ : AnchorCell)) ++
      List.replicate n .pad) block.anchorPosition k := by
  have hlt : k < anchors.length := by
    by_contra hge
    rw [List.getElem?_append_right (by simpa using hge)] at hk
    have hpad := List.eq_of_mem_replicate (List.mem_of_getElem? hk)
    rw [hpad] at hkeep
    cases hkeep
  refine ⟨⟨block, hk, rfl, hkeep⟩, fun i hi block' hblock' hsame => ?_⟩
  rw [List.getElem?_append_left (by simpa using hlt), List.getElem?_map,
    List.getElem?_eq_getElem hlt] at hk
  rw [List.getElem?_append_left (by simpa using hi.trans hlt), List.getElem?_map,
    List.getElem?_eq_getElem (hi.trans hlt)] at hblock'
  obtain rfl := Option.some.inj hk
  obtain rfl := Option.some.inj hblock'
  exact absurd (hnodup.getElem_inj_iff.mp hsame.1) hi.ne

end Sample

section Collected

variable {σ : Type} (draft : Eagle3Draft σ) (samples : List Sample) (draftBlockSize chunkSize : ℕ)
  (maxTokensPerSample : Option ℕ) (draftHidden : ℕ → ℕ → σ) (planRows : List (List AnchorCell))
  (rejectedDrafts : List (List RejectedCell))

/-- What the collector writes for an item. -/
def collectedWrite (x : ℕ × SelectedDraft) : (ℕ × ℕ) × CollectedCell :=
  ((x.1, x.2.itemIdx), ⟨draft.logProb (draftHidden x.1 (x.2.blockIdx * draftBlockSize +
    x.2.cell.offset.toNat)) x.2.cell.tokenId, x.2.cell.teacherLogprob, true⟩)

/-- The collector writes the supported ones of the selected items. -/
theorem collectEagle3_eq (hchunk : 0 < chunkSize) :
    collectEagle3RejectedDraftLogProbs draft samples draftBlockSize chunkSize maxTokensPerSample
        draftHidden planRows (some rejectedDrafts) =
      scatterAt (fun _ _ => .zero) ((((List.range samples.length).flatMap fun batchIdx =>
        ((samples.getD batchIdx default).selectDrafts draftBlockSize maxTokensPerSample
          (planRows.getD batchIdx []) 0 0 (rejectedDrafts.getD batchIdx [])).map
            fun x => (batchIdx, x)).filter fun x => draft.supported x.2.cell.tokenId).map
              (collectedWrite draft draftBlockSize draftHidden)) := by
  unfold collectEagle3RejectedDraftLogProbs
  by_cases hany : (rejectedDrafts.any fun row => row.any RejectedCell.mask) = true
  · simp only [hany, Bool.not_true, Bool.false_eq_true, if_false, computeSelectedEagle3LogProbs,
      forChunks_map hchunk, List.map_map, List.filter_map, filter_zip_map, Function.comp_def]
    rw [← List.map_prod_left_eq_zip, List.map_map]
    rfl
  · have hnone : ((List.range samples.length).flatMap fun batchIdx =>
        ((samples.getD batchIdx default).selectDrafts draftBlockSize maxTokensPerSample
          (planRows.getD batchIdx []) 0 0 (rejectedDrafts.getD batchIdx [])).map
            fun x => (batchIdx, x)) = [] := by
      refine List.flatMap_eq_nil_iff.mpr fun batchIdx _ => ?_
      rw [Sample.selectDrafts_of_masked 0 0 (mask_of_any_eq_false hany batchIdx), List.map_nil]
    simp only [hany, Bool.not_false, if_true, hnone]
    rfl

variable {draft samples draftBlockSize chunkSize maxTokensPerSample draftHidden planRows
  rejectedDrafts}

theorem mem_collectedWrites {i j : ℕ} (hi : i < samples.length) {value : CollectedCell} :
    ((i, j), value) ∈ (((List.range samples.length).flatMap fun batchIdx =>
        ((samples.getD batchIdx default).selectDrafts draftBlockSize maxTokensPerSample
          (planRows.getD batchIdx []) 0 0 (rejectedDrafts.getD batchIdx [])).map
            fun x => (batchIdx, x)).filter fun x => draft.supported x.2.cell.tokenId).map
              (collectedWrite draft draftBlockSize draftHidden) ↔
      ∃ x ∈ (samples.getD i default).selectDrafts draftBlockSize maxTokensPerSample
          (planRows.getD i []) 0 0 (rejectedDrafts.getD i []),
        draft.supported x.cell.tokenId = true ∧ x.itemIdx = j ∧
          value = (collectedWrite draft draftBlockSize draftHidden (i, x)).2 := by
  simp only [List.mem_map, List.mem_filter, List.mem_flatMap, List.mem_range]
  constructor
  · rintro ⟨y, ⟨⟨i', -, x, hx, rfl⟩, hsupported⟩, hwrite⟩
    obtain ⟨hkey, rfl⟩ := Prod.mk.inj hwrite
    obtain ⟨rfl, rfl⟩ := Prod.mk.inj hkey
    exact ⟨x, hx, hsupported, rfl, rfl⟩
  · rintro ⟨x, hx, hsupported, rfl, rfl⟩
    exact ⟨(i, x), ⟨⟨i, hi, x, hx, rfl⟩, hsupported⟩, rfl⟩

variable {i j k : ℕ} {cell : RejectedCell} (hi : i < samples.length) (hchunk : 0 < chunkSize)
  (hcover : (samples.getD i default).Covers draftBlockSize maxTokensPerSample
    (planRows.getD i []) 0 (rejectedDrafts.getD i []))
  (hj : (rejectedDrafts.getD i [])[j]? = some cell)

include hi hchunk hcover hj

/-- An item that is selected and in the draft vocabulary is read at its block. -/
theorem collected_of_selects (hselects : (samples.getD i default).Selects draftBlockSize
      maxTokensPerSample (rejectedDrafts.getD i []) j cell)
    (hsupported : draft.supported cell.tokenId = true)
    (hk : Sample.FirstKept (planRows.getD i []) ((samples.getD i default).fullAnchor cell.anchor)
      k) :
    collectEagle3RejectedDraftLogProbs draft samples draftBlockSize chunkSize maxTokensPerSample
        draftHidden planRows (some rejectedDrafts) i j =
      ⟨draft.logProb (draftHidden i (k * draftBlockSize + cell.offset.toNat)) cell.tokenId,
        cell.teacherLogprob, true⟩ := by
  rw [collectEagle3_eq _ _ _ _ _ _ _ _ hchunk]
  refine scatterAt_of_mem ((mem_collectedWrites hi).mpr ⟨⟨j, k, cell⟩, ?_, hsupported, rfl, rfl⟩)
    fun value hvalue => ?_
  · exact (Sample.mem_selectDrafts hcover).mpr
      ⟨j, (Nat.zero_add j).symm, hj, hselects.1, hselects.2, hk⟩
  · obtain ⟨x, hx, -, rfl, rfl⟩ := (mem_collectedWrites hi).mp hvalue
    obtain ⟨j', hidx, hcell, -, -, hkept⟩ := (Sample.mem_selectDrafts hcover).mp hx
    rw [hidx, Nat.zero_add] at hj
    obtain rfl := Option.some.inj (hcell.symm.trans hj)
    rw [collectedWrite, hkept.unique hk]

/-- Every other item is left out. -/
theorem collected_of_not_selects (h : ¬((samples.getD i default).Selects draftBlockSize
      maxTokensPerSample (rejectedDrafts.getD i []) j cell ∧
        draft.supported cell.tokenId = true)) :
    collectEagle3RejectedDraftLogProbs draft samples draftBlockSize chunkSize maxTokensPerSample
        draftHidden planRows (some rejectedDrafts) i j = .zero := by
  rw [collectEagle3_eq _ _ _ _ _ _ _ _ hchunk]
  refine scatterAt_of_notMem fun value hvalue => ?_
  obtain ⟨x, hx, hsupported, rfl, -⟩ := (mem_collectedWrites hi).mp hvalue
  obtain ⟨j', hidx, hcell, hsel, hroom, -⟩ := (Sample.mem_selectDrafts hcover).mp hx
  rw [hidx, Nat.zero_add] at hj h
  obtain rfl := Option.some.inj (hcell.symm.trans hj)
  exact h ⟨⟨hsel, hroom⟩, hsupported⟩

end Collected

section Split

variable {samples : List Sample} {seqLen draftBlockSize : ℕ} {maxTokensPerSample : Option ℕ}
  {rejectedDrafts : List (List RejectedCell)} {i : ℕ} (hi : i < samples.length)

include hi

theorem firstKept_split {k : ℕ} {block : AnchorCell}
    (hk : ((buildRejectedDraftAnchorPlan samples seqLen draftBlockSize maxTokensPerSample
      (some rejectedDrafts)).getD i [])[k]? = some block) (hkeep : block.keep = true) :
    Sample.FirstKept ((buildRejectedDraftAnchorPlan samples seqLen draftBlockSize
      maxTokensPerSample (some rejectedDrafts)).getD i []) block.anchorPosition k := by
  by_cases hany : (rejectedDrafts.any fun row => row.any RejectedCell.mask) = true
  · unfold buildRejectedDraftAnchorPlan at hk ⊢
    simp only [hany, Bool.not_true, Bool.false_eq_true, if_false, List.map_map] at hk ⊢
    rw [getD_map_range _ hi] at hk ⊢
    exact Sample.firstKept_of_nodup (Sample.nodup_selectedAnchors seqLen _) hk hkeep
  · have hpad : block ∈ [AnchorCell.pad] := by
      unfold buildRejectedDraftAnchorPlan at hk
      simp only [hany, Bool.not_false, if_true] at hk
      rw [getD_map_of_lt _ hi default] at hk
      exact List.mem_of_getElem? hk
    rw [List.mem_singleton.mp hpad] at hkeep
    cases hkeep

theorem covers_split (hlen : rejectedDrafts.length = samples.length)
    (hseq : ∀ s ∈ samples, s.promptLen + s.responseLen ≤ seqLen) :
    (samples.getD i default).Covers draftBlockSize maxTokensPerSample
      ((buildRejectedDraftAnchorPlan samples seqLen draftBlockSize maxTokensPerSample
        (some rejectedDrafts)).getD i []) 0 (rejectedDrafts.getD i []) :=
  Sample.covers_of_blocks fun _ _ hj hselects => exists_split_block hlen hseq hi hj hselects

omit hi

/-- The builder's row is the writes of the collector's items. -/
theorem forced_row (planRows : List (List AnchorCell)) :
    buildRejectedForcedInputTokenIds samples draftBlockSize maxTokensPerSample planRows
        (some rejectedDrafts) i =
      scatterAt (fun _ _ => -1) (((samples.getD i default).selectDrafts draftBlockSize
        maxTokensPerSample (planRows.getD i []) 0 0 (rejectedDrafts.getD i [])).filterMap
          (SelectedDraft.forcedWrite draftBlockSize)) := by
  unfold buildRejectedForcedInputTokenIds
  by_cases hany : (rejectedDrafts.any fun row => row.any RejectedCell.mask) = true
  · simp only [hany, Bool.not_true, Bool.false_eq_true, if_false]
    exact Sample.foldl_forceToken _ _ 0 0
  · simp only [hany, Bool.not_false, if_true]
    rw [Sample.selectDrafts_of_masked 0 0 (mask_of_any_eq_false hany i)]
    rfl

end Split

/-! ## The chain -/

/-- The hidden state of a block at an offset. -/
theorem runEagle3DraftForward_eq {σ : Type} (draft : Eagle3Draft σ) {seqLen draftBlockSize : ℕ}
    {inputIds : List (List ℤ)} {planRows : List (List AnchorCell)} (forced : ℕ → ℕ → ℕ → ℤ)
    {i k o : ℕ} {block : AnchorCell} (hk : (planRows.getD i [])[k]? = some block) (hpos : 0 < o)
    (ho : o < draftBlockSize) :
    runEagle3DraftForward draft seqLen draftBlockSize inputIds planRows (some forced) i
        (k * draftBlockSize + o) =
      draft.after seqLen i block.anchorPosition ((List.range o).map fun t => draftInput seqLen
        (inputIds.getD i []) (some (forced i)) block.anchorPosition k (t + 1)) := by
  have hdiv : (k * draftBlockSize + o) / draftBlockSize = k := by
    rw [Nat.mul_comm, Nat.mul_add_div (by omega), Nat.div_eq_of_lt ho, Nat.add_zero]
  have hmod : (k * draftBlockSize + o) % draftBlockSize = o := by
    rw [Nat.mul_comm, Nat.mul_add_mod, Nat.mod_eq_of_lt ho]
  simp only [runEagle3DraftForward, hdiv, hmod, hk, if_neg hpos.ne', Option.map_some]
  exact draftState_eq_after draft seqLen i block.anchorPosition _ o

/-- What the pass of the rejected drafts does with a sample. -/
structure ChainExact {σ : Type} (draft : Eagle3Draft σ) (s : Sample) (i seqLen draftBlockSize : ℕ)
    (maxTokensPerSample : Option ℕ) (inputIds : List ℤ) (planRow : List AnchorCell)
    (cells : List RejectedCell) (forced : ℕ → ℕ → ℤ) (collected : ℕ → CollectedCell) : Prop where
  /-- The builder writes the items the collector selects, -/
  forced_eq : forced = scatterAt (fun _ _ => -1) ((s.selectDrafts draftBlockSize
    maxTokensPerSample planRow 0 0 cells).filterMap (SelectedDraft.forcedWrite draftBlockSize))
  /-- which are the first selectable ones, each at the block of its anchor. -/
  selects : ∀ (j k : ℕ) (cell : RejectedCell), ⟨j, k, cell⟩ ∈
      s.selectDrafts draftBlockSize maxTokensPerSample planRow 0 0 cells ↔
    cells[j]? = some cell ∧ s.Selects draftBlockSize maxTokensPerSample cells j cell ∧
      Sample.FirstKept planRow (s.fullAnchor cell.anchor) k
  /-- The inputs of a block whose offsets ascend from `f` : the rejected tokens from `f + 1` on, as
  far as items are selected, and the tokens of the sequence elsewhere. -/
  inputs : ∀ (k : ℕ) (block : AnchorCell) (f : ℕ), planRow[k]? = some block → block.keep = true →
    Sample.Ascends f (s.blockItems block.anchorPosition
      (cells.filter fun cell => s.Selectable draftBlockSize cell)) →
    let kept := s.blockItems block.anchorPosition
      (s.taken draftBlockSize maxTokensPerSample 0 cells)
    ∀ o < draftBlockSize, draftInput seqLen inputIds (some forced) block.anchorPosition k o =
      if f < o ∧ o ≤ f + kept.length then (kept.getD (o - 1 - f) .pad).tokenId
      else inputIds.getD (clampPosition seqLen (block.anchorPosition + o - 1)) 0
  /-- The log-probability of an item is conditioned on the accepted tokens and the rejected tokens
  before it. -/
  conditioned : ∀ (k : ℕ) (block : AnchorCell) (f : ℕ),
    planRow[k]? = some block → block.keep = true →
    Sample.Ascends f (s.blockItems block.anchorPosition
      (cells.filter fun cell => s.Selectable draftBlockSize cell)) →
    ∀ (j : ℕ) (cell : RejectedCell), cells[j]? = some cell →
      s.fullAnchor cell.anchor = block.anchorPosition →
      s.Selects draftBlockSize maxTokensPerSample cells j cell →
      draft.supported cell.tokenId = true →
      collected j = ⟨draft.logProb (draft.after seqLen i block.anchorPosition
        (((List.range f).map fun o : ℕ =>
            inputIds.getD (clampPosition seqLen (block.anchorPosition + o)) 0) ++
          ((s.blockItems block.anchorPosition (cells.filter fun cell =>
            s.Selectable draftBlockSize cell)).take (cell.offset.toNat - f)).map
              RejectedCell.tokenId)) cell.tokenId, cell.teacherLogprob, true⟩
  /-- Items that are not selected or not in the draft vocabulary are left out. -/
  left_out : ∀ (j : ℕ) (cell : RejectedCell), cells[j]? = some cell →
    ¬(s.Selects draftBlockSize maxTokensPerSample cells j cell ∧
      draft.supported cell.tokenId = true) → collected j = .zero

/-- Every batch, block size and limit : the builder and the collector select the same items, the
inputs of a block are the tokens of the sequence up to its first rejected offset and the rejected
tokens after it as far as they are selected, and each log-probability that is collected is
conditioned on the accepted tokens followed by the rejected tokens before it. -/
theorem eagle3_rejected_chain {σ : Type} (draft : Eagle3Draft σ) {samples : List Sample}
    {seqLen chunkSize : ℕ} (draftBlockSize : ℕ) (maxTokensPerSample : Option ℕ)
    (inputIds : List (List ℤ)) {rejectedDrafts : List (List RejectedCell)}
    (hlen : rejectedDrafts.length = samples.length)
    (hseq : ∀ s ∈ samples, s.promptLen + s.responseLen ≤ seqLen) (hchunk : 0 < chunkSize) :
    let planRows := buildRejectedDraftAnchorPlan samples seqLen draftBlockSize maxTokensPerSample
      (some rejectedDrafts)
    let forced := buildRejectedForcedInputTokenIds samples draftBlockSize maxTokensPerSample
      planRows (some rejectedDrafts)
    let draftHidden := runEagle3DraftForward draft seqLen draftBlockSize inputIds planRows
      (some forced)
    let collected := collectEagle3RejectedDraftLogProbs draft samples draftBlockSize chunkSize
      maxTokensPerSample draftHidden planRows (some rejectedDrafts)
    ∀ i < samples.length, ChainExact draft (samples.getD i default) i seqLen draftBlockSize
      maxTokensPerSample (inputIds.getD i []) (planRows.getD i []) (rejectedDrafts.getD i [])
      (forced i) (collected i) := by
  intro planRows forced draftHidden collected i hi
  have hcover : (samples.getD i default).Covers draftBlockSize maxTokensPerSample
      (planRows.getD i []) 0 (rejectedDrafts.getD i []) := covers_split hi hlen hseq
  have hforced : forced i = _ := forced_row planRows
  have hinitial : ∀ anchor, (samples.getD i default).blockItems anchor ((samples.getD i
      default).taken draftBlockSize maxTokensPerSample 0 (rejectedDrafts.getD i [])) <+:
        (samples.getD i default).blockItems anchor ((rejectedDrafts.getD i []).filter fun cell =>
          (samples.getD i default).Selectable draftBlockSize cell) :=
    fun anchor => (Sample.taken_initial 0 _).filter _
  constructor
  case forced_eq => exact hforced
  case selects =>
    intro j k cell
    rw [Sample.mem_selectDrafts hcover]
    constructor
    · rintro ⟨j', hidx, hj, hsel, hroom, hk⟩
      obtain rfl : j = j' := by simpa using hidx
      exact ⟨hj, ⟨hsel, hroom⟩, hk⟩
    · rintro ⟨hj, ⟨hsel, hroom⟩, hk⟩
      exact ⟨j, (Nat.zero_add j).symm, hj, hsel, hroom, hk⟩
  case inputs =>
    intro k block f hk hkeep hasc kept o ho
    rw [hforced]
    exact Sample.chainInput_eq hcover (firstKept_split hi hk hkeep)
      (hasc.of_initial (hinitial _)) _ _ ho
  case conditioned =>
    intro k block f hk hkeep hasc j cell hj hanchor hselects hsupported
    have hfirst := firstKept_split hi hk hkeep
    have hasc' := hasc.of_initial (hinitial _)
    obtain ⟨-, ⟨hpos, hlt⟩, -⟩ := hselects.1
    have hmem := (Sample.mem_block_iff hcover hfirst).mp ⟨⟨j, k, cell⟩,
      (Sample.mem_selectDrafts hcover).mpr ⟨j, (Nat.zero_add j).symm, hj, hselects.1, hselects.2,
        hanchor ▸ hfirst⟩, rfl, rfl⟩
    obtain ⟨t, ht⟩ := List.mem_iff_getElem?.mp hmem
    have hoffset := hasc' t cell ht
    have htlt := (List.getElem?_eq_some_iff.mp ht).1
    have hnat : cell.offset.toNat = f + t := by omega
    obtain ⟨rest, hrest⟩ := hinitial block.anchorPosition
    have hhidden : draftHidden i (k * draftBlockSize + cell.offset.toNat) = _ :=
      runEagle3DraftForward_eq draft forced hk (by omega) (by omega)
    refine (collected_of_selects hi hchunk hcover hj hselects hsupported
      (hanchor ▸ hfirst)).trans ?_
    rw [hhidden, hforced, hnat, Sample.chainInputs_eq hcover hfirst hasc' _ _ htlt (by omega),
      ← hrest, Nat.add_sub_cancel_left, List.take_append_of_le_length htlt.le]
  case left_out =>
    intro j cell hj h
    exact collected_of_not_selects hi hchunk hcover hj h

/-- A prompt token and four response tokens. -/
def fourResponse : Sample where
  inputIds := [10, 11, 12, 13, 14]
  promptLen := 1
  responseLen := 4
  validSeqLen := 5
  rejectTokenIndices := []
  anchors := [-1, -1]
  offsets := [1, 2]
  tokenIds := [5, 6]
  teacherLogprobs := [⊥, ⊥]

/-- Its two rejected drafts, at the offsets `1` and `2` of the block at the end of the prompt. -/
def twoRejected : List RejectedCell := [⟨-1, 1, 5, ⊥, true⟩, ⟨-1, 2, 6, ⊥, true⟩]

theorem ascends_twoRejected : Sample.Ascends 1 (fourResponse.blockItems 0
    (twoRejected.filter fun cell => fourResponse.Selectable 4 cell)) := by
  intro t cell ht
  have hitems : fourResponse.blockItems 0
    (twoRejected.filter fun cell => fourResponse.Selectable 4 cell) = twoRejected := rfl
  rw [hitems] at ht
  match t with
  | 0 => rw [← Option.some.inj ht]; rfl
  | 1 => rw [← Option.some.inj ht]; rfl

/-- A limit of one leaves out the second item, and the input after it is the token of the
sequence. -/
theorem eagle3_chain_truncated :
    let planRows := buildRejectedDraftAnchorPlan [fourResponse] 5 4 (some 1) (some [twoRejected])
    let forced := buildRejectedForcedInputTokenIds [fourResponse] 4 (some 1) planRows
      (some [twoRejected])
    Sample.Ascends 1 (fourResponse.blockItems 0
      (twoRejected.filter fun cell => fourResponse.Selectable 4 cell)) ∧
    ¬∀ o, 0 < o → o < 4 → o ≤ 1 + twoRejected.length →
      draftInput 5 fourResponse.inputIds (some (forced 0)) 0 0 o =
        if o ≤ 1 then fourResponse.inputIds.getD (0 + o - 1) 0
        else (twoRejected.getD (o - 1 - 1) .pad).tokenId := by
  refine ⟨ascends_twoRejected, fun h => ?_⟩
  exact absurd (h 3 (by decide) (by decide) (by decide)) (by decide)

/-- A draft whose state is the list of its inputs. -/
def historyDraft : Eagle3Draft (List ℤ) where
  projectHiddenStates := fun _ _ => []
  backbone := fun state token _ => state ++ [token]
  zeros := []
  logProb := fun state _ => ((state.sum : ℚ) : LogProb)
  supported := fun _ => true

theorem eagle3_rejected_chain_twoRejected :
    let planRows := buildRejectedDraftAnchorPlan [fourResponse] 5 4 none (some [twoRejected])
    let forced := buildRejectedForcedInputTokenIds [fourResponse] 4 none planRows
      (some [twoRejected])
    draftInput 5 fourResponse.inputIds (some (forced 0)) 0 0 3 = 6 ∧
    collectEagle3RejectedDraftLogProbs historyDraft [fourResponse] 4 64 none
      (runEagle3DraftForward historyDraft 5 4 [fourResponse.inputIds] planRows (some forced))
      planRows (some [twoRejected]) 0 1 = ⟨((15 : ℚ) : LogProb), ⊥, true⟩ := by
  have hseq : ∀ s ∈ [fourResponse], s.promptLen + s.responseLen ≤ 5 := by
    simp [fourResponse]
  have hlen : [twoRejected].length = [fourResponse].length := rfl
  have hchain := eagle3_rejected_chain historyDraft 4 none [fourResponse.inputIds] hlen hseq
    (show 0 < 64 by decide) 0 (by decide)
  refine ⟨?_, ?_⟩
  · refine (hchain.inputs 0 ⟨0, 0, 0, true⟩ 1 rfl rfl ascends_twoRejected 3 (by decide)).trans ?_
    decide
  · refine (hchain.conditioned 0 ⟨0, 0, 0, true⟩ 1 rfl rfl ascends_twoRejected 1 _ rfl rfl
      ⟨by decide, by simp [Sample.Room]⟩ rfl).trans ?_
    rfl

end DraftOpd
