import DraftOpd.Normaliser

/-!
# Selecting rejected drafts in the combined and in the split pass

The rejected drafts of a batch are read off the blocks of the combined pass, which also runs
the response anchors, or off a pass of their own. `_build_rejected_draft_anchor_plan` finds the
anchors of that pass with the filter and the limit of `_collect_rejected_draft_log_probs`
written out a second time, and `_build_opd_anchor_plan` with a weaker filter and no limit.

An item the collector could take (`Sample.Selectable`) is taken when fewer than the limit stand
before it (`Sample.Selects`). Either plan has a block at the anchor of every item that is taken
(`mem_selectedAnchors`, `mem_combined_anchors`), so the loop of the collector, which skips an
item without a block, takes the same items on both (`rejected_selection_same_in_both_passes`).
-/

namespace DraftOpd

/-! ## The anchors of the split pass -/

/-- One item of the loop of `_build_rejected_draft_anchor_plan` (`dflash_student.py:916-934`) :
the anchors found so far and `selected_count`. -/
def Sample.addSelectedAnchor (s : Sample) (seqLen draftBlockSize : ℕ)
    (maxTokensPerSample : Option ℕ) (found : List ℤ × ℕ) (cell : RejectedCell) : List ℤ × ℕ :=
  let fullAnchor := s.fullAnchor cell.anchor
  if cell.mask = false then found
  else if (maxTokensPerSample.any fun m => m ≤ found.2) then found
  else if cell.offset ≤ 0 ∨ (draftBlockSize : ℤ) ≤ cell.offset ∨ cell.tokenId < 0 then found
  else if fullAnchor < 0 ∨ (min (s.promptLen + s.responseLen) seqLen : ℕ) ≤ fullAnchor then found
  else (if fullAnchor ∈ found.1 then found.1 else found.1 ++ [fullAnchor], found.2 + 1)

/-- The anchors of a sample. -/
def Sample.selectedAnchors (s : Sample) (seqLen draftBlockSize : ℕ)
    (maxTokensPerSample : Option ℕ) (cells : List RejectedCell) : List ℤ :=
  (cells.foldl (s.addSelectedAnchor seqLen draftBlockSize maxTokensPerSample) ([], 0)).1

/-- `_build_rejected_draft_anchor_plan` (`dflash_student.py:881-947`). Its two tensors are
the positions and the mask of the plan's cells ; it has no segments. -/
def buildRejectedDraftAnchorPlan (samples : List Sample) (seqLen draftBlockSize : ℕ)
    (maxTokensPerSample : Option ℕ) (rejectedDrafts : Option (List (List RejectedCell))) :
    List (List AnchorCell) :=
  match rejectedDrafts with
  | none => samples.map fun _ => [.pad]
  | some rows =>
    if !rows.any (fun row => row.any RejectedCell.mask) then samples.map fun _ => [.pad]
    else
      let allAnchors := (List.range samples.length).map fun batchIdx =>
        (samples.getD batchIdx default).selectedAnchors seqLen draftBlockSize maxTokensPerSample
          (rows.getD batchIdx [])
      let maxBlocks := max (maxLength allAnchors) 1
      allAnchors.map fun sampleAnchors =>
        padRow maxBlocks .pad (sampleAnchors.map fun anchor => ⟨anchor, 0, 0, true⟩)

/-! ## The items that are selected -/

namespace Sample

/-- The items the collector takes as long as there is room for them. -/
def Selectable (s : Sample) (draftBlockSize : ℕ) (cell : RejectedCell) : Prop :=
  cell.mask = true ∧ (0 < cell.offset ∧ cell.offset < draftBlockSize) ∧ 0 ≤ cell.tokenId ∧
    0 ≤ s.fullAnchor cell.anchor ∧
    s.fullAnchor cell.anchor < ((s.promptLen + s.responseLen : ℕ) : ℤ)

instance (s : Sample) (draftBlockSize : ℕ) (cell : RejectedCell) :
    Decidable (s.Selectable draftBlockSize cell) :=
  inferInstanceAs (Decidable (_ ∧ _))

/-- There is room for the item `j` of a row after `count` items : fewer than the limit can be
taken before it. -/
def Room (s : Sample) (draftBlockSize : ℕ) (maxTokensPerSample : Option ℕ) (count : ℕ)
    (cells : List RejectedCell) (j : ℕ) : Prop :=
  ∀ m ∈ maxTokensPerSample,
    count + (cells.take j).countP (fun cell => decide (s.Selectable draftBlockSize cell)) < m

/-- The item `j` of a row is one of the first `max_tokens_per_sample` selectable ones. -/
def Selects (s : Sample) (draftBlockSize : ℕ) (maxTokensPerSample : Option ℕ)
    (cells : List RejectedCell) (j : ℕ) (cell : RejectedCell) : Prop :=
  s.Selectable draftBlockSize cell ∧ s.Room draftBlockSize maxTokensPerSample 0 cells j

/-- The block `k` is the first kept one at an anchor. -/
def FirstKept (planRow : List AnchorCell) (anchor : ℤ) (k : ℕ) : Prop :=
  (∃ block, planRow[k]? = some block ∧ block.anchorPosition = anchor ∧ block.keep = true) ∧
    ∀ i < k, ∀ block, planRow[i]? = some block →
      ¬(block.anchorPosition = anchor ∧ block.keep = true)

variable {s : Sample} {draftBlockSize : ℕ} {maxTokensPerSample : Option ℕ}

theorem room_zero {count : ℕ} {cells : List RejectedCell} :
    s.Room draftBlockSize maxTokensPerSample count cells 0 ↔
      ¬(maxTokensPerSample.any fun m => decide (m ≤ count)) = true := by
  cases maxTokensPerSample <;> simp [Room]

/-- An item after one that is taken. -/
theorem room_succ_of_selectable {count j : ℕ} {cell : RejectedCell} {cells : List RejectedCell}
    (h : s.Selectable draftBlockSize cell) :
    s.Room draftBlockSize maxTokensPerSample count (cell :: cells) (j + 1) ↔
      s.Room draftBlockSize maxTokensPerSample (count + 1) cells j := by
  simp only [Room, List.take_succ_cons]
  rw [List.countP_cons_of_pos (by simpa using h)]
  refine forall₂_congr fun m _ => ?_
  omega

/-- At the limit nothing is taken any more. -/
theorem not_room_of_full {count : ℕ}
    (h : (maxTokensPerSample.any fun m => decide (m ≤ count)) = true)
    (cells : List RejectedCell) (j : ℕ) :
    ¬s.Room draftBlockSize maxTokensPerSample count cells j := by
  obtain ⟨m, rfl, hle⟩ : ∃ m, maxTokensPerSample = some m ∧ m ≤ count := by
    simpa [Option.any_eq_true] using h
  intro hroom
  have hlt := hroom m rfl
  omega

/-- An item after one that is passed over. -/
theorem room_succ_of_skipped {count j : ℕ} {cell : RejectedCell} {cells : List RejectedCell}
    (h : ¬(s.Selectable draftBlockSize cell ∧
      s.Room draftBlockSize maxTokensPerSample count (cell :: cells) 0)) :
    s.Room draftBlockSize maxTokensPerSample count (cell :: cells) (j + 1) ↔
      s.Room draftBlockSize maxTokensPerSample count cells j := by
  by_cases hsel : s.Selectable draftBlockSize cell
  · have hfull := not_not.mp (mt room_zero.mpr fun hroom => h ⟨hsel, hroom⟩)
    exact iff_of_false (not_room_of_full hfull _ _) (not_room_of_full hfull _ _)
  · simp only [Room, List.take_succ_cons]
    rw [List.countP_cons_of_neg (by simpa using hsel)]

/-! ## The plan covers the items -/

theorem findIdx?_kept_iff {planRow : List AnchorCell} {anchor : ℤ} {k : ℕ} :
    (planRow.findIdx? fun block => block.anchorPosition == anchor && block.keep) = some k ↔
      FirstKept planRow anchor k := by
  rw [List.findIdx?_eq_some_iff_getElem]
  constructor
  · rintro ⟨hk, hfound, hbefore⟩
    refine ⟨⟨_, List.getElem?_eq_getElem hk, by simpa using hfound⟩, fun i hi block hblock => ?_⟩
    obtain ⟨hi', rfl⟩ := List.getElem?_eq_some_iff.mp hblock
    simpa using hbefore i hi
  · rintro ⟨⟨block, hblock, hfound⟩, hbefore⟩
    obtain ⟨hk, rfl⟩ := List.getElem?_eq_some_iff.mp hblock
    refine ⟨hk, by simpa using hfound, fun i hi => ?_⟩
    simpa using hbefore i hi _ (List.getElem?_eq_getElem (hi.trans hk))

/-- A plan with a kept block at an anchor has a first one. -/
theorem exists_firstKept {planRow : List AnchorCell} {block : AnchorCell}
    (hblock : block ∈ planRow) (hkeep : block.keep = true) :
    ∃ k, FirstKept planRow block.anchorPosition k := by
  refine Option.isSome_iff_exists.mp ?_ |>.imp fun k hk => findIdx?_kept_iff.mp hk
  rw [List.findIdx?_isSome, List.any_eq_true]
  exact ⟨block, hblock, by simp [hkeep]⟩

theorem FirstKept.unique {planRow : List AnchorCell} {anchor : ℤ} {k k' : ℕ}
    (h : FirstKept planRow anchor k) (h' : FirstKept planRow anchor k') : k = k' :=
  Option.some.inj ((findIdx?_kept_iff.mpr h).symm.trans (findIdx?_kept_iff.mpr h'))

theorem FirstKept.anchor_eq {planRow : List AnchorCell} {anchor anchor' : ℤ} {k : ℕ}
    (h : FirstKept planRow anchor k) (h' : FirstKept planRow anchor' k) : anchor = anchor' := by
  obtain ⟨⟨block, hblock, rfl, -⟩, -⟩ := h
  obtain ⟨⟨block', hblock', rfl, -⟩, -⟩ := h'
  rw [Option.some.inj (hblock.symm.trans hblock')]

section Covered

variable {planRow : List AnchorCell} {count : ℕ} {cells : List RejectedCell}

/-- The plan has a block for every item that is taken. -/
def Covers (s : Sample) (draftBlockSize : ℕ) (maxTokensPerSample : Option ℕ)
    (planRow : List AnchorCell) (count : ℕ) (cells : List RejectedCell) : Prop :=
  ∀ j cell, cells[j]? = some cell → s.Selectable draftBlockSize cell →
    s.Room draftBlockSize maxTokensPerSample count cells j →
    ∃ k, FirstKept planRow (s.fullAnchor cell.anchor) k

theorem Covers.of_selected {cell : RejectedCell}
    (h : s.Covers draftBlockSize maxTokensPerSample planRow count (cell :: cells))
    (hsel : s.Selectable draftBlockSize cell) :
    s.Covers draftBlockSize maxTokensPerSample planRow (count + 1) cells :=
  fun j c hj hc hroom => h (j + 1) c hj hc ((room_succ_of_selectable hsel).mpr hroom)

theorem Covers.of_skipped {cell : RejectedCell}
    (h : s.Covers draftBlockSize maxTokensPerSample planRow count (cell :: cells))
    (hskip : ¬(s.Selectable draftBlockSize cell ∧
      s.Room draftBlockSize maxTokensPerSample count (cell :: cells) 0)) :
    s.Covers draftBlockSize maxTokensPerSample planRow count cells :=
  fun j c hj hc hroom => h (j + 1) c hj hc ((room_succ_of_skipped hskip).mpr hroom)

theorem covers_of_blocks (h : ∀ j cell, cells[j]? = some cell →
      s.Selects draftBlockSize maxTokensPerSample cells j cell →
      ∃ block ∈ planRow, block.keep = true ∧ block.anchorPosition = s.fullAnchor cell.anchor) :
    s.Covers draftBlockSize maxTokensPerSample planRow 0 cells := by
  intro j cell hj hsel hroom
  obtain ⟨block, hblock, hkeep, hanchor⟩ := h j cell hj ⟨hsel, hroom⟩
  rw [← hanchor]
  exact exists_firstKept hblock hkeep

end Covered

/-! ## The loop of the collector -/

variable {lmLogProb : ℤ → ℤ → LogProb} {planRow : List AnchorCell}

theorem collectBlock_of_selectable {cell : RejectedCell} {k : ℕ}
    (h : s.Selectable draftBlockSize cell)
    (hk : FirstKept planRow (s.fullAnchor cell.anchor) k) :
    s.collectBlock draftBlockSize planRow cell = some k := by
  obtain ⟨-, ⟨h₁, h₂⟩, h₃, h₄, h₅⟩ := h
  unfold collectBlock
  rw [if_neg (by omega), if_neg (by omega)]
  exact findIdx?_kept_iff.mpr hk

theorem collectBlock_of_not_selectable {cell : RejectedCell} (hmask : cell.mask = true)
    (h : ¬s.Selectable draftBlockSize cell) :
    s.collectBlock draftBlockSize planRow cell = none := by
  simp only [collectBlock]
  split_ifs with h₁ h₂
  · rfl
  · rfl
  · exact absurd ⟨hmask, by omega, by omega, by omega⟩ h

/-- The loop takes an item that is selectable as long as there is room. -/
theorem collectRow_cons_of_selected {count k : ℕ} {cell : RejectedCell}
    {rest : List RejectedCell} (h : s.Selectable draftBlockSize cell)
    (hroom : s.Room draftBlockSize maxTokensPerSample count (cell :: rest) 0)
    (hk : FirstKept planRow (s.fullAnchor cell.anchor) k) :
    s.collectRow draftBlockSize maxTokensPerSample lmLogProb planRow count (cell :: rest) =
      ⟨lmLogProb (k * draftBlockSize + cell.offset) cell.tokenId, cell.teacherLogprob, true⟩ ::
        s.collectRow draftBlockSize maxTokensPerSample lmLogProb planRow (count + 1) rest := by
  rw [collectRow, if_neg (not_or.mpr ⟨by simp [h.1], room_zero.mp hroom⟩),
    collectBlock_of_selectable h hk]

theorem collectRow_cons_of_skipped {count : ℕ} {cell : RejectedCell} {rest : List RejectedCell}
    (h : ¬(s.Selectable draftBlockSize cell ∧
      s.Room draftBlockSize maxTokensPerSample count (cell :: rest) 0)) :
    s.collectRow draftBlockSize maxTokensPerSample lmLogProb planRow count (cell :: rest) =
      .zero :: s.collectRow draftBlockSize maxTokensPerSample lmLogProb planRow count rest := by
  rw [collectRow]
  split_ifs with hskip
  · rfl
  · obtain ⟨hmask, hroom⟩ := not_or.mp hskip
    have hsel : ¬s.Selectable draftBlockSize cell := fun hsel => h ⟨hsel, room_zero.mpr hroom⟩
    rw [collectBlock_of_not_selectable (by simpa using hmask) hsel]

/-- Where the plan has a block for every item that is taken, the loop takes the first
selectable items, up to the limit. -/
theorem collectRow_spec : ∀ {count : ℕ} {cells : List RejectedCell},
    s.Covers draftBlockSize maxTokensPerSample planRow count cells →
    ∀ j cell, cells[j]? = some cell →
      (s.Selectable draftBlockSize cell ∧
        s.Room draftBlockSize maxTokensPerSample count cells j →
        ∃ k, FirstKept planRow (s.fullAnchor cell.anchor) k ∧
          (s.collectRow draftBlockSize maxTokensPerSample lmLogProb planRow count cells)[j]? =
            some ⟨lmLogProb (k * draftBlockSize + cell.offset) cell.tokenId, cell.teacherLogprob,
              true⟩) ∧
      (¬(s.Selectable draftBlockSize cell ∧
          s.Room draftBlockSize maxTokensPerSample count cells j) →
        (s.collectRow draftBlockSize maxTokensPerSample lmLogProb planRow count cells)[j]? =
          some .zero)
  | _, [], _, j, cell, hj => by simp at hj
  | count, first :: rest, hcover, j, cell, hj => by
    by_cases hfirst : s.Selectable draftBlockSize first ∧
        s.Room draftBlockSize maxTokensPerSample count (first :: rest) 0
    · obtain ⟨k, hk⟩ := hcover 0 first rfl hfirst.1 hfirst.2
      rw [collectRow_cons_of_selected hfirst.1 hfirst.2 hk]
      cases j with
      | zero =>
        obtain rfl : first = cell := by simpa using hj
        exact ⟨fun _ => ⟨k, hk, rfl⟩, fun h => absurd hfirst h⟩
      | succ j =>
        rw [List.getElem?_cons_succ, room_succ_of_selectable hfirst.1]
        exact collectRow_spec (hcover.of_selected hfirst.1) j cell hj
    · rw [collectRow_cons_of_skipped hfirst]
      cases j with
      | zero =>
        obtain rfl : first = cell := by simpa using hj
        exact ⟨fun h => absurd h hfirst, fun _ => rfl⟩
      | succ j =>
        rw [List.getElem?_cons_succ, room_succ_of_skipped hfirst]
        exact collectRow_spec (hcover.of_skipped hfirst) j cell hj

/-! ## The blocks of the two plans -/

variable {seqLen : ℕ}

theorem addSelectedAnchor_of_selected (hseq : s.promptLen + s.responseLen ≤ seqLen)
    {found : List ℤ × ℕ} {cell : RejectedCell} {rest : List RejectedCell}
    (h : s.Selectable draftBlockSize cell ∧
      s.Room draftBlockSize maxTokensPerSample found.2 (cell :: rest) 0) :
    s.addSelectedAnchor seqLen draftBlockSize maxTokensPerSample found cell =
      (if s.fullAnchor cell.anchor ∈ found.1 then found.1
        else found.1 ++ [s.fullAnchor cell.anchor], found.2 + 1) := by
  obtain ⟨⟨hmask, ⟨h₁, h₂⟩, h₃, h₄, h₅⟩, hroom⟩ := h
  unfold addSelectedAnchor
  rw [if_neg (by simp [hmask]), if_neg (room_zero.mp hroom), if_neg (by omega), if_neg (by omega)]

theorem addSelectedAnchor_of_skipped {found : List ℤ × ℕ} {cell : RejectedCell}
    {rest : List RejectedCell} (h : ¬(s.Selectable draftBlockSize cell ∧
      s.Room draftBlockSize maxTokensPerSample found.2 (cell :: rest) 0)) :
    s.addSelectedAnchor seqLen draftBlockSize maxTokensPerSample found cell = found := by
  simp only [addSelectedAnchor]
  split_ifs with h₁ h₂ h₃ h₄ h₅
  · rfl
  · rfl
  · rfl
  · rfl
  all_goals exact absurd ⟨⟨by simpa using h₁, by omega, by omega, by omega, by omega⟩,
    room_zero.mpr h₂⟩ h

/-- The loop of the split pass counts the items the collector counts, so it finds the anchor of
every item the collector takes. -/
theorem mem_foldl_addSelectedAnchor (hseq : s.promptLen + s.responseLen ≤ seqLen) :
    ∀ (cells : List RejectedCell) (found : List ℤ × ℕ),
      found.1 ⊆ (cells.foldl (s.addSelectedAnchor seqLen draftBlockSize maxTokensPerSample)
        found).1 ∧
      ∀ j cell, cells[j]? = some cell → s.Selectable draftBlockSize cell →
        s.Room draftBlockSize maxTokensPerSample found.2 cells j →
        s.fullAnchor cell.anchor ∈ (cells.foldl
          (s.addSelectedAnchor seqLen draftBlockSize maxTokensPerSample) found).1
  | [], found => ⟨List.Subset.refl _, fun j cell hj => by simp at hj⟩
  | first :: rest, found => by
    rw [List.foldl_cons]
    by_cases hfirst : s.Selectable draftBlockSize first ∧
        s.Room draftBlockSize maxTokensPerSample found.2 (first :: rest) 0
    · rw [addSelectedAnchor_of_selected hseq hfirst]
      obtain ⟨hsub, hrest⟩ := mem_foldl_addSelectedAnchor hseq rest
        (if s.fullAnchor first.anchor ∈ found.1 then found.1
          else found.1 ++ [s.fullAnchor first.anchor], found.2 + 1)
      have hadd : found.1 ⊆ (if s.fullAnchor first.anchor ∈ found.1 then found.1
          else found.1 ++ [s.fullAnchor first.anchor]) ∧ s.fullAnchor first.anchor ∈
            (if s.fullAnchor first.anchor ∈ found.1 then found.1
              else found.1 ++ [s.fullAnchor first.anchor]) := by
        split_ifs with hmem
        · exact ⟨List.Subset.refl _, hmem⟩
        · exact ⟨List.subset_append_left _ _, by simp⟩
      refine ⟨List.Subset.trans hadd.1 hsub, fun j cell hj hsel hroom => ?_⟩
      cases j with
      | zero =>
        obtain rfl : first = cell := by simpa using hj
        exact hsub hadd.2
      | succ j => exact hrest j cell hj hsel ((room_succ_of_selectable hfirst.1).mp hroom)
    · rw [addSelectedAnchor_of_skipped hfirst]
      obtain ⟨hsub, hrest⟩ := mem_foldl_addSelectedAnchor hseq rest found
      refine ⟨hsub, fun j cell hj hsel hroom => ?_⟩
      cases j with
      | zero =>
        obtain rfl : first = cell := by simpa using hj
        exact absurd ⟨hsel, hroom⟩ hfirst
      | succ j => exact hrest j cell hj hsel ((room_succ_of_skipped hfirst).mp hroom)

/-- The blocks of the combined pass have one at every selectable item's anchor. -/
theorem mem_combined_anchors (hseq : s.promptLen + s.responseLen ≤ seqLen)
    {cells : List RejectedCell} {cell : RejectedCell} (hcell : cell ∈ cells)
    (h : s.Selectable draftBlockSize cell) (response : List AnchorBlock) :
    s.fullAnchor cell.anchor ∈
      (cells.foldl (s.addRejectedAnchor seqLen draftBlockSize) response).map
        AnchorBlock.anchor := by
  obtain ⟨added, heq, -, -, hcover⟩ :=
    s.addRejectedAnchors_spec seqLen draftBlockSize cells response
  obtain ⟨h₁, h₂, -, h₄, h₅⟩ := h
  rw [heq]
  exact hcover cell hcell ⟨h₁, h₂, h₄, by omega⟩

end Sample

/-! ## Both passes -/

/-- What a pass leaves at a position of its tensors : the log-probability read at the first
kept block of the item's anchor, or nothing when the item is not selected. -/
structure PassSelects (s : Sample) (draftBlockSize : ℕ) (maxTokensPerSample : Option ℕ)
    (lmLogProb : ℤ → ℤ → LogProb) (planRow : List AnchorCell) (cells : List RejectedCell)
    (j : ℕ) (cell : RejectedCell) (collected : Option CollectedCell) : Prop where
  selected : s.Selects draftBlockSize maxTokensPerSample cells j cell →
    ∃ k : ℕ, Sample.FirstKept planRow (s.fullAnchor cell.anchor) k ∧
      collected = some ⟨lmLogProb (k * draftBlockSize + cell.offset) cell.tokenId,
        cell.teacherLogprob, true⟩
  skipped : ¬s.Selects draftBlockSize maxTokensPerSample cells j cell → collected = some .zero

/-- A pass whose plan has a block for every item that is selected. -/
theorem collectRejectedDraftLogProbs_selects {samples : List Sample} {draftBlockSize : ℕ}
    {maxTokensPerSample : Option ℕ} {planRows : List (List AnchorCell)}
    {rejectedDrafts : List (List RejectedCell)} (lmLogProb : ℕ → ℤ → ℤ → LogProb)
    (hlen : rejectedDrafts.length = samples.length) {i : ℕ} (hi : i < samples.length)
    (hcover : ∀ j cell, (rejectedDrafts.getD i [])[j]? = some cell →
      (samples.getD i default).Selects draftBlockSize maxTokensPerSample
        (rejectedDrafts.getD i []) j cell →
      ∃ block ∈ planRows.getD i [], block.keep = true ∧
        block.anchorPosition = (samples.getD i default).fullAnchor cell.anchor)
    {j : ℕ} {cell : RejectedCell} (hj : (rejectedDrafts.getD i [])[j]? = some cell) :
    PassSelects (samples.getD i default) draftBlockSize maxTokensPerSample (lmLogProb i)
      (planRows.getD i []) (rejectedDrafts.getD i []) j cell
      ((collectRejectedDraftLogProbs samples draftBlockSize maxTokensPerSample lmLogProb planRows
        rejectedDrafts).getD i [])[j]? := by
  have hrow : (collectRejectedDraftLogProbs samples draftBlockSize maxTokensPerSample lmLogProb
      planRows rejectedDrafts).getD i [] =
        (samples.getD i default).collectRow draftBlockSize maxTokensPerSample (lmLogProb i)
          (planRows.getD i []) 0 (rejectedDrafts.getD i []) := by
    rw [collectRejectedDraftLogProbs_eq samples draftBlockSize maxTokensPerSample lmLogProb
      planRows rejectedDrafts hlen, getD_map_range _ hi]
  have hkept := Sample.covers_of_blocks hcover
  rw [hrow]
  exact ⟨(Sample.collectRow_spec hkept j cell hj).1, (Sample.collectRow_spec hkept j cell hj).2⟩

/-- The split pass has a block at the anchor of every item that is selected. -/
theorem exists_split_block {samples : List Sample} {seqLen draftBlockSize : ℕ}
    {maxTokensPerSample : Option ℕ} {rejectedDrafts : List (List RejectedCell)}
    (hlen : rejectedDrafts.length = samples.length)
    (hseq : ∀ s ∈ samples, s.promptLen + s.responseLen ≤ seqLen) {i : ℕ} (hi : i < samples.length)
    {j : ℕ} {cell : RejectedCell} (hj : (rejectedDrafts.getD i [])[j]? = some cell)
    (h : (samples.getD i default).Selects draftBlockSize maxTokensPerSample
      (rejectedDrafts.getD i []) j cell) :
    ∃ block ∈ (buildRejectedDraftAnchorPlan samples seqLen draftBlockSize maxTokensPerSample
        (some rejectedDrafts)).getD i [],
      block.keep = true ∧
        block.anchorPosition = (samples.getD i default).fullAnchor cell.anchor := by
  have hany : (rejectedDrafts.any fun row => row.any RejectedCell.mask) = true :=
    List.any_eq_true.mpr ⟨_, getD_mem (hi.trans_eq hlen.symm) [], List.any_eq_true.mpr
      ⟨cell, List.mem_of_getElem? hj, h.1.1⟩⟩
  have hmem := (Sample.mem_foldl_addSelectedAnchor (hseq _ (getD_mem hi default)) _ ([], 0)).2 j
    cell hj h.1 h.2
  unfold buildRejectedDraftAnchorPlan
  simp only [hany, Bool.not_true, Bool.false_eq_true, if_false, List.map_map]
  rw [getD_map_range _ hi]
  exact ⟨_, List.mem_append_left _ (List.mem_map_of_mem hmem), rfl, rfl⟩

/-- The combined pass has one too, with any stride and any random anchors. -/
theorem exists_combined_block {samples : List Sample} {options : AnchorOptions} {seqLen : ℕ}
    {rng : SeededRandom} {rejectTokenIndices : List (List ℤ)}
    {rejectedDrafts : List (List RejectedCell)} {plan : AnchorPlan}
    (hinc : options.includeRejectedDraftAnchors = true)
    (hseq : ∀ s ∈ samples, s.promptLen + s.responseLen ≤ seqLen)
    (hplan : buildOpdAnchorPlan options rng seqLen samples rejectTokenIndices
      (some rejectedDrafts) = .ok plan) {i : ℕ} (hi : i < samples.length)
    {j : ℕ} {cell : RejectedCell} (hj : (rejectedDrafts.getD i [])[j]? = some cell)
    (h : (samples.getD i default).Selectable options.draftBlockSize cell) :
    ∃ block ∈ plan.rows.getD i [], block.keep = true ∧
      block.anchorPosition = (samples.getD i default).fullAnchor cell.anchor := by
  obtain ⟨plans, hbuild, hplans⟩ := buildOpdAnchorPlan_eq options rng seqLen samples
    rejectTokenIndices (some rejectedDrafts)
  obtain rfl : padAnchorPlan samples ((List.range samples.length).map plans) = plan :=
    Except.ok.inj (hbuild.symm.trans hplan)
  obtain ⟨samplePlan, response, hsample, hblocks, -⟩ := sampleAnchorPlan_ok options rng seqLen i
    (samples.getD i default) (rejectTokenIndices.getD i []) (some (rejectedDrafts.getD i []))
  obtain rfl : samplePlan = plans i := Except.ok.inj (hsample.symm.trans (hplans i))
  have hmem := Sample.mem_combined_anchors (hseq _ (getD_mem hi default))
    (List.mem_of_getElem? hj) h response
  rw [← hblocks _ rfl hinc] at hmem
  obtain ⟨block, hblock, hanchor⟩ := List.mem_map.mp hmem
  simp only [padAnchorPlan, List.map_map]
  rw [getD_map_range _ hi]
  exact ⟨block.cell, List.mem_append_left _ (List.mem_map_of_mem hblock), rfl, hanchor⟩

/-- On the anchors of the combined and of the split pass, the collector selects the same items :
the first `max_tokens_per_sample` selectable ones of every sample, each read at the first kept
block of its anchor. -/
theorem rejected_selection_same_in_both_passes {samples : List Sample} {options : AnchorOptions}
    {seqLen : ℕ} {rejectedDrafts : List (List RejectedCell)} (rng : SeededRandom)
    (rejectTokenIndices : List (List ℤ)) (maxTokensPerSample : Option ℕ)
    (combinedLmLogProb splitLmLogProb : ℕ → ℤ → ℤ → LogProb)
    (hlen : rejectedDrafts.length = samples.length)
    (hinc : options.includeRejectedDraftAnchors = true)
    (hseq : ∀ s ∈ samples, s.promptLen + s.responseLen ≤ seqLen) :
    ∃ plan, buildOpdAnchorPlan options rng seqLen samples rejectTokenIndices
        (some rejectedDrafts) = .ok plan ∧
      ∀ i < samples.length, ∀ j cell, (rejectedDrafts.getD i [])[j]? = some cell →
        PassSelects (samples.getD i default) options.draftBlockSize maxTokensPerSample
          (combinedLmLogProb i) (plan.rows.getD i []) (rejectedDrafts.getD i []) j cell
          ((collectRejectedDraftLogProbs samples options.draftBlockSize maxTokensPerSample
            combinedLmLogProb plan.rows rejectedDrafts).getD i [])[j]? ∧
        PassSelects (samples.getD i default) options.draftBlockSize maxTokensPerSample
          (splitLmLogProb i)
          ((buildRejectedDraftAnchorPlan samples seqLen options.draftBlockSize maxTokensPerSample
            (some rejectedDrafts)).getD i []) (rejectedDrafts.getD i []) j cell
          ((collectRejectedDraftLogProbs samples options.draftBlockSize maxTokensPerSample
            splitLmLogProb (buildRejectedDraftAnchorPlan samples seqLen options.draftBlockSize
              maxTokensPerSample (some rejectedDrafts)) rejectedDrafts).getD i [])[j]? := by
  obtain ⟨plans, hplan, -⟩ := buildOpdAnchorPlan_eq options rng seqLen samples rejectTokenIndices
    (some rejectedDrafts)
  refine ⟨_, hplan, fun i hi j cell hj => ⟨?_, ?_⟩⟩
  · exact collectRejectedDraftLogProbs_selects combinedLmLogProb hlen hi
      (fun j cell hj hsel => exists_combined_block hinc hseq hplan hi hj hsel.1) hj
  · exact collectRejectedDraftLogProbs_selects splitLmLogProb hlen hi
      (fun j cell hj hsel => exists_split_block hlen hseq hi hj hsel) hj

/-- Four items of one row : the first has no token, the third is at the end of the prompt. -/
def fourItems : List RejectedCell :=
  [⟨0, 1, -1, ⊥, true⟩, ⟨0, 2, 7, ⊥, true⟩, ⟨-1, 1, 5, ⊥, true⟩, ⟨0, 3, 8, ⊥, true⟩]

/-- At a limit of two, the item without a token does not take the place of one after it, and the
last item is left out. -/
theorem rejected_selection_fourItems : ∃ (plan : AnchorPlan) (k : ℕ),
    buildOpdAnchorPlan ⟨4, 2, false, 42, true⟩ ⟨fun _ xs => xs, fun _ _ _ _ => []⟩ 4
      [twoRejectSample] [[0]] (some [fourItems]) = .ok plan ∧
    Sample.FirstKept (plan.rows.getD 0 []) (twoRejectSample.fullAnchor (-1)) k ∧
    ((collectRejectedDraftLogProbs [twoRejectSample] 4 (some 2) (fun _ i _ => ((i : ℚ) : LogProb))
      plan.rows [fourItems]).getD 0 [])[2]? =
        some ⟨((((k * 4 + 1 : ℕ) : ℤ) : ℚ) : LogProb), ⊥, true⟩ ∧
    ((collectRejectedDraftLogProbs [twoRejectSample] 4 (some 2) (fun _ _ _ => ⊥)
      (buildRejectedDraftAnchorPlan [twoRejectSample] 4 4 (some 2) (some [fourItems]))
      [fourItems]).getD 0 [])[3]? = some .zero := by
  have hinc : (⟨4, 2, false, 42, true⟩ : AnchorOptions).includeRejectedDraftAnchors = true := rfl
  have hlen : [fourItems].length = [twoRejectSample].length := rfl
  have hseq : ∀ s ∈ [twoRejectSample], s.promptLen + s.responseLen ≤ 4 := by
    simp [twoRejectSample]
  obtain ⟨plan, hplan, hselect⟩ := rejected_selection_same_in_both_passes
    ⟨fun _ xs => xs, fun _ _ _ _ => []⟩ [[0]] (some 2) (fun _ i _ => ((i : ℚ) : LogProb))
    (fun _ _ _ => ⊥) hlen hinc hseq
  obtain ⟨k, hk, hread⟩ := (hselect 0 (by decide) 2 _ rfl).1.selected
    ⟨by decide, by rintro m ⟨⟩; decide⟩
  have hlast := (hselect 0 (by decide) 3 _ rfl).2.skipped
    fun h => absurd (h.2 2 rfl) (by decide)
  exact ⟨plan, k, hplan, hk, hread, hlast⟩

end DraftOpd
