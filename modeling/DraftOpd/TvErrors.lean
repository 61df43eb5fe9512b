import DraftOpd.TvStructure
import DraftOpd.RandomAnchors

/-!
# The errors of the position plan

`_build_tv_position_plan` checks the rejected drafts it is given, then its own anchors : that none
is there twice, that a position has a row of the target, that a later reject has a branch, and
that no rejected draft is left without an anchor.

The checks of the first kind fail exactly on the rejected drafts of `Sample.TvMalformed`
(`Sample.checksOk_iff`). On the anchors of `_build_opd_anchor_plan` those of the second kind never
fail (`Sample.ChecksOk.planOk`), so that malformed metadata is all that is ever reported
(`tvPlan_raises_iff`).
-/

namespace DraftOpd

/-! ## Malformed metadata -/

namespace Sample

/-- Some rejected draft is at the offset `o` of the anchor `a`, a position of the sequence. -/
def HasReject (s : Sample) (cells : List RejectedCell) (a o : ℤ) : Prop :=
  ∃ cell ∈ cells, cell.mask = true ∧ s.fullAnchor cell.anchor = a ∧ cell.offset = o

instance (s : Sample) (cells : List RejectedCell) (a o : ℤ) : Decidable (s.HasReject cells a o) :=
  inferInstanceAs (Decidable (∃ cell ∈ cells, _))

/-- What can be wrong with the rejected drafts of a sample. -/
inductive TvMalformed (s : Sample) (draftBlockSize : ℕ) (cells : List RejectedCell) : Prop
  | anchorRange (cell : RejectedCell) (mem : cell ∈ cells) (masked : cell.mask = true)
      (bad : s.fullAnchor cell.anchor < 0 ∨ (s.validSeqLen : ℤ) ≤ s.fullAnchor cell.anchor)
  | offsetRange (cell : RejectedCell) (mem : cell ∈ cells) (masked : cell.mask = true)
      (bad : cell.offset < 1 ∨ (draftBlockSize : ℤ) - 1 < cell.offset)
  | negativeTokenId (cell : RejectedCell) (mem : cell ∈ cells) (masked : cell.mask = true)
      (bad : cell.tokenId < 0)
  | conflictingTokenIds (cell cell' : RejectedCell) (mem : cell ∈ cells) (mem' : cell' ∈ cells)
      (masked : cell.mask = true) (masked' : cell'.mask = true)
      (anchor : s.fullAnchor cell.anchor = s.fullAnchor cell'.anchor)
      (offset : cell.offset = cell'.offset) (bad : cell.tokenId ≠ cell'.tokenId)
  | notContiguous (a o₁ o o₂ : ℤ) (before : s.HasReject cells a o₁) (lt : o₁ < o) (gt : o < o₂)
      (after : s.HasReject cells a o₂) (bad : ¬s.HasReject cells a o)
  | firstRejectContext (a f : ℤ) (first : s.HasReject cells a f)
      (least : ∀ o < f, ¬s.HasReject cells a o) (bad : (s.validSeqLen : ℤ) ≤ a + f - 1)

end Sample

/-- The errors that report malformed metadata. -/
def TvError.OfMetadata : TvError → Prop
  | anchorRange .. | offsetRange .. | negativeTokenId .. | conflictingTokenIds ..
  | notContiguous .. | firstRejectContext .. => True
  | metadata .. | duplicateAnchor .. | targetRowRange .. | branchAssertion | missingAnchors .. =>
    False

namespace Sample

variable {s : Sample} {draftBlockSize batchIdx : ℕ} {cells : List RejectedCell}
  {index : RejectedIndex}

theorem ofMetadata_of_indexCell {cell : RejectedCell} {e : TvError}
    (h : s.indexCell batchIdx draftBlockSize index cell = .error e) : e.OfMetadata := by
  unfold indexCell at h
  simp only at h
  split_ifs at h
  · obtain rfl := Except.error.inj h
    trivial
  · obtain rfl := Except.error.inj h
    trivial
  · obtain rfl := Except.error.inj h
    trivial
  · split at h
    · split_ifs at h
      obtain rfl := Except.error.inj h
      trivial
    · cases h

theorem ofMetadata_of_checkSuffix {entry : ℤ × Dict ℤ ℤ} {e : TvError}
    (h : s.checkSuffix batchIdx entry = .error e) : e.OfMetadata := by
  unfold checkSuffix at h
  simp only at h
  split_ifs at h
  · obtain rfl := Except.error.inj h
    trivial
  · obtain rfl := Except.error.inj h
    trivial

/-- The rejected drafts of a sample pass their checks, which leave an index of them. -/
structure ChecksOk (s : Sample) (draftBlockSize batchIdx : ℕ) (cells : List RejectedCell)
    (index : RejectedIndex) : Prop where
  indexed : cells.foldlM (s.indexCell batchIdx draftBlockSize) .empty = .ok index
  suffix : ∀ entry ∈ index.entries, s.checkSuffix batchIdx entry = .ok ()

theorem Indexed.mem_keys (h : s.Indexed index cells) {a o : ℤ} {byOffset : Dict ℤ ℤ}
    (hget : index.get? a = some byOffset) : o ∈ byOffset.keys ↔ s.HasReject cells a o := by
  have hlookup : lookup index a o = byOffset.get? o := by
    rw [lookup, hget, Option.bind_some]
  rw [Dict.mem_keys_iff, ← hlookup]
  constructor
  · intro hne
    obtain ⟨t, ht⟩ := Option.ne_none_iff_exists'.mp hne
    obtain ⟨cell, hcell, hmask, ha, ho, -⟩ := h.stored a o t ht
    exact ⟨cell, hcell, hmask, ha, ho⟩
  · rintro ⟨cell, hcell, hmask, rfl, rfl⟩
    exact h.found cell hcell hmask

theorem Indexed.exists_get? (h : s.Indexed index cells) {a o : ℤ}
    (hreject : s.HasReject cells a o) : ∃ byOffset, index.get? a = some byOffset := by
  obtain ⟨cell, hcell, hmask, rfl, rfl⟩ := hreject
  have hfound := h.found cell hcell hmask
  cases hget : index.get? (s.fullAnchor cell.anchor) with
  | some byOffset => exact ⟨byOffset, rfl⟩
  | none => exact absurd (by rw [lookup, hget]; rfl) hfound

/-- The offsets of an anchor pass their check when none is missing between two of them and the
first has a row. -/
theorem Indexed.checkSuffix_ok (h : s.Indexed index cells)
    (hwell : ¬s.TvMalformed draftBlockSize cells) {a : ℤ} {byOffset : Dict ℤ ℤ}
    (hget : index.get? a = some byOffset) : s.checkSuffix batchIdx (a, byOffset) = .ok () := by
  have hne : sortedOffsets byOffset ≠ [] := by
    rw [sortedOffsets, Ne, sortedSet_eq_nil]
    exact h.nonempty a byOffset hget
  have hmem : ∀ {o}, o ∈ sortedOffsets byOffset ↔ s.HasReject cells a o := by
    intro o
    rw [sortedOffsets, mem_sortedSet, h.mem_keys hget]
  have hsorted : (sortedOffsets byOffset).Pairwise (· < ·) := pairwise_sortedSet _
  have hfirst := hmem.mp (headD_mem hne 0)
  have hlast := hmem.mp (getLastD_mem hne 0)
  have hle : ∀ o, s.HasReject cells a o → (sortedOffsets byOffset).headD 0 ≤ o ∧
      o ≤ (sortedOffsets byOffset).getLastD 0 := fun o ho =>
    ⟨headD_le_of_pairwise hsorted (hmem.mpr ho) 0, le_getLastD_of_pairwise hsorted (hmem.mpr ho) 0⟩
  have hcontig : sortedOffsets byOffset = intRange ((sortedOffsets byOffset).headD 0)
      ((sortedOffsets byOffset).getLastD 0 + 1) := by
    refine sortedSet_eq (pairwise_intRange _ _) fun o => ?_
    rw [h.mem_keys hget, mem_intRange]
    constructor
    · intro ho
      have := hle o ho
      omega
    · rintro ⟨hge, hlt⟩
      by_contra hbad
      have hne₁ : (sortedOffsets byOffset).headD 0 ≠ o := fun heq => hbad (heq ▸ hfirst)
      have hne₂ : (sortedOffsets byOffset).getLastD 0 ≠ o := fun heq => hbad (heq ▸ hlast)
      exact hwell (.notContiguous a _ o _ hfirst (by omega) (by omega) hlast hbad)
  have hrow : ¬(s.validSeqLen : ℤ) ≤ a + (sortedOffsets byOffset).headD 0 - 1 := fun hbad =>
    hwell (.firstRejectContext a _ hfirst (fun o hlt ho => absurd (hle o ho).1 (by omega)) hbad)
  unfold checkSuffix
  simp only
  rw [if_neg (not_not.mpr hcontig), if_neg hrow]

/-- The checks fail exactly on malformed metadata. -/
theorem checksOk_iff : (∃ index, s.ChecksOk draftBlockSize batchIdx cells index) ↔
    ¬s.TvMalformed draftBlockSize cells := by
  constructor
  · rintro ⟨index, hindex, hsuffix⟩ hbad
    obtain ⟨hindexed, hok⟩ := indexed_of_ok hindex
    cases hbad with
    | anchorRange cell hmem hmask hbad =>
      have h₁ := (hok cell hmem hmask).anchor_nonneg
      have h₂ := (hok cell hmem hmask).anchor_lt
      omega
    | offsetRange cell hmem hmask hbad =>
      have h₁ := (hok cell hmem hmask).offset_pos
      have h₂ := (hok cell hmem hmask).offset_lt
      omega
    | negativeTokenId cell hmem hmask hbad =>
      exact absurd (hok cell hmem hmask).token_nonneg (by omega)
    | conflictingTokenIds cell cell' hmem hmem' hmask hmask' hanchor hoffset hbad =>
      have h₁ := (lookup_of_indexCells_ok hindex).2 cell hmem hmask
      have h₂ := (lookup_of_indexCells_ok hindex).2 cell' hmem' hmask'
      rw [hanchor, hoffset, h₂] at h₁
      exact hbad (Option.some.inj h₁).symm
    | notContiguous a o₁ o o₂ hbefore hlt hgt hafter hbad =>
      obtain ⟨byOffset, hget⟩ := hindexed.exists_get? hbefore
      obtain ⟨first, last, hrange, -⟩ := suffixOk_of_checks hindex hsuffix hget
      have h₁ := hrange.mem_keys.mp ((hindexed.mem_keys hget).mpr hbefore)
      have h₂ := hrange.mem_keys.mp ((hindexed.mem_keys hget).mpr hafter)
      exact hbad ((hindexed.mem_keys hget).mp (hrange.mem_keys.mpr ⟨by omega, by omega⟩))
    | firstRejectContext a f hfirst hleast hbad =>
      obtain ⟨byOffset, hget⟩ := hindexed.exists_get? hfirst
      obtain ⟨first, last, hrange, hrow⟩ := suffixOk_of_checks hindex hsuffix hget
      have h₁ := hrange.mem_keys.mp ((hindexed.mem_keys hget).mpr hfirst)
      have h₂ := (hindexed.mem_keys hget).mp (hrange.mem_keys.mpr ⟨le_rfl, hrange.first_le⟩)
      have h₃ : ¬first < f := fun hlt => hleast first hlt h₂
      omega
  · intro hwell
    have hok : ∀ cell ∈ cells, cell.mask = true → s.CellOk draftBlockSize cell := by
      intro cell hmem hmask
      have h₁ : ¬(s.fullAnchor cell.anchor < 0 ∨ (s.validSeqLen : ℤ) ≤ s.fullAnchor cell.anchor) :=
        fun hbad => hwell (.anchorRange cell hmem hmask hbad)
      have h₂ : ¬(cell.offset < 1 ∨ (draftBlockSize : ℤ) - 1 < cell.offset) :=
        fun hbad => hwell (.offsetRange cell hmem hmask hbad)
      have h₃ : ¬cell.tokenId < 0 := fun hbad => hwell (.negativeTokenId cell hmem hmask hbad)
      exact ⟨by omega, by omega, by omega, by omega, by omega⟩
    have hsame : ∀ c ∈ [] ++ cells, ∀ c' ∈ cells, c.mask = true → c'.mask = true →
        s.fullAnchor c.anchor = s.fullAnchor c'.anchor → c.offset = c'.offset →
        c.tokenId = c'.tokenId := by
      intro c hc c' hc' hm hm' ha ho
      by_contra hbad
      exact hwell (.conflictingTokenIds c c' (by simpa using hc) hc' hm hm' ha ho hbad)
    obtain ⟨index, hindex, hindexed⟩ := indexCells_ok s.indexed_empty hok hsame
    rw [List.nil_append] at hindexed
    exact ⟨index, hindex, fun entry hentry =>
      hindexed.checkSuffix_ok hwell (Dict.mem_entries_iff.mp hentry)⟩

/-! ## The anchors of the plan -/

/-- The blocks of a sample : segments of the response, then the anchors of the rejected drafts. -/
structure PlannedBlocks (s : Sample) (seqLen draftBlockSize : ℕ) (cells : List RejectedCell)
    (blocks : List AnchorBlock) : Prop where
  nodup : (blocks.map AnchorBlock.anchor).Nodup
  row_lt : ∀ block ∈ blocks, 0 < block.segmentLen →
    block.anchor + block.segmentLen - 1 < (s.validSeqLen : ℤ)
  covers : ∀ cell ∈ cells, s.AddsAnchor seqLen draftBlockSize cell →
    s.fullAnchor cell.anchor ∈ blocks.map AnchorBlock.anchor

theorem plannedBlocks_of_apart {seqLen : ℕ} {segments : List (ℤ × ℤ)}
    (h : SegmentsApart s.responseLen segments) (hprompt : 1 ≤ s.promptLen)
    (hvalid : s.validSeqLen = s.promptLen + s.responseLen) (hseq : s.validSeqLen ≤ seqLen) :
    s.PlannedBlocks seqLen draftBlockSize cells
      (cells.foldl (s.addRejectedAnchor seqLen draftBlockSize) (s.place seqLen segments)) := by
  have hplace := h.place_eq rfl hprompt (hvalid ▸ hseq)
  have hanchors : ((s.place seqLen segments).map AnchorBlock.anchor).Nodup := by
    have hmap : (s.place seqLen segments).map AnchorBlock.anchor =
        (segments.map Prod.fst).map fun a => (s.promptLen : ℤ) + a := by
      rw [hplace, List.map_map, List.map_map]
      rfl
    rw [hmap]
    exact h.nodup.map fun a b hab => by simpa using hab
  obtain ⟨added, heq, hnodup, hfrom, hcovers⟩ :=
    s.addRejectedAnchors_spec seqLen draftBlockSize cells (s.place seqLen segments)
  rw [heq]
  refine ⟨hnodup hanchors, fun block hblock hpos => ?_, hcovers⟩
  rcases List.mem_append.mp hblock with hblock | hblock
  · rw [hplace] at hblock
    obtain ⟨x, hx, rfl⟩ := List.mem_map.mp hblock
    have := h.range x hx
    dsimp only
    omega
  · have := (hfrom block hblock).1
    omega

/-- The positions of a block have a row : up to the first reject by the check of the suffix, and
without rejects because the segment ends in the response. -/
theorem ChecksOk.blockOk (h : s.ChecksOk draftBlockSize batchIdx cells index) {block : AnchorBlock}
    (hrow : 0 < block.segmentLen → block.anchor + block.segmentLen - 1 < (s.validSeqLen : ℤ))
    (anchorBlockIdx : ℕ) (firstTokenOnly : Bool) :
    s.BlockOk (tvBlock index draftBlockSize batchIdx anchorBlockIdx firstTokenOnly block.cell) := by
  intro p hp hlater
  obtain ⟨o, ho, rfl⟩ := List.mem_map.mp hp
  change block.anchor + o - 1 < (s.validSeqLen : ℤ)
  change isLaterReject (index.get? block.anchor) o = false at hlater
  change o ∈ selectedOffsets (index.get? block.anchor) block.segmentLen firstTokenOnly at ho
  cases hget : index.get? block.anchor with
  | some byOffset =>
    obtain ⟨first, last, hrange, hfirst⟩ := suffixOk_of_checks h.indexed h.suffix hget
    have hle := hrange.first_le
    rw [hget, hrange.selectedOffsets_eq, mem_intRange] at ho
    have hlast : o ≤ last := by
      split_ifs at ho <;> omega
    rw [hget, Bool.eq_false_iff, Ne, hrange.isLaterReject_iff] at hlater
    omega
  | none =>
    rw [hget, selectedOffsets, mem_intRange] at ho
    have := hrow (by omega)
    omega

/-- On the anchors of the plan, metadata that passes its checks passes all of them. -/
theorem ChecksOk.planOk {seqLen : ℕ} {blocks : List AnchorBlock}
    (h : s.ChecksOk draftBlockSize batchIdx cells index)
    (hblocks : s.PlannedBlocks seqLen draftBlockSize cells blocks)
    (hvalid : s.validSeqLen = s.promptLen + s.responseLen) (hseq : s.validSeqLen ≤ seqLen)
    (width : ℕ) (firstTokenOnly : Bool) :
    s.PlanOk draftBlockSize batchIdx firstTokenOnly
      (padRow width .pad (blocks.map AnchorBlock.cell)) cells index := by
  obtain ⟨hindexed, hok⟩ := indexed_of_ok h.indexed
  refine ⟨h.indexed, h.suffix, ?_, fun x hx => ?_, fun a ha => ?_⟩
  · rw [plannedAnchors_padRow]
    exact hblocks.nodup
  · rw [zipIdx_padRow] at hx
    obtain ⟨block, hblock, heq⟩ := List.mem_map.mp (List.fst_mem_of_mem_zipIdx hx)
    rw [← heq]
    exact h.blockOk (hblocks.row_lt block hblock) x.2 firstTokenOnly
  · obtain ⟨byOffset, hget⟩ := Option.ne_none_iff_exists'.mp (Dict.mem_keys_iff.mp ha)
    obtain ⟨o, ho⟩ := List.exists_mem_of_ne_nil _ (hindexed.nonempty a byOffset hget)
    obtain ⟨cell, hcell, hmask, rfl, rfl⟩ := (hindexed.mem_keys hget).mp ho
    have hcellOk := hok cell hcell hmask
    rw [plannedAnchors_padRow]
    refine hblocks.covers cell hcell ⟨hmask, ⟨hcellOk.offset_pos, hcellOk.offset_lt⟩,
      hcellOk.anchor_nonneg, ?_⟩
    rw [← hvalid, min_eq_left hseq]
    exact hcellOk.anchor_lt

end Sample

/-- With random anchors or without, the segments of a plan lie in the response without overlap. -/
theorem PlannedSegments.apart {options : AnchorOptions} {rng : SeededRandom} {seqLen batchIdx : ℕ}
    {s : Sample} {rawRejects : List ℤ} {segments : List (ℤ × ℤ)} (hrng : rng.Lawful)
    (hblock : 2 ≤ options.draftBlockSize)
    (h : PlannedSegments options rng seqLen batchIdx s rawRejects segments) :
    SegmentsApart s.responseLen segments := by
  unfold PlannedSegments at h
  split_ifs at h
  · obtain ⟨segments', hbuild, -, hapart⟩ := buildRandomResponseAnchorPlan_spec hrng batchIdx
      options.randomResponseAnchorSeed (s.sum_response_segments_le seqLen options.draftBlockSize
        rawRejects options.responseAnchorStride)
    obtain rfl : segments' = segments := Except.ok.inj (hbuild.symm.trans h)
    exact hapart
  · rw [h]
    exact Sample.givenSegments_apart rawRejects hblock

/-! ## The errors -/

section Errors

variable {draftBlockSize : ℕ} {firstTokenOnly : Bool} {samples : List Sample}
  {planRows : List (List AnchorCell)} {rows : List (List RejectedCell)}

/-- An error reports malformed metadata, or the metadata of every sample is well formed. -/
theorem of_buildTvBlocks_error {e : TvError}
    (h : buildTvBlocks draftBlockSize firstTokenOnly samples planRows (some rows) = .error e) :
    e.OfMetadata ∨ ∀ i < samples.length,
      ¬(samples.getD i default).TvMalformed draftBlockSize (rows.getD i []) := by
  unfold buildTvBlocks at h
  simp only [Option.map_some, Option.getD_some] at h
  cases hindices : forRange samples.length fun i => (rows.getD i []).foldlM
      ((samples.getD i default).indexCell i draftBlockSize) Dict.empty with
  | error e' =>
    rw [hindices] at h
    obtain rfl := Except.error.inj h
    obtain ⟨i, -, hi⟩ := exists_of_mapM_error hindices
    obtain ⟨index, cell, -, hcell⟩ := exists_of_foldlM_error hi
    exact Or.inl (Sample.ofMetadata_of_indexCell hcell)
  | ok indices =>
  cases hchecks : forRange samples.length fun i => (indices.getD i .empty).entries.mapM
      ((samples.getD i default).checkSuffix i) with
  | error e' =>
    simp only [hindices, bind, Except.bind, hchecks] at h
    obtain rfl := Except.error.inj h
    obtain ⟨i, -, hi⟩ := exists_of_mapM_error hchecks
    obtain ⟨entry, -, hentry⟩ := exists_of_mapM_error hi
    exact Or.inl (Sample.ofMetadata_of_checkSuffix hentry)
  | ok checks =>
    have hindex := (of_forRange_ok hindices .empty).2
    have hcheck := (of_forRange_ok hchecks []).2
    exact Or.inr fun i hi => Sample.checksOk_iff.mp ⟨indices.getD i .empty, hindex i hi,
      mapM_checks_ok.mp ⟨_, hcheck i hi⟩⟩

/-- Well-formed metadata is planned, on anchors that are planned for it. -/
theorem buildTvBlocks_of_wellFormed {seqLen width : ℕ} {blocks : ℕ → List AnchorBlock}
    (hwell : ∀ i < samples.length,
      ¬(samples.getD i default).TvMalformed draftBlockSize (rows.getD i []))
    (hvalid : ∀ s ∈ samples, s.validSeqLen = s.promptLen + s.responseLen)
    (hseq : ∀ s ∈ samples, s.validSeqLen ≤ seqLen)
    (hrows : ∀ i < samples.length, planRows.getD i [] =
      padRow width .pad ((blocks i).map AnchorBlock.cell))
    (hblocks : ∀ i < samples.length, (samples.getD i default).PlannedBlocks seqLen draftBlockSize
      (rows.getD i []) (blocks i)) :
    ∃ tvBlocks, buildTvBlocks draftBlockSize firstTokenOnly samples planRows (some rows) =
      .ok tvBlocks := by
  have hchecks : ∀ i, ∃ index, i < samples.length →
      (samples.getD i default).ChecksOk draftBlockSize i (rows.getD i []) index := by
    intro i
    by_cases hi : i < samples.length
    · obtain ⟨index, hindex⟩ := Sample.checksOk_iff.mpr (hwell i hi)
      exact ⟨index, fun _ => hindex⟩
    · exact ⟨.empty, fun h => absurd h hi⟩
  choose indices hindices using hchecks
  refine ⟨_, buildTvBlocks_ok indices fun i hi => ?_⟩
  have hmem := getD_mem hi default
  rw [hrows i hi]
  exact (hindices i hi).planOk (hblocks i hi) (hvalid _ hmem) (hseq _ hmem) width firstTokenOnly

end Errors

/-- Every batch whose valid lengths are those of its prompts and responses, with the anchors that
are planned for the same metadata, moved at random or not : the position plan raises exactly when
the rejected drafts of some sample are malformed, and then reports just that. -/
theorem tvPlan_raises_iff (options : AnchorOptions) {rng : SeededRandom} (hrng : rng.Lawful)
    {seqLen : ℕ} {samples : List Sample} (rejectTokenIndices : List (List ℤ))
    (rows : List (List RejectedCell)) (firstTokenOnly : Bool)
    (hblock : 2 ≤ options.draftBlockSize) (hinc : options.includeRejectedDraftAnchors = true)
    (hprompt : ∀ s ∈ samples, 1 ≤ s.promptLen)
    (hvalid : ∀ s ∈ samples, s.validSeqLen = s.promptLen + s.responseLen)
    (hseq : ∀ s ∈ samples, s.validSeqLen ≤ seqLen) :
    ∃ plan, buildOpdAnchorPlan options rng seqLen samples rejectTokenIndices (some rows) =
        .ok plan ∧
      ((∃ e, buildTvPositionPlan options.draftBlockSize firstTokenOnly samples plan.rows
          (some rows) = .error e) ↔
        ∃ i < samples.length, (samples.getD i default).TvMalformed options.draftBlockSize
          (rows.getD i [])) ∧
      ∀ e, buildTvPositionPlan options.draftBlockSize firstTokenOnly samples plan.rows
        (some rows) = .error e → e.OfMetadata := by
  obtain ⟨plans, hbuild, hplans⟩ := buildOpdAnchorPlan_eq options rng seqLen samples
    rejectTokenIndices (some rows)
  refine ⟨_, hbuild, ?_⟩
  have hblocks : ∀ i < samples.length, (samples.getD i default).PlannedBlocks seqLen
      options.draftBlockSize (rows.getD i []) (plans i).blocks := by
    intro i hi
    have hmem := getD_mem hi default
    obtain ⟨plan, segments, hplan, hsegments, heq⟩ := sampleAnchorPlan_planned options rng seqLen
      i (samples.getD i default) (rejectTokenIndices.getD i [])
      ((some rows).map fun rows => rows.getD i [])
    obtain rfl : plan = plans i := Except.ok.inj (hplan.symm.trans (hplans i))
    rw [heq, if_pos hinc]
    exact Sample.plannedBlocks_of_apart (hsegments.apart hrng hblock) (hprompt _ hmem)
      (hvalid _ hmem) (hseq _ hmem)
  have hrows : ∀ i < samples.length,
      (padAnchorPlan samples ((List.range samples.length).map plans)).rows.getD i [] =
        padRow (max (maxLength (((List.range samples.length).map plans).map SamplePlan.blocks)) 1)
          .pad ((plans i).blocks.map AnchorBlock.cell) := by
    intro i hi
    rw [padAnchorPlan, List.map_map, getD_map_range _ hi]
    rfl
  have hok : (∀ i < samples.length, ¬(samples.getD i default).TvMalformed options.draftBlockSize
      (rows.getD i [])) → ∃ tvBlocks, buildTvBlocks options.draftBlockSize firstTokenOnly samples
        (padAnchorPlan samples ((List.range samples.length).map plans)).rows (some rows) =
          .ok tvBlocks := by
    exact fun hwell => buildTvBlocks_of_wellFormed hwell hvalid hseq hrows hblocks
  simp only [buildTvPositionPlan_eq_error]
  refine ⟨⟨?_, ?_⟩, fun e h => ?_⟩
  · rintro ⟨e, h⟩
    by_contra hnone
    obtain ⟨tvBlocks, heq⟩ := hok fun i hi hbad => hnone ⟨i, hi, hbad⟩
    rw [h] at heq
    cases heq
  · rintro ⟨i, hi, hbad⟩
    cases hplan : buildTvBlocks options.draftBlockSize firstTokenOnly samples
        (padAnchorPlan samples ((List.range samples.length).map plans)).rows (some rows) with
    | error e => exact ⟨e, rfl⟩
    | ok tvBlocks =>
      obtain ⟨indices, hplanOk, -⟩ := of_buildTvBlocks_ok hplan
      exact absurd hbad (Sample.checksOk_iff.mp ⟨indices i, (hplanOk i hi).indexed,
        (hplanOk i hi).suffix⟩)
  · refine (of_buildTvBlocks_error h).resolve_right fun hwell => ?_
    obtain ⟨tvBlocks, heq⟩ := hok hwell
    rw [h] at heq
    cases heq

/-- Rejected drafts at the offsets `2` and `4` of one anchor, with none at `3`. -/
def gapSample : Sample := { suffixSample with offsets := [2, 4] }

theorem tvPlan_raises_gapSample : ∃ plan,
    buildOpdAnchorPlan ⟨6, 1, true, 42, true⟩ gapFirst 8 [gapSample] [[1]]
      (some [gapSample.kept false]) = .ok plan ∧
    ∃ e, buildTvPositionPlan 6 false [gapSample] plan.rows (some [gapSample.kept false]) =
      .error e ∧ e.OfMetadata := by
  have hprompt : ∀ s ∈ [gapSample], 1 ≤ s.promptLen := by simp [gapSample, suffixSample]
  have hvalid : ∀ s ∈ [gapSample], s.validSeqLen = s.promptLen + s.responseLen := by
    simp [gapSample, suffixSample]
  have hseq : ∀ s ∈ [gapSample], s.validSeqLen ≤ 8 := by simp [gapSample, suffixSample]
  obtain ⟨plan, hplan, hraises, hkind⟩ := tvPlan_raises_iff ⟨6, 1, true, 42, true⟩ gapFirst_lawful
    [[1]] [gapSample.kept false] false (by decide) rfl hprompt hvalid hseq
  have hbad : gapSample.TvMalformed 6 (gapSample.kept false) :=
    .notContiguous 2 2 3 4 (by decide) (by decide) (by decide) (by decide) (by decide)
  obtain ⟨e, he⟩ := hraises.mpr ⟨0, by decide, hbad⟩
  exact ⟨plan, hplan, e, he, hkind e he⟩

end DraftOpd
