import DraftOpd.RejectedDraft

/-!
# The anchor plan of the draft model

`_build_opd_anchor_plan` decides at which positions the draft model is run. The reject
indices of a response cut it into segments, each anchored at the boundary before it, the
first at a virtual boundary before the response. The anchors of the rejected drafts are
added when they are not in the plan yet.

The plan of a sample without a stride or random anchors is given by `responseBlocks_eq`,
and what the rejected drafts add to it by `mem_addRejectedAnchors`. Random anchors keep
the segments, so there is always room for them (`sampleAnchorPlan_ok`).
-/

namespace DraftOpd

/-- `random.Random(seed)` : the list it shuffles, then its draws below a bound. -/
structure SeededRandom where
  shuffle : ℤ → List ℤ → List ℤ
  /-- The seed, the list shuffled before, the bound and the number of draws. -/
  randrange : ℤ → List ℤ → ℕ → ℕ → List ℕ

/-- The options of `_build_opd_anchor_plan`. -/
structure AnchorOptions where
  draftBlockSize : ℕ
  responseAnchorStride : ℕ := 1
  randomResponseAnchorEnabled : Bool := false
  randomResponseAnchorSeed : ℤ := 42
  includeRejectedDraftAnchors : Bool := true

/-- An anchor of a sample's plan. -/
structure AnchorBlock where
  anchor : ℤ
  segmentLen : ℤ
  rowStart : ℤ

/-- `prompt_len - 1 if anchor_resp < 0 else prompt_len + anchor_resp`. -/
def Sample.fullAnchor (s : Sample) (anchorResp : ℤ) : ℤ :=
  if anchorResp < 0 then (s.promptLen : ℤ) - 1 else s.promptLen + anchorResp

/-- `_normalize_dflash_reject_indices` (`transformer_impl.py:1231-1253`) on values that are
one list a sample. -/
def normalizeDflashRejectIndices (rawIndices : Option (List (List ℤ))) : List (List ℤ) :=
  rawIndices.getD []

/-- The tensor of the reject indices (`transformer_impl.py:1646-1663`). -/
def buildRejectTensor (rawIndices : Option (List (List ℤ))) (batchSize : ℕ) :
    Except DraftBatchError (List (List ℤ)) := do
  let rejectIndices := normalizeDflashRejectIndices rawIndices
  if rejectIndices.length ≠ batchSize then
    throw (.rejectBatchSize rejectIndices.length batchSize)
  return rejectIndices.map (padRow (max (maxLength rejectIndices) 1) (-1))

/-! ## Response anchors -/

/-- The reject indices inside the response, in order. -/
def Sample.rejects (s : Sample) (rawRejects : List ℤ) : List ℤ :=
  sortedSet (rawRejects.filter fun idx => decide (0 ≤ idx ∧ idx < s.responseLen))

/-- `boundaries_resp` (`dflash_student.py:748-774`). -/
def Sample.boundaries (s : Sample) (rawRejects : List ℤ) : List ℤ :=
  let rejects := s.rejects rawRejects
  if rejects = [] then []
  else if rejects.getLastD (-1) < (s.responseLen : ℤ) - 1 then
    rejects ++ [(s.responseLen : ℤ) - 1]
  else rejects

/-- Every `stride`-th pair, and the last. -/
def strideAnchors (stride : ℕ) (anchorBoundaryPairs : List (ℤ × ℤ)) : List (ℤ × ℤ) :=
  if 1 < stride then
    (anchorBoundaryPairs.zipIdx.filter fun x =>
      decide (x.2 % stride = 0 ∨ x.2 = anchorBoundaryPairs.length - 1)).map Prod.fst
  else anchorBoundaryPairs

/-- The segment loop (`dflash_student.py:786-796`). -/
def Sample.segments (s : Sample) (seqLen draftBlockSize : ℕ) (pairs : List (ℤ × ℤ)) :
    List (ℤ × ℤ) :=
  pairs.filterMap fun x =>
    let fullAnchor := s.fullAnchor x.1
    let segmentLen := x.2 - x.1
    if segmentLen ≤ 0 then none
    else if fullAnchor < 0 ∨ (seqLen : ℤ) - 1 ≤ fullAnchor then none
    else some (x.1, min segmentLen ((draftBlockSize : ℤ) - 1))

/-- The anchors of the random segments, one after the gap before it. -/
def randomAnchors : ℤ → List ℤ → List ℕ → List ℤ
  | cursor, segmentLen :: segmentLens, gap :: gaps =>
    (cursor - 1) :: randomAnchors (cursor + segmentLen + gap) segmentLens gaps
  | _, _, _ => []

/-- `_build_random_response_anchor_plan` (`dflash_student.py:674-714`). -/
def buildRandomResponseAnchorPlan (rng : SeededRandom) (s : Sample) (batchIdx : ℕ)
    (segmentLens : List ℤ) (seed : ℤ) : Except DraftBatchError (List (ℤ × ℤ)) :=
  let segmentLens := segmentLens.filter fun segmentLen => decide (0 < segmentLen)
  let tokenCount := segmentLens.sum
  if s.responseLen = 0 ∨ segmentLens = [] then .ok []
  else if s.responseLen < tokenCount then .error (.randomTokenCount tokenCount s.responseLen)
  else
    let validLen := min (s.promptLen + s.responseLen) s.inputIds.length
    let products := (s.inputIds.take validLen).mapIdx fun i id => id * ((i : ℤ) + 1)
    let tokenHash := products.sum.bmod (2 ^ 64)
    let seed := seed + batchIdx * 1000003 + tokenHash
    let shuffled := rng.shuffle seed segmentLens
    let draws := rng.randrange seed segmentLens (shuffled.length + 1)
      (s.responseLen - tokenCount.toNat)
    let gaps := (List.range (shuffled.length + 1)).map fun gap => draws.count gap
    .ok ((randomAnchors (gaps.headD 0) shuffled gaps.tail).zip shuffled)

/-- The placement loop (`dflash_student.py:807-813`). -/
def Sample.place (s : Sample) (seqLen : ℕ) (segments : List (ℤ × ℤ)) : List AnchorBlock :=
  segments.filterMap fun x =>
    let fullAnchor := s.fullAnchor x.1
    if fullAnchor < 0 ∨ (seqLen : ℤ) - 1 ≤ fullAnchor then none
    else some ⟨fullAnchor, x.2, fullAnchor⟩

/-! ## Rejected-draft anchors -/

/-- One item of the rejected-draft loop (`dflash_student.py:827-843`). -/
def Sample.addRejectedAnchor (s : Sample) (seqLen draftBlockSize : ℕ) (blocks : List AnchorBlock)
    (cell : RejectedCell) : List AnchorBlock :=
  let fullAnchor := s.fullAnchor cell.anchor
  if cell.mask = false then blocks
  else if cell.offset ≤ 0 ∨ (draftBlockSize : ℤ) ≤ cell.offset then blocks
  else if fullAnchor < 0 ∨ (min (s.promptLen + s.responseLen) seqLen : ℕ) ≤ fullAnchor then blocks
  else if fullAnchor ∈ blocks.map AnchorBlock.anchor then blocks
  else blocks ++ [⟨fullAnchor, 0, fullAnchor⟩]

/-! ## The plan -/

/-- What the loop over the batch finds for a sample. -/
structure SamplePlan where
  blocks : List AnchorBlock
  rejectCount : ℕ
  responseAnchorCount : ℕ

/-- The body of the loop over the batch (`dflash_student.py:745-849`). -/
def sampleAnchorPlan (options : AnchorOptions) (rng : SeededRandom) (seqLen batchIdx : ℕ)
    (s : Sample) (rawRejects : List ℤ) (rejectedDrafts : Option (List RejectedCell)) :
    Except DraftBatchError SamplePlan := do
  let pairs := strideAnchors options.responseAnchorStride (pairs (-1) (s.boundaries rawRejects))
  let segments := s.segments seqLen options.draftBlockSize pairs
  let segments ← if options.randomResponseAnchorEnabled ∧ 0 < s.responseLen ∧ segments ≠ [] then
      buildRandomResponseAnchorPlan rng s batchIdx (segments.map Prod.snd)
        options.randomResponseAnchorSeed
    else pure segments
  let responseBlocks := s.place seqLen segments
  let blocks := match rejectedDrafts with
    | some cells =>
      if options.includeRejectedDraftAnchors then
        cells.foldl (s.addRejectedAnchor seqLen options.draftBlockSize) responseBlocks
      else responseBlocks
    | none => responseBlocks
  return ⟨blocks, (s.rejects rawRejects).length, responseBlocks.length⟩

/-- A position of the plan's tensors. -/
structure AnchorCell where
  anchorPosition : ℤ
  segmentLen : ℤ
  rowStart : ℤ
  keep : Bool

/-- The fill values of the plan's tensors. -/
def AnchorCell.pad : AnchorCell := ⟨0, 0, 0, false⟩

/-- The cell of an anchor. -/
def AnchorBlock.cell (block : AnchorBlock) : AnchorCell :=
  ⟨block.anchor, block.segmentLen, block.rowStart, true⟩

/-- The plan of a batch, with the counts of `opd_metrics`. -/
structure AnchorPlan where
  rows : List (List AnchorCell)
  validSeqLens : List ℕ
  validAnchorCount : ℕ
  skippedSampleCount : ℕ
  emptyRejectSampleCount : ℕ
  totalRejectCount : ℕ
  sampleCount : ℕ

/-- The tensors and counts after the loop (`dflash_student.py:851-878`). -/
def padAnchorPlan (samples : List Sample) (plans : List SamplePlan) : AnchorPlan :=
  let maxBlocks := max (maxLength (plans.map SamplePlan.blocks)) 1
  let responding := (plans.zip samples).filter fun x => decide (0 < x.2.responseLen)
  { rows := plans.map fun plan => padRow maxBlocks .pad (plan.blocks.map AnchorBlock.cell)
    validSeqLens := samples.map Sample.validSeqLen
    validAnchorCount := (plans.map SamplePlan.responseAnchorCount).sum
    skippedSampleCount := responding.countP fun x => x.1.responseAnchorCount == 0
    emptyRejectSampleCount := responding.countP fun x => x.1.rejectCount == 0
    totalRejectCount := (plans.map SamplePlan.rejectCount).sum
    sampleCount := samples.length }

/-- `_build_opd_anchor_plan` (`dflash_student.py:716-879`). -/
def buildOpdAnchorPlan (options : AnchorOptions) (rng : SeededRandom) (seqLen : ℕ)
    (samples : List Sample) (rejectTokenIndices : List (List ℤ))
    (rejectedDrafts : Option (List (List RejectedCell))) :
    Except DraftBatchError AnchorPlan := do
  let plans ← forRange samples.length fun batchIdx =>
    sampleAnchorPlan options rng seqLen batchIdx (samples.getD batchIdx default)
      (rejectTokenIndices.getD batchIdx []) (rejectedDrafts.map fun rows => rows.getD batchIdx [])
  return padAnchorPlan samples plans

/-! ## The boundaries of a response -/

namespace Sample

variable {s : Sample} {seqLen draftBlockSize : ℕ} {rawRejects : List ℤ}

theorem fullAnchor_eq (s : Sample) {a : ℤ} (h : -1 ≤ a) : s.fullAnchor a = s.promptLen + a := by
  unfold fullAnchor
  split_ifs <;> omega

theorem mem_rejects {idx : ℤ} :
    idx ∈ s.rejects rawRejects ↔ idx ∈ rawRejects ∧ 0 ≤ idx ∧ idx < s.responseLen := by
  simp [rejects]

theorem boundaries_eq (h : s.rejects rawRejects ≠ []) : ∃ tail,
    s.boundaries rawRejects = s.rejects rawRejects ++ tail ∧
      (tail = [] ∧ (s.rejects rawRejects).getLast h = (s.responseLen : ℤ) - 1 ∨
        tail = [(s.responseLen : ℤ) - 1] ∧
          (s.rejects rawRejects).getLast h < (s.responseLen : ℤ) - 1) := by
  have hlast := (mem_rejects.mp (List.getLast_mem h)).2
  have hgetD : (s.rejects rawRejects).getLastD (-1) = (s.rejects rawRejects).getLast h := by
    rw [List.getLastD_eq_getLast?, List.getLast?_eq_some_getLast h, Option.getD_some]
  simp only [boundaries, if_neg h, hgetD]
  split_ifs with hlt
  · exact ⟨_, rfl, Or.inr ⟨rfl, hlt⟩⟩
  · exact ⟨[], (List.append_nil _).symm, Or.inl ⟨rfl, by omega⟩⟩

theorem boundaries_of_rejects_nil (h : s.rejects rawRejects = []) :
    s.boundaries rawRejects = [] := by
  simp [boundaries, h]

theorem boundary_range {b : ℤ} (hb : b ∈ s.boundaries rawRejects) :
    0 ≤ b ∧ b < s.responseLen := by
  by_cases h : s.rejects rawRejects = []
  · rw [boundaries_of_rejects_nil h] at hb
    simp at hb
  · obtain ⟨tail, heq, htail⟩ := boundaries_eq h
    rw [heq, List.mem_append] at hb
    rcases hb with hb | hb
    · exact (mem_rejects.mp hb).2
    · rcases htail with ⟨rfl, -⟩ | ⟨rfl, -⟩
      · simp at hb
      · have hlast := (mem_rejects.mp (List.getLast_mem h)).2
        rw [List.mem_singleton] at hb
        omega

/-- The boundaries increase, from the virtual one before the response. -/
theorem pairwise_boundaries (s : Sample) (rawRejects : List ℤ) :
    (-1 :: s.boundaries rawRejects).Pairwise (· < ·) := by
  refine List.pairwise_cons.mpr ⟨fun b hb => by have := boundary_range hb; omega, ?_⟩
  by_cases h : s.rejects rawRejects = []
  · rw [boundaries_of_rejects_nil h]
    exact .nil
  · obtain ⟨tail, heq, htail⟩ := boundaries_eq h
    have hsorted : (s.rejects rawRejects).Pairwise (· < ·) := pairwise_sortedSet _
    rw [heq]
    rcases htail with ⟨rfl, -⟩ | ⟨rfl, hlt⟩
    · rwa [List.append_nil]
    · refine List.pairwise_append.mpr ⟨hsorted, List.pairwise_singleton _ _, fun a ha b hb => ?_⟩
      rw [List.mem_singleton.mp hb]
      have hle := le_getLastD_of_pairwise hsorted ha (-1)
      rw [List.getLastD_eq_getLast?, List.getLast?_eq_some_getLast h, Option.getD_some] at hle
      omega

/-- A segment starts at a boundary before its end. -/
theorem pair_range {p : ℤ × ℤ} (hp : p ∈ pairs (-1) (s.boundaries rawRejects)) :
    -1 ≤ p.1 ∧ p.1 < p.2 ∧ p.2 < s.responseLen := by
  have hlt := lt_of_mem_pairs (s.pairwise_boundaries rawRejects) hp
  have hfst : p.1 ∈ (-1 :: s.boundaries rawRejects).dropLast := by
    rw [← map_fst_pairs]
    exact List.mem_map_of_mem hp
  have hsnd : p.2 ∈ s.boundaries rawRejects := by
    have hmem := List.mem_map_of_mem (f := Prod.snd) hp
    rwa [map_snd_pairs] at hmem
  refine ⟨?_, hlt, (boundary_range hsnd).2⟩
  rcases List.mem_cons.mp (List.dropLast_subset _ hfst) with h | h
  · omega
  · have := boundary_range h
    omega

/-- The blocks of the response when no anchor is left out. -/
def responseBlocks (s : Sample) (draftBlockSize : ℕ) (rawRejects : List ℤ) : List AnchorBlock :=
  (pairs (-1) (s.boundaries rawRejects)).map fun p =>
    ⟨s.promptLen + p.1, min (p.2 - p.1) ((draftBlockSize : ℤ) - 1), s.promptLen + p.1⟩

theorem responseBlocks_eq (hprompt : 1 ≤ s.promptLen)
    (hseq : s.promptLen + s.responseLen ≤ seqLen) :
    s.place seqLen (s.segments seqLen draftBlockSize (pairs (-1) (s.boundaries rawRejects))) =
      s.responseBlocks draftBlockSize rawRejects := by
  have hrange : ∀ p ∈ pairs (-1) (s.boundaries rawRejects), s.fullAnchor p.1 = s.promptLen + p.1 ∧
      ¬(p.2 - p.1 ≤ 0) ∧ ¬(s.fullAnchor p.1 < 0 ∨ (seqLen : ℤ) - 1 ≤ s.fullAnchor p.1) := by
    intro p hp
    obtain ⟨h₁, h₂, h₃⟩ := pair_range hp
    have hfull := s.fullAnchor_eq h₁
    exact ⟨hfull, by omega, by omega⟩
  have hsegments : s.segments seqLen draftBlockSize (pairs (-1) (s.boundaries rawRejects)) =
      (pairs (-1) (s.boundaries rawRejects)).map fun p =>
        (p.1, min (p.2 - p.1) ((draftBlockSize : ℤ) - 1)) := by
    rw [segments, ← List.filterMap_eq_map]
    refine List.filterMap_congr fun p hp => ?_
    obtain ⟨-, h₂, h₃⟩ := hrange p hp
    simp only [if_neg h₂, if_neg h₃]
    rfl
  rw [hsegments, place, List.filterMap_map, responseBlocks, ← List.filterMap_eq_map]
  refine List.filterMap_congr fun p hp => ?_
  obtain ⟨h₁, -, h₃⟩ := hrange p hp
  rw [h₁] at h₃
  simp only [Function.comp_apply, h₁, if_neg h₃]

theorem nodup_responseBlocks (s : Sample) (draftBlockSize : ℕ) (rawRejects : List ℤ) :
    ((s.responseBlocks draftBlockSize rawRejects).map AnchorBlock.anchor).Nodup := by
  have hfst : (s.responseBlocks draftBlockSize rawRejects).map AnchorBlock.anchor =
      ((pairs (-1) (s.boundaries rawRejects)).map Prod.fst).map
        fun a : ℤ => (s.promptLen : ℤ) + a := by
    rw [responseBlocks, List.map_map, List.map_map]
    rfl
  rw [hfst, map_fst_pairs]
  have hlt := (s.pairwise_boundaries rawRejects).sublist (List.dropLast_sublist _)
  exact List.Nodup.map (fun a b hab => by simpa using hab) (hlt.imp fun h => ne_of_lt h)

/-! ## The anchors of the rejected drafts -/

/-- The cells whose anchor the plan adds. -/
def AddsAnchor (s : Sample) (seqLen draftBlockSize : ℕ) (cell : RejectedCell) : Prop :=
  cell.mask = true ∧ (0 < cell.offset ∧ cell.offset < draftBlockSize) ∧
    0 ≤ s.fullAnchor cell.anchor ∧
    s.fullAnchor cell.anchor < (min (s.promptLen + s.responseLen) seqLen : ℕ)

theorem addRejectedAnchor_cases (s : Sample) (seqLen draftBlockSize : ℕ)
    (blocks : List AnchorBlock) (cell : RejectedCell) :
    (¬s.AddsAnchor seqLen draftBlockSize cell ∨
        s.fullAnchor cell.anchor ∈ blocks.map AnchorBlock.anchor) ∧
      s.addRejectedAnchor seqLen draftBlockSize blocks cell = blocks ∨
    (s.AddsAnchor seqLen draftBlockSize cell ∧
        s.fullAnchor cell.anchor ∉ blocks.map AnchorBlock.anchor) ∧
      s.addRejectedAnchor seqLen draftBlockSize blocks cell =
        blocks ++ [⟨s.fullAnchor cell.anchor, 0, s.fullAnchor cell.anchor⟩] := by
  by_cases hadds : s.AddsAnchor seqLen draftBlockSize cell
  · have heq : s.addRejectedAnchor seqLen draftBlockSize blocks cell =
        if s.fullAnchor cell.anchor ∈ blocks.map AnchorBlock.anchor then blocks
        else blocks ++ [⟨s.fullAnchor cell.anchor, 0, s.fullAnchor cell.anchor⟩] := by
      obtain ⟨hmask, hoffset, hanchor⟩ := hadds
      unfold addRejectedAnchor
      rw [if_neg (by simp [hmask]), if_neg (by omega), if_neg (by omega)]
    rw [heq]
    split_ifs with hmem
    · exact Or.inl ⟨Or.inr hmem, rfl⟩
    · exact Or.inr ⟨⟨hadds, hmem⟩, rfl⟩
  · refine Or.inl ⟨Or.inl hadds, ?_⟩
    simp only [addRejectedAnchor]
    split_ifs with h₁ h₂ h₃ h₄
    · rfl
    · rfl
    · rfl
    · rfl
    · exact absurd ⟨by simpa using h₁, by omega, by omega⟩ hadds

/-- The rejected drafts add one block, without a segment, for each new anchor. -/
theorem addRejectedAnchors_spec (s : Sample) (seqLen draftBlockSize : ℕ) :
    ∀ (cells : List RejectedCell) (blocks : List AnchorBlock), ∃ added,
      cells.foldl (s.addRejectedAnchor seqLen draftBlockSize) blocks = blocks ++ added ∧
      ((blocks.map AnchorBlock.anchor).Nodup →
        ((blocks ++ added).map AnchorBlock.anchor).Nodup) ∧
      (∀ block ∈ added, block.segmentLen = 0 ∧ ∃ cell ∈ cells,
        s.AddsAnchor seqLen draftBlockSize cell ∧ s.fullAnchor cell.anchor = block.anchor) ∧
      ∀ cell ∈ cells, s.AddsAnchor seqLen draftBlockSize cell →
        s.fullAnchor cell.anchor ∈ (blocks ++ added).map AnchorBlock.anchor
  | [], blocks => ⟨[], by simp, by simp, by simp, by simp⟩
  | cell :: cells, blocks => by
    rw [List.foldl_cons]
    rcases s.addRejectedAnchor_cases seqLen draftBlockSize blocks cell with
      ⟨hskip, heq⟩ | ⟨⟨hadds, hnew⟩, heq⟩
    · obtain ⟨added, hfold, hnd, hfrom, hcover⟩ :=
        addRejectedAnchors_spec s seqLen draftBlockSize cells blocks
      refine ⟨added, by rw [heq, hfold], hnd, fun block hblock => ?_, fun c hc hadds => ?_⟩
      · obtain ⟨hlen, c, hc, hrest⟩ := hfrom block hblock
        exact ⟨hlen, c, List.mem_cons_of_mem _ hc, hrest⟩
      · rcases List.mem_cons.mp hc with rfl | hc
        · rw [List.map_append]
          exact List.mem_append_left _ (hskip.resolve_left fun h => h hadds)
        · exact hcover c hc hadds
    · obtain ⟨added, hfold, hnd, hfrom, hcover⟩ :=
        addRejectedAnchors_spec s seqLen draftBlockSize cells
          (blocks ++ [⟨s.fullAnchor cell.anchor, 0, s.fullAnchor cell.anchor⟩])
      rw [List.append_assoc] at hfold hnd hcover
      refine ⟨_, by rw [heq, hfold], fun h => hnd ?_, fun block hblock => ?_,
        fun c hc hadds' => ?_⟩
      · rw [List.map_append, List.map_singleton]
        exact List.nodup_append.mpr ⟨h, List.nodup_singleton _, by
          rintro a ha b hb rfl
          rw [List.mem_singleton.mp hb] at ha
          exact hnew ha⟩
      · rcases List.mem_append.mp hblock with hblock | hblock
        · rw [List.mem_singleton.mp hblock]
          exact ⟨rfl, cell, List.mem_cons_self, hadds, rfl⟩
        · obtain ⟨hlen, c, hc, hrest⟩ := hfrom block hblock
          exact ⟨hlen, c, List.mem_cons_of_mem _ hc, hrest⟩
      · rcases List.mem_cons.mp hc with rfl | hc
        · simp
        · exact hcover c hc hadds'

/-! ## Room for random anchors -/

theorem segments_cons (s : Sample) (seqLen draftBlockSize : ℕ) (p : ℤ × ℤ) (ps : List (ℤ × ℤ)) :
    s.segments seqLen draftBlockSize (p :: ps) = s.segments seqLen draftBlockSize ps ∨
      ∃ n ≤ p.2 - p.1, s.segments seqLen draftBlockSize (p :: ps) =
        (p.1, n) :: s.segments seqLen draftBlockSize ps := by
  simp only [segments, List.filterMap_cons]
  split_ifs with h₁ h₂
  · exact Or.inl rfl
  · exact Or.inl rfl
  · exact Or.inr ⟨_, min_le_left _ _, rfl⟩

theorem sum_segments_le : ∀ {ps : List (ℤ × ℤ)}, (∀ p ∈ ps, p.1 < p.2) →
    (((s.segments seqLen draftBlockSize ps).map Prod.snd).filter fun n => decide (0 < n)).sum ≤
      (ps.map fun p => p.2 - p.1).sum
  | [], _ => le_rfl
  | p :: ps, h => by
    have hp := h p List.mem_cons_self
    have ih := sum_segments_le fun q hq => h q (List.mem_cons_of_mem _ hq)
    rw [List.map_cons, List.sum_cons]
    rcases s.segments_cons seqLen draftBlockSize p ps with heq | ⟨n, hn, heq⟩
    · rw [heq]
      omega
    · rw [heq, List.map_cons]
      by_cases hpos : 0 < n
      · rw [List.filter_cons_of_pos (by simpa using hpos), List.sum_cons]
        omega
      · rw [List.filter_cons_of_neg (by simpa using hpos)]
        omega

theorem strideAnchors_sublist (stride : ℕ) (ps : List (ℤ × ℤ)) :
    (strideAnchors stride ps).Sublist ps := by
  unfold strideAnchors
  split_ifs
  · have hsub := (List.filter_sublist (l := ps.zipIdx) (p := fun x =>
      decide (x.2 % stride = 0 ∨ x.2 = ps.length - 1))).map Prod.fst
    rwa [List.zipIdx_map_fst] at hsub
  · exact List.Sublist.refl _

/-- The segments fit into the response, with any stride. -/
theorem sum_response_segments_le (s : Sample) (seqLen draftBlockSize : ℕ) (rawRejects : List ℤ)
    (stride : ℕ) :
    (((s.segments seqLen draftBlockSize (strideAnchors stride
      (pairs (-1) (s.boundaries rawRejects)))).map Prod.snd).filter fun n => decide (0 < n)).sum ≤
        s.responseLen := by
  have hsub := strideAnchors_sublist stride (pairs (-1) (s.boundaries rawRejects))
  calc _ ≤ ((strideAnchors stride (pairs (-1) (s.boundaries rawRejects))).map
        fun p => p.2 - p.1).sum := sum_segments_le fun p hp => (pair_range (hsub.subset hp)).2.1
    _ ≤ ((pairs (-1) (s.boundaries rawRejects)).map fun p => p.2 - p.1).sum := by
      refine (hsub.map _).sum_le_sum fun x hx => ?_
      obtain ⟨p, hp, rfl⟩ := List.mem_map.mp hx
      have := (pair_range hp).2.1
      omega
    _ ≤ s.responseLen := by
      rw [sum_gaps]
      by_cases hnil : s.boundaries rawRejects = []
      · simp [hnil]
      · have hlast := (boundary_range (List.getLast_mem hnil)).2
        rw [List.getLastD_eq_getLast?, List.getLast?_eq_some_getLast hnil, Option.getD_some]
        omega

/-- The segments of a response, before they are moved. -/
def givenSegments (s : Sample) (options : AnchorOptions) (seqLen : ℕ) (rawRejects : List ℤ) :
    List (ℤ × ℤ) :=
  s.segments seqLen options.draftBlockSize
    (strideAnchors options.responseAnchorStride (pairs (-1) (s.boundaries rawRejects)))

end Sample

theorem buildRandomResponseAnchorPlan_ok (rng : SeededRandom) {s : Sample} (batchIdx : ℕ)
    {segmentLens : List ℤ} (seed : ℤ)
    (h : (segmentLens.filter fun n => decide (0 < n)).sum ≤ s.responseLen) :
    ∃ segments, buildRandomResponseAnchorPlan rng s batchIdx segmentLens seed = .ok segments := by
  unfold buildRandomResponseAnchorPlan
  simp only
  split_ifs with h₁ h₂
  · exact ⟨_, rfl⟩
  · omega
  · exact ⟨_, rfl⟩

section SamplePlan

variable (options : AnchorOptions) (rng : SeededRandom) (seqLen batchIdx : ℕ) (s : Sample)
  (rawRejects : List ℤ) (rejectedDrafts : Option (List RejectedCell))

/-- The segments of a sample's plan : the given ones, or these moved. -/
def PlannedSegments (segments : List (ℤ × ℤ)) : Prop :=
  if options.randomResponseAnchorEnabled = true ∧ 0 < s.responseLen ∧
      s.givenSegments options seqLen rawRejects ≠ [] then
    buildRandomResponseAnchorPlan rng s batchIdx
      ((s.givenSegments options seqLen rawRejects).map Prod.snd)
      options.randomResponseAnchorSeed = .ok segments
  else segments = s.givenSegments options seqLen rawRejects

/-- The plan of a sample is made of its segments and the anchors of the rejected drafts. -/
theorem sampleAnchorPlan_planned : ∃ plan segments,
    sampleAnchorPlan options rng seqLen batchIdx s rawRejects rejectedDrafts = .ok plan ∧
      PlannedSegments options rng seqLen batchIdx s rawRejects segments ∧
      plan.blocks = (if options.includeRejectedDraftAnchors then rejectedDrafts.getD [] else
        []).foldl (s.addRejectedAnchor seqLen options.draftBlockSize)
          (s.place seqLen segments) := by
  have hfit := s.sum_response_segments_le seqLen options.draftBlockSize rawRejects
    options.responseAnchorStride
  have hblocks : ∀ segments : List (ℤ × ℤ), (match rejectedDrafts with
      | some cells =>
        if options.includeRejectedDraftAnchors then
          cells.foldl (s.addRejectedAnchor seqLen options.draftBlockSize) (s.place seqLen segments)
        else s.place seqLen segments
      | none => s.place seqLen segments) =
        (if options.includeRejectedDraftAnchors then rejectedDrafts.getD [] else []).foldl
          (s.addRejectedAnchor seqLen options.draftBlockSize) (s.place seqLen segments) := by
    intro segments
    cases rejectedDrafts with
    | none => simp
    | some cells =>
      by_cases hinc : options.includeRejectedDraftAnchors = true
      · simp [hinc]
      · simp [hinc]
  unfold sampleAnchorPlan PlannedSegments Sample.givenSegments
  by_cases hrandom : options.randomResponseAnchorEnabled = true ∧ 0 < s.responseLen ∧
      s.segments seqLen options.draftBlockSize (strideAnchors options.responseAnchorStride
        (pairs (-1) (s.boundaries rawRejects))) ≠ []
  · obtain ⟨segments, hsegments⟩ := buildRandomResponseAnchorPlan_ok rng batchIdx
      options.randomResponseAnchorSeed hfit
    simp only [if_pos hrandom, hsegments]
    exact ⟨_, segments, rfl, rfl, hblocks segments⟩
  · simp only [if_neg hrandom]
    exact ⟨_, _, rfl, rfl, hblocks _⟩

variable {options rng seqLen batchIdx s rawRejects} in
/-- Without a stride or random anchors, the blocks are those of the response. -/
theorem PlannedSegments.place_eq {segments : List (ℤ × ℤ)}
    (h : PlannedSegments options rng seqLen batchIdx s rawRejects segments)
    (hstride : options.responseAnchorStride ≤ 1)
    (hrandom : options.randomResponseAnchorEnabled = false) (hprompt : 1 ≤ s.promptLen)
    (hseq : s.promptLen + s.responseLen ≤ seqLen) :
    s.place seqLen segments = s.responseBlocks options.draftBlockSize rawRejects := by
  rw [PlannedSegments, if_neg (by simp [hrandom])] at h
  rw [h, Sample.givenSegments, strideAnchors, if_neg (by omega)]
  exact Sample.responseBlocks_eq hprompt hseq

/-- The plan of a sample never fails : its blocks are some blocks of the response, then
those the rejected drafts add. -/
theorem sampleAnchorPlan_ok : ∃ plan blocks,
    sampleAnchorPlan options rng seqLen batchIdx s rawRejects rejectedDrafts = .ok plan ∧
      (∀ cells ∈ rejectedDrafts, options.includeRejectedDraftAnchors = true →
        plan.blocks = cells.foldl (s.addRejectedAnchor seqLen options.draftBlockSize) blocks) ∧
      (options.responseAnchorStride ≤ 1 → options.randomResponseAnchorEnabled = false →
        1 ≤ s.promptLen → s.promptLen + s.responseLen ≤ seqLen →
        blocks = s.responseBlocks options.draftBlockSize rawRejects) := by
  obtain ⟨plan, segments, hplan, hsegments, hblocks⟩ := sampleAnchorPlan_planned options rng
    seqLen batchIdx s rawRejects rejectedDrafts
  refine ⟨plan, s.place seqLen segments, hplan, fun cells hcells hinc => ?_, hsegments.place_eq⟩
  rw [hblocks, if_pos hinc, Option.mem_def.mp hcells, Option.getD_some]

end SamplePlan

/-! ## The plan of a batch -/

theorem padRow_rejects (s : Sample) (width : ℕ) (rawRejects : List ℤ) :
    s.rejects (padRow width (-1) rawRejects) = s.rejects rawRejects := by
  unfold Sample.rejects padRow
  rw [List.filter_append, List.filter_replicate_of_neg (by simp), List.append_nil]

theorem padRow_responseBlocks (s : Sample) (draftBlockSize width : ℕ) (rawRejects : List ℤ) :
    s.responseBlocks draftBlockSize (padRow width (-1) rawRejects) =
      s.responseBlocks draftBlockSize rawRejects := by
  simp only [Sample.responseBlocks, Sample.boundaries, padRow_rejects]

theorem buildRejectTensor_eq (samples : List Sample) : ∃ width,
    buildRejectTensor (some (samples.map Sample.rejectTokenIndices)) samples.length =
      .ok (samples.map fun s => padRow width (-1) s.rejectTokenIndices) := by
  refine ⟨max (maxLength (samples.map Sample.rejectTokenIndices)) 1, ?_⟩
  unfold buildRejectTensor normalizeDflashRejectIndices
  rw [if_neg (by simp)]
  simp only [Option.getD_some, List.map_map]
  rfl

/-- The blocks of a sample of the batch. -/
structure SampleBlocks (options : AnchorOptions) (seqLen : ℕ) (s : Sample)
    (cells : List RejectedCell) (blocks : List AnchorBlock) : Prop where
  from_response : ∃ response,
    blocks = cells.foldl (s.addRejectedAnchor seqLen options.draftBlockSize) response ∧
    (options.responseAnchorStride ≤ 1 → options.randomResponseAnchorEnabled = false →
      1 ≤ s.promptLen → s.promptLen + s.responseLen ≤ seqLen →
      response = s.responseBlocks options.draftBlockSize s.rejectTokenIndices)

theorem getD_map_of_lt {α β : Type*} (f : α → β) {xs : List α} {i : ℕ} (hi : i < xs.length)
    (a : α) (b : β) : (xs.map f).getD i b = f (xs.getD i a) := by
  rw [List.getD_eq_getElem _ _ (by simpa using hi), List.getElem_map, List.getD_eq_getElem _ _ hi]

/-- The plan of a batch never fails, and pads the plans of its samples. -/
theorem buildOpdAnchorPlan_eq (options : AnchorOptions) (rng : SeededRandom) (seqLen : ℕ)
    (samples : List Sample) (rejectTokenIndices : List (List ℤ))
    (rejectedDrafts : Option (List (List RejectedCell))) : ∃ plans : ℕ → SamplePlan,
      buildOpdAnchorPlan options rng seqLen samples rejectTokenIndices rejectedDrafts =
        .ok (padAnchorPlan samples ((List.range samples.length).map plans)) ∧
      ∀ i, sampleAnchorPlan options rng seqLen i (samples.getD i default)
        (rejectTokenIndices.getD i []) (rejectedDrafts.map fun rows => rows.getD i []) =
          .ok (plans i) := by
  have hsample : ∀ i, ∃ plan, sampleAnchorPlan options rng seqLen i (samples.getD i default)
      (rejectTokenIndices.getD i []) (rejectedDrafts.map fun rows => rows.getD i []) =
        .ok plan := fun i => by
    obtain ⟨plan, -, hplan, -⟩ := sampleAnchorPlan_ok options rng seqLen i
      (samples.getD i default) (rejectTokenIndices.getD i [])
      (rejectedDrafts.map fun rows => rows.getD i [])
    exact ⟨plan, hplan⟩
  choose plans hplans using hsample
  refine ⟨plans, ?_, hplans⟩
  unfold buildOpdAnchorPlan
  rw [forRange_eq_ok fun i _ => hplans i]
  rfl

/-- The plan of a batch that includes the anchors of the rejected drafts. -/
theorem buildOpdAnchorPlan_ok (options : AnchorOptions) (rng : SeededRandom) (seqLen : ℕ)
    (samples : List Sample) (hinc : options.includeRejectedDraftAnchors = true)
    (rejectWidth : ℕ) (cells : Sample → List RejectedCell) :
    ∃ (plan : AnchorPlan) (width : ℕ) (blocks : ℕ → List AnchorBlock),
      buildOpdAnchorPlan options rng seqLen samples
          (samples.map fun s => padRow rejectWidth (-1) s.rejectTokenIndices)
          (some (samples.map cells)) = .ok plan ∧
        plan.rows = (List.range samples.length).map (fun i =>
          padRow width .pad ((blocks i).map AnchorBlock.cell)) ∧
        plan.validSeqLens = samples.map Sample.validSeqLen ∧
        ∀ i < samples.length, SampleBlocks options seqLen (samples.getD i default)
          (cells (samples.getD i default)) (blocks i) := by
  obtain ⟨plans, hbuild, hplans⟩ := buildOpdAnchorPlan_eq options rng seqLen samples
    (samples.map fun s => padRow rejectWidth (-1) s.rejectTokenIndices) (some (samples.map cells))
  refine ⟨_, _, fun i => (plans i).blocks, hbuild,
    by simp only [padAnchorPlan, List.map_map]; rfl, rfl, fun i hi => ?_⟩
  obtain ⟨plan, response, hplan, hblocks, hresponse⟩ := sampleAnchorPlan_ok options rng seqLen i
    (samples.getD i default)
    ((samples.map fun s => padRow rejectWidth (-1) s.rejectTokenIndices).getD i [])
    ((some (samples.map cells)).map fun rows => rows.getD i [])
  obtain rfl : plan = plans i := Except.ok.inj (hplan.symm.trans (hplans i))
  refine ⟨response, hblocks _ ?_ hinc, fun h₁ h₂ h₃ h₄ => ?_⟩
  · rw [Option.map_some, getD_map_of_lt cells hi default]
    rfl
  · rw [hresponse h₁ h₂ h₃ h₄, getD_map_of_lt _ hi default, padRow_responseBlocks]

end DraftOpd
