import DraftOpd.TvPlan

/-!
# The number of TV blocks

The loss of the TV mode is a mean over the blocks of a mini-batch. The engine counts them
before the forward pass, by the set of the anchors of every sample, while the model builds
them micro-batch by micro-batch.

`countDflashTvBlocks_eq_sum` says that both agree on every split of a batch, when the plan of
every micro-batch succeeds. It rests on `length_tvBlocks` : the blocks of a sample are as many
as its anchors.
-/

namespace DraftOpd

/-! ## The count of the engine -/

/-- A tensor of a batch, nested or with rows of one width. -/
inductive BatchTensor where
  | nested (rows : List (List ℤ))
  | dense (width : ℕ) (rows : List (List ℤ))

/-- `response_lengths` (`transformer_impl.py:1100-1112`). -/
def tvResponseLengths (responseMask responses : Option BatchTensor) (batchSize : ℕ) :
    Except DraftBatchError (List ℤ) :=
  match responseMask, responses with
  | some (.nested rows), _ => .ok (rows.map fun row => (row.length : ℤ))
  | some (.dense _ rows), _ => .ok (rows.map List.sum)
  | none, some (.nested rows) => .ok (rows.map fun row => (row.length : ℤ))
  | none, some (.dense width _) => .ok (List.replicate batchSize (width : ℤ))
  | none, none => .error .tvResponses

/-- The boundaries of a response (`transformer_impl.py:1137-1141`). -/
def tvBoundaries (responseLen : ℤ) (rejectIndices : List ℤ) : List ℤ :=
  let rejects := sortedSet (rejectIndices.filter fun idx => decide (0 ≤ idx ∧ idx < responseLen))
  if rejects = [] then []
  else if rejects.getLastD (-1) < responseLen - 1 then rejects ++ [responseLen - 1]
  else rejects

/-- The set of the anchors of a sample (`transformer_impl.py:1135-1164`). -/
def tvAnchors (responseLen : ℤ) (rejectIndices anchors offsets tokenIds : List ℤ) : List ℤ :=
  (((pairs (-1) (tvBoundaries responseLen rejectIndices)).filter fun p =>
      decide (p.1 < p.2)).map Prod.fst ++
    ((anchors.zip (offsets.zip tokenIds)).filter fun x =>
      decide (0 ≤ x.2.2 ∧ 0 < x.2.1 ∧ -1 ≤ x.1 ∧ x.1 < responseLen)).map Prod.fst).dedup

/-- `_count_dflash_tv_blocks` (`transformer_impl.py:1097-1166`). -/
def countDflashTvBlocks (responseMask responses : Option BatchTensor)
    (rawRejects : Option (List (List ℤ))) (metadata : RejectedMetadata) (batchSize : ℕ) :
    Except DraftBatchError ℕ := do
  let responseLengths ← tvResponseLengths responseMask responses batchSize
  let rejectIndices := normalizeDflashRejectIndices rawRejects
  let rejectIndices := if rejectIndices = [] then List.replicate batchSize [] else rejectIndices
  let anchors := normalizeDflashRejectedDraftValues metadata.anchorIndices batchSize
  let offsets := normalizeDflashRejectedDraftValues metadata.offsets batchSize
  let tokenIds := normalizeDflashRejectedDraftValues metadata.tokenIds batchSize
  let counts ← forRange batchSize fun sampleIdx =>
    let sampleAnchors := anchors.getD sampleIdx []
    let sampleOffsets := offsets.getD sampleIdx []
    let sampleTokenIds := tokenIds.getD sampleIdx []
    if sampleAnchors.length = sampleOffsets.length ∧
        sampleOffsets.length = sampleTokenIds.length then
      .ok (tvAnchors (responseLengths.getD sampleIdx 0) (rejectIndices.getD sampleIdx [])
        sampleAnchors sampleOffsets sampleTokenIds).length
    else
      .error (.tvLengths sampleIdx sampleAnchors.length sampleOffsets.length
        sampleTokenIds.length)
  return counts.sum

/-! ## The blocks of a sample -/

section SampleCount

variable {s : Sample} {draftBlockSize seqLen width planWidth batchIdx : ℕ} {firstTokenOnly : Bool}
  {blocks : List AnchorBlock} {index : RejectedIndex}

theorem tvBoundaries_eq (s : Sample) :
    tvBoundaries s.responseLen s.rejectTokenIndices = s.boundaries s.rejectTokenIndices := rfl

/-- A masked cell of the padded row is one of the sample's. -/
theorem mem_kept_of_mask {cell : RejectedCell} (hcell : cell ∈ padRow width .pad (s.kept false))
    (hmask : cell.mask = true) : cell ∈ s.kept false := by
  rcases List.mem_append.mp hcell with h | h
  · exact h
  · rw [List.eq_of_mem_replicate h] at hmask
    cases hmask

/-- The triples of the metadata are those of the cells. -/
theorem Sample.Even.mem_zip_iff (h : s.Even) {x : ℤ × ℤ × ℤ} :
    x ∈ s.anchors.zip (s.offsets.zip s.tokenIds) ↔
      ∃ cell ∈ s.kept false, cell.mask = true ∧ x = (cell.anchor, cell.offset, cell.tokenId) := by
  have h₁ := h.length_offsets
  have h₂ := h.length_tokenIds
  have h₃ := h.length_teacherLogprobs
  have heq : s.anchors.zip (s.offsets.zip s.tokenIds) =
      (s.kept false).map fun cell => (cell.anchor, cell.offset, cell.tokenId) := by
    refine List.ext_getElem (by simp [Sample.kept, rejectedCells]; omega) fun i hi₁ hi₂ => ?_
    simp [Sample.kept, rejectedCells]
  rw [heq, List.mem_map]
  constructor
  · rintro ⟨cell, hcell, rfl⟩
    exact ⟨cell, hcell, (mem_of_mem_rejectedCells hcell).2.2.2, rfl⟩
  · rintro ⟨cell, hcell, -, rfl⟩
    exact ⟨cell, hcell, rfl⟩

/-- An offset is selected for an anchor with rejected drafts. -/
theorem selectedOffsets_some_ne_nil {byOffset : Dict ℤ ℤ} (h : byOffset.keys ≠ [])
    (segmentLen : ℤ) : selectedOffsets (some byOffset) segmentLen firstTokenOnly ≠ [] := by
  have hne : sortedOffsets byOffset ≠ [] := by
    rwa [sortedOffsets, Ne, sortedSet_eq_nil]
  unfold selectedOffsets
  refine List.append_ne_nil_of_right_ne_nil _ ?_
  cases firstTokenOnly with
  | true => simpa [List.take_eq_nil_iff] using hne
  | false => exact hne

theorem selectedOffsets_none_ne_nil {segmentLen : ℤ} (h : 1 ≤ segmentLen) :
    selectedOffsets none segmentLen firstTokenOnly ≠ [] := by
  have hlen : 0 < (intRange 1 (segmentLen + 1)).length := by
    simp only [intRange, List.length_map, List.length_range]
    omega
  exact List.ne_nil_of_length_pos hlen

/-- What the plan knows of a sample. -/
structure SamplePlanned (s : Sample) (draftBlockSize seqLen width planWidth batchIdx : ℕ)
    (firstTokenOnly : Bool) (blocks : List AnchorBlock) (index : RejectedIndex) : Prop where
  even : s.Even
  prompt : 1 ≤ s.promptLen
  room : s.promptLen + s.responseLen ≤ seqLen
  anchors : SampleBlocks { draftBlockSize := draftBlockSize } seqLen s
    (padRow width .pad (s.kept false)) blocks
  checks : s.PlanOk draftBlockSize batchIdx firstTokenOnly
    (padRow planWidth .pad (blocks.map AnchorBlock.cell)) (padRow width .pad (s.kept false)) index

namespace SamplePlanned

variable (h : SamplePlanned s draftBlockSize seqLen width planWidth batchIdx firstTokenOnly blocks
  index)

include h

theorem indexed : s.Indexed index (padRow width .pad (s.kept false)) ∧
    ∀ cell ∈ padRow width .pad (s.kept false), cell.mask = true →
      s.CellOk draftBlockSize cell :=
  Sample.indexed_of_ok h.checks.indexed

/-- The blocks are those of the response, then one for every other rejected anchor. -/
theorem blocks_eq : ∃ added, blocks =
      s.responseBlocks draftBlockSize s.rejectTokenIndices ++ added ∧
    (∀ block ∈ added, ∃ cell ∈ s.kept false, cell.mask = true ∧
      s.AddsAnchor seqLen draftBlockSize cell ∧ s.fullAnchor cell.anchor = block.anchor) ∧
    ∀ cell ∈ s.kept false, s.AddsAnchor seqLen draftBlockSize cell →
      s.fullAnchor cell.anchor ∈ blocks.map AnchorBlock.anchor := by
  obtain ⟨response, hfold, hresponse⟩ := h.anchors.from_response
  rw [hresponse le_rfl rfl h.prompt h.room] at hfold
  obtain ⟨added, heq, -, hfrom, hcover⟩ := s.addRejectedAnchors_spec seqLen draftBlockSize
    (padRow width .pad (s.kept false)) (s.responseBlocks draftBlockSize s.rejectTokenIndices)
  refine ⟨added, hfold.trans heq, fun block hblock => ?_, fun cell hcell hadds => ?_⟩
  · obtain ⟨-, cell, hcell, hadds, hanchor⟩ := hfrom block hblock
    exact ⟨cell, mem_kept_of_mask hcell hadds.1, hadds.1, hadds, hanchor⟩
  · rw [hfold, heq]
    exact hcover cell (List.mem_append_left _ hcell) hadds

/-- Every block has a position. -/
theorem hasPosition (hblock : 2 ≤ draftBlockSize) {block : AnchorBlock} (hmem : block ∈ blocks)
    (blockIdx : ℕ) :
    (tvBlock index draftBlockSize batchIdx blockIdx firstTokenOnly block.cell).hasPosition =
      true := by
  obtain ⟨hindexed, -⟩ := h.indexed
  have hne : selectedOffsets (index.get? block.anchor) block.segmentLen firstTokenOnly ≠ [] := by
    cases hget : index.get? block.anchor with
    | some byOffset => exact selectedOffsets_some_ne_nil (hindexed.nonempty _ _ hget) _
    | none =>
      refine selectedOffsets_none_ne_nil ?_
      obtain ⟨added, heq, hfrom, -⟩ := h.blocks_eq
      rw [heq, List.mem_append] at hmem
      rcases hmem with hmem | hmem
      · obtain ⟨p, hp, rfl⟩ := List.mem_map.mp hmem
        have hlt := (Sample.pair_range hp).2.1
        exact le_min (by omega) (by omega)
      · -- an anchor that was added has a rejected draft, so it is in the index
        obtain ⟨cell, hcell, hmask, -, hanchor⟩ := hfrom block hmem
        have hfound := hindexed.found cell (List.mem_append_left _ hcell) hmask
        rw [Sample.lookup, hanchor, hget] at hfound
        exact absurd rfl hfound
  have hpos : (tvBlock index draftBlockSize batchIdx blockIdx firstTokenOnly
      block.cell).positions ≠ [] := by
    rw [tvBlock, Ne, List.map_eq_nil_iff]
    exact hne
  simpa [TvBlock.hasPosition] using hpos

/-- The anchors of the blocks are those the engine counts. -/
theorem mem_anchors_iff (hanchors : ∀ a ∈ s.anchors, -1 ≤ a) {a : ℤ} :
    s.promptLen + a ∈ blocks.map AnchorBlock.anchor ↔
      a ∈ tvAnchors s.responseLen s.rejectTokenIndices s.anchors s.offsets s.tokenIds := by
  obtain ⟨added, heq, hfrom, hcover⟩ := h.blocks_eq
  obtain ⟨-, hok⟩ := h.indexed
  have hroom := h.room
  have hprompt := h.prompt
  unfold tvAnchors
  simp only [List.mem_dedup, List.mem_append, List.mem_map, List.mem_filter, decide_eq_true_eq,
    tvBoundaries_eq]
  constructor
  · rintro ⟨block, hblock, hanchor⟩
    rw [heq, List.mem_append] at hblock
    rcases hblock with hblock | hblock
    · obtain ⟨p, hp, rfl⟩ := List.mem_map.mp hblock
      exact Or.inl ⟨p, ⟨hp, (Sample.pair_range hp).2.1⟩, by simpa using hanchor⟩
    · obtain ⟨cell, hcell, hmask, hadds, hfull⟩ := hfrom block hblock
      have hcellOk := hok cell (List.mem_append_left _ hcell) hmask
      have hge := hanchors _ (mem_of_mem_rejectedCells hcell).1
      have hlt := hadds.2.2.2
      rw [s.fullAnchor_eq hge] at hfull hlt
      refine Or.inr ⟨_, ⟨h.even.mem_zip_iff.mpr ⟨cell, hcell, hmask, rfl⟩, hcellOk.token_nonneg,
        hcellOk.offset_pos, hge, by omega⟩, by omega⟩
  · rintro (⟨p, ⟨hp, -⟩, rfl⟩ | ⟨x, ⟨hx, -, -, hge, hlt⟩, rfl⟩)
    · rw [heq]
      exact ⟨_, List.mem_append_left _ (List.mem_map_of_mem hp), rfl⟩
    · obtain ⟨cell, hcell, hmask, rfl⟩ := h.even.mem_zip_iff.mp hx
      have hcellOk := hok cell (List.mem_append_left _ hcell) hmask
      have hfull : s.fullAnchor cell.anchor = s.promptLen + cell.anchor := s.fullAnchor_eq hge
      rw [← List.mem_map, ← hfull]
      refine hcover cell hcell ⟨hmask, ⟨hcellOk.offset_pos, hcellOk.offset_lt⟩,
        hcellOk.anchor_nonneg, ?_⟩
      dsimp only at hlt
      omega

/-- A sample has as many blocks as anchors. -/
theorem length_tvBlocks (hblock : 2 ≤ draftBlockSize) (hanchors : ∀ a ∈ s.anchors, -1 ≤ a) :
    (tvBlocks index draftBlockSize batchIdx firstTokenOnly
      (padRow planWidth .pad (blocks.map AnchorBlock.cell))).length =
    (tvAnchors s.responseLen s.rejectTokenIndices s.anchors s.offsets s.tokenIds).length := by
  have hall : ∀ b ∈ (blocks.map AnchorBlock.cell).zipIdx.map fun x =>
      tvBlock index draftBlockSize batchIdx x.2 firstTokenOnly x.1, b.hasPosition = true := by
    intro b hb
    obtain ⟨x, hx, rfl⟩ := List.mem_map.mp hb
    obtain ⟨block, hmem, hcell⟩ := List.mem_map.mp (List.fst_mem_of_mem_zipIdx hx)
    rw [← hcell]
    exact h.hasPosition hblock hmem x.2
  have hnodup := h.checks.nodup
  rw [plannedAnchors_padRow] at hnodup
  have hperm : (blocks.map AnchorBlock.anchor).Perm
      ((tvAnchors s.responseLen s.rejectTokenIndices s.anchors s.offsets s.tokenIds).map
        fun a => s.promptLen + a) := by
    have hcounted : (tvAnchors s.responseLen s.rejectTokenIndices s.anchors s.offsets
        s.tokenIds).Nodup := List.nodup_dedup _
    refine (List.perm_ext_iff_of_nodup hnodup (hcounted.map
      (add_right_injective _))).mpr fun full => ?_
    have heq : full = s.promptLen + (full - s.promptLen) := by omega
    rw [heq, h.mem_anchors_iff hanchors, List.mem_map_of_injective (add_right_injective _)]
  have hlen := hperm.length_eq
  rw [List.length_map, List.length_map] at hlen
  rw [tvBlocks, zipIdx_padRow, List.filter_eq_self.mpr hall, List.length_map, List.length_zipIdx,
    List.length_map, hlen]

end SamplePlanned

end SampleCount

/-! ## The count of a batch -/

/-- The number of anchors the engine counts for a sample. -/
def Sample.tvBlockCount (s : Sample) : ℕ :=
  (tvAnchors s.responseLen s.rejectTokenIndices s.anchors s.offsets s.tokenIds).length

/-- The mask is one on the response of every sample, and zero on its padding. -/
def BatchTensor.AllOnes (samples : List Sample) : BatchTensor → Prop
  | .nested rows => rows = samples.map fun s => List.replicate s.responseLen 1
  | .dense width rows =>
    rows = samples.map fun s => padRow width 0 (List.replicate s.responseLen 1)

theorem tvResponseLengths_eq {samples : List Sample} {responseMask : BatchTensor}
    (h : responseMask.AllOnes samples) (responses : Option BatchTensor) (batchSize : ℕ) :
    tvResponseLengths (some responseMask) responses batchSize =
      .ok (samples.map fun s => (s.responseLen : ℤ)) := by
  cases responseMask with
  | nested rows =>
    obtain rfl : rows = _ := h
    simp [tvResponseLengths, Function.comp_def]
  | dense width rows =>
    obtain rfl : rows = _ := h
    simp [tvResponseLengths, Function.comp_def, padRow]

/-- The engine adds up the anchors of the samples. -/
theorem countDflashTvBlocks_eq {samples : List Sample} (heven : ∀ s ∈ samples, s.Even)
    {responseMask : BatchTensor} (hmask : responseMask.AllOnes samples)
    (responses : Option BatchTensor) :
    countDflashTvBlocks (some responseMask) responses
        (some (samples.map Sample.rejectTokenIndices)) (.ofSamples samples) samples.length =
      .ok (samples.map Sample.tvBlockCount).sum := by
  unfold countDflashTvBlocks RejectedMetadata.ofSamples
  simp only [tvResponseLengths_eq hmask, normalize_map]
  have hrejects : (if normalizeDflashRejectIndices
        (some (samples.map Sample.rejectTokenIndices)) = [] then List.replicate samples.length []
      else normalizeDflashRejectIndices (some (samples.map Sample.rejectTokenIndices))) =
      samples.map Sample.rejectTokenIndices := by
    split_ifs with hnil
    · obtain rfl : samples = [] := List.map_eq_nil_iff.mp hnil
      rfl
    · rfl
  rw [hrejects]
  change (forRange _ _ >>= fun counts => pure counts.sum) = _
  rw [forRange_samples (g := Sample.tvBlockCount) fun i hi => ?_]
  · rfl
  · have hs := heven _ (getD_mem hi default)
    rw [getD_column samples (f := Sample.anchors) rfl,
      getD_column samples (f := Sample.offsets) rfl,
      getD_column samples (f := Sample.tokenIds) rfl,
      getD_column samples (f := Sample.rejectTokenIndices) rfl, getD_map_of_lt _ hi default]
    exact if_pos ⟨hs.length_offsets, hs.length_tokenIds⟩

/-- A sample as the count expects it. -/
structure Sample.Counted (s : Sample) (seqLen : ℕ) : Prop where
  prompt : 1 ≤ s.promptLen
  room : s.promptLen + s.responseLen ≤ seqLen
  anchor_ge : ∀ a ∈ s.anchors, -1 ≤ a

/-- The blocks of a micro-batch are the anchors of its samples. -/
theorem MicroBatch.blockCount_eq {micro : MicroBatch} {rng : SeededRandom} {draftBlockSize : ℕ}
    {firstTokenOnly : Bool} {plan : TvPlan} (hblock : 2 ≤ draftBlockSize)
    (hsamples : ∀ s ∈ micro.samples, s.Counted micro.seqLen)
    (h : micro.tvPlan rng draftBlockSize firstTokenOnly = .ok plan) :
    plan.blockCount = (micro.samples.map Sample.tvBlockCount).sum := by
  have heven := even_of_tvPlan_ok h
  obtain ⟨width, planWidth, blocks, heq, hblocks⟩ :=
    tvPlan_eq rng draftBlockSize firstTokenOnly heven
  rw [heq, buildTvPositionPlan] at h
  obtain ⟨tv, hbuild, h⟩ := of_bind_ok h
  obtain rfl := Except.ok.inj h
  obtain ⟨indices, hchecks, rfl⟩ := of_buildTvBlocks_ok hbuild
  rw [← map_range_getD micro.samples default]
  change (List.flatMap _ _).length = _
  rw [List.length_flatMap]
  refine congrArg List.sum (List.map_congr_left fun i hi => ?_)
  have hi := List.mem_range.mp hi
  have hrow : ((List.range micro.samples.length).map fun i =>
      padRow planWidth .pad ((blocks i).map AnchorBlock.cell)).getD i [] =
        padRow planWidth .pad ((blocks i).map AnchorBlock.cell) := by
    simp [hi]
  have hcheck := hchecks i hi
  rw [hrow, getD_map_of_lt _ hi default] at hcheck
  rw [hrow]
  have hs := hsamples _ (getD_mem hi default)
  have hplanned : SamplePlanned (micro.samples.getD i default) draftBlockSize micro.seqLen width
      planWidth i firstTokenOnly (blocks i) (indices i) :=
    ⟨heven _ (getD_mem hi default), hs.prompt, hs.room, hblocks i hi, hcheck⟩
  exact hplanned.length_tvBlocks hblock hs.anchor_ge

/-- The count of the engine on a batch is the number of blocks the model builds on the
micro-batches of any split of it. -/
theorem countDflashTvBlocks_eq_sum {batch : List Sample} {micros : List MicroBatch}
    {rng : SeededRandom} {draftBlockSize : ℕ} {firstTokenOnly : Bool} {responseMask : BatchTensor}
    {plans : List TvPlan} (hblock : 2 ≤ draftBlockSize)
    (hsplit : (micros.flatMap MicroBatch.samples).Perm batch)
    (hsamples : ∀ micro ∈ micros, ∀ s ∈ micro.samples, s.Counted micro.seqLen)
    (hmask : responseMask.AllOnes batch) (responses : Option BatchTensor)
    (hplans : micros.mapM (MicroBatch.tvPlan rng draftBlockSize firstTokenOnly) = .ok plans) :
    countDflashTvBlocks (some responseMask) responses
        (some (batch.map Sample.rejectTokenIndices)) (.ofSamples batch) batch.length =
      .ok (plans.map TvPlan.blockCount).sum := by
  have heven : ∀ s ∈ batch, s.Even := by
    intro s hs
    obtain ⟨micro, hmicro, hs⟩ := List.mem_flatMap.mp (hsplit.mem_iff.mpr hs)
    obtain ⟨plan, hplan⟩ := exists_ok_of_mapM_ok hplans hmicro
    exact MicroBatch.even_of_tvPlan_ok hplan s hs
  have hcounts : plans.map TvPlan.blockCount =
      micros.map fun micro => (micro.samples.map Sample.tvBlockCount).sum :=
    map_of_mapM_ok hplans fun micro hmicro plan hplan =>
      MicroBatch.blockCount_eq hblock (hsamples micro hmicro) hplan
  rw [countDflashTvBlocks_eq heven hmask, hcounts]
  refine congrArg Except.ok ?_
  calc (batch.map Sample.tvBlockCount).sum
      = ((micros.flatMap MicroBatch.samples).map Sample.tvBlockCount).sum :=
        ((hsplit.map Sample.tvBlockCount).sum_eq).symm
    _ = (micros.map fun micro => (micro.samples.map Sample.tvBlockCount).sum).sum := by
      rw [List.flatMap_def, List.map_flatten, List.sum_flatten, List.map_map, List.map_map]
      rfl

/-- A response of five tokens with a rejected draft of its first block and one at its first
token. -/
def fiveTokenSample : Sample where
  inputIds := [1, 2, 3, 4, 5, 6]
  promptLen := 1
  responseLen := 5
  validSeqLen := 6
  rejectTokenIndices := [2]
  anchors := [-1, 0]
  offsets := [3, 2]
  tokenIds := [10, 11]
  teacherLogprobs := [⊥, ⊥]

/-- A response of two tokens that was not cut. -/
def uncutSample : Sample where
  inputIds := [1, 2, 3]
  promptLen := 1
  responseLen := 2
  validSeqLen := 3
  rejectTokenIndices := [1]
  anchors := []
  offsets := []
  tokenIds := []
  teacherLogprobs := []

theorem countDflashTvBlocks_two_micro_batches :
    countDflashTvBlocks (some (.nested [[1, 1, 1, 1, 1], [1, 1]])) none (some [[2], [1]])
      (.ofSamples [fiveTokenSample, uncutSample]) 2 = .ok 4 := by
  have hplans : [⟨[uncutSample], 3⟩, ⟨[fiveTokenSample], 6⟩].mapM
      (MicroBatch.tvPlan ⟨fun _ xs => xs, fun _ _ _ _ => []⟩ 4 false) = .ok _ := rfl
  have hsplit : ([⟨[uncutSample], 3⟩, ⟨[fiveTokenSample], 6⟩].flatMap MicroBatch.samples).Perm
      [fiveTokenSample, uncutSample] := List.Perm.swap _ _ _
  have hmask : (BatchTensor.nested [[1, 1, 1, 1, 1], [1, 1]]).AllOnes
      [fiveTokenSample, uncutSample] := rfl
  refine countDflashTvBlocks_eq_sum (by decide) hsplit ?_ hmask none hplans
  intro micro hmicro s hs
  simp only [List.mem_cons, List.not_mem_nil, or_false] at hmicro
  rcases hmicro with rfl | rfl <;> rw [List.mem_singleton.mp hs] <;>
    exact ⟨by decide, by decide, by decide⟩

end DraftOpd
