import DraftOpd.AnchorPlan
import DraftOpd.DistillationLoss

/-!
# The rejected-token normaliser

The loss of the rejected drafts is divided by a count the engine takes from the metadata of
the mini-batch. What it divides is selected by the model : `_collect_rejected_draft_log_probs`
walks over the padded tensors, drops what is out of range or has no block in the plan, and
stops at the limit.

On metadata as a server records it nothing is dropped, so the mask of a sample has one entry
for what is kept of it, up to the limit (`countP_mask_collectRow`), and both counts agree
(`rejected_count_eq_mask_count`).
-/

namespace DraftOpd

/-! ## Collecting the log-probabilities -/

/-- A position of the tensors `_collect_rejected_draft_log_probs` returns. -/
structure CollectedCell where
  studentLogProb : LogProb
  teacherLogProb : LogProb
  mask : Bool

/-- The fill values of the tensors. -/
def CollectedCell.zero : CollectedCell := ⟨((0 : ℚ) : LogProb), ((0 : ℚ) : LogProb), false⟩

/-- The block a rejected draft is read from : the first kept one at its anchor. -/
def Sample.collectBlock (s : Sample) (draftBlockSize : ℕ) (planRow : List AnchorCell)
    (cell : RejectedCell) : Option ℕ :=
  let fullAnchor := s.fullAnchor cell.anchor
  if cell.offset ≤ 0 ∨ (draftBlockSize : ℤ) ≤ cell.offset ∨ cell.tokenId < 0 then none
  else if fullAnchor < 0 ∨ ((s.promptLen + s.responseLen : ℕ) : ℤ) ≤ fullAnchor then none
  else planRow.findIdx? fun block => block.anchorPosition == fullAnchor && block.keep

/-- The loop over the items of a sample (`dflash_student.py:989-1016`). `lmLogProb` is the
log-probability of a token at a position of the draft's output. -/
def Sample.collectRow (s : Sample) (draftBlockSize : ℕ) (maxTokensPerSample : Option ℕ)
    (lmLogProb : ℤ → ℤ → LogProb) (planRow : List AnchorCell) :
    ℕ → List RejectedCell → List CollectedCell
  | _, [] => []
  | selectedCount, cell :: rest =>
    if cell.mask = false ∨ (maxTokensPerSample.any fun m => m ≤ selectedCount) then
      .zero :: s.collectRow draftBlockSize maxTokensPerSample lmLogProb planRow selectedCount rest
    else match s.collectBlock draftBlockSize planRow cell with
      | none =>
        .zero :: s.collectRow draftBlockSize maxTokensPerSample lmLogProb planRow selectedCount rest
      | some blockIdx =>
        ⟨lmLogProb (blockIdx * draftBlockSize + cell.offset) cell.tokenId, cell.teacherLogprob,
          true⟩ ::
        s.collectRow draftBlockSize maxTokensPerSample lmLogProb planRow (selectedCount + 1) rest

/-- `_collect_rejected_draft_log_probs` (`dflash_student.py:949-1042`). -/
def collectRejectedDraftLogProbs (samples : List Sample) (draftBlockSize : ℕ)
    (maxTokensPerSample : Option ℕ) (lmLogProb : ℕ → ℤ → ℤ → LogProb)
    (planRows : List (List AnchorCell)) (rejectedDrafts : List (List RejectedCell)) :
    List (List CollectedCell) :=
  if !rejectedDrafts.any (fun row => row.any RejectedCell.mask) then
    rejectedDrafts.map fun row => row.map fun _ => .zero
  else
    (List.range samples.length).map fun batchIdx =>
      (samples.getD batchIdx default).collectRow draftBlockSize maxTokensPerSample
        (lmLogProb batchIdx) (planRows.getD batchIdx []) 0 (rejectedDrafts.getD batchIdx [])

/-- The number of `True` entries of the mask. -/
def maskCount (rows : List (List CollectedCell)) : ℕ :=
  (rows.map fun row => row.countP CollectedCell.mask).sum

/-! ## What the loop selects -/

section Row

variable {s : Sample} {draftBlockSize : ℕ} {maxTokensPerSample : Option ℕ}
  {lmLogProb : ℤ → ℤ → LogProb} {planRow : List AnchorCell}

theorem collectRow_of_masked : ∀ (selectedCount : ℕ) {rest : List RejectedCell},
    (∀ cell ∈ rest, cell.mask = false) →
    s.collectRow draftBlockSize maxTokensPerSample lmLogProb planRow selectedCount rest =
      rest.map fun _ => .zero
  | _, [], _ => rfl
  | selectedCount, cell :: rest, h => by
    rw [Sample.collectRow, if_pos (Or.inl (h cell List.mem_cons_self)),
      collectRow_of_masked selectedCount fun c hc => h c (List.mem_cons_of_mem _ hc)]
    rfl

/-- The mask of a row whose cells all have a block : the first are selected, up to the
limit. -/
theorem mask_collectRow {pads : List RejectedCell} (hpads : ∀ cell ∈ pads, cell.mask = false) :
    ∀ (selectedCount : ℕ) {cells : List RejectedCell},
      (∀ cell ∈ cells, cell.mask = true ∧ s.collectBlock draftBlockSize planRow cell ≠ none) →
      ∃ j, (s.collectRow draftBlockSize maxTokensPerSample lmLogProb planRow selectedCount
          (cells ++ pads)).map CollectedCell.mask =
        List.replicate (capped (maxTokensPerSample.map fun m => m - selectedCount) cells.length)
          true ++ List.replicate j false
  | selectedCount, [], _ => by
    have hk : capped (maxTokensPerSample.map fun m => m - selectedCount) 0 = 0 := by
      cases maxTokensPerSample <;> simp [capped]
    refine ⟨pads.length, ?_⟩
    rw [List.nil_append, collectRow_of_masked selectedCount hpads, List.map_map, List.length_nil,
      hk]
    exact List.map_const' ..
  | selectedCount, cell :: cells, h => by
    obtain ⟨hmask, hblock⟩ := h cell List.mem_cons_self
    have hcells := fun c hc => h c (List.mem_cons_of_mem _ hc)
    rw [List.cons_append, Sample.collectRow]
    by_cases hlimit : (maxTokensPerSample.any fun m => m ≤ selectedCount) = true
    · obtain ⟨j, ih⟩ := mask_collectRow hpads selectedCount hcells
      obtain ⟨m, hm, hle⟩ : ∃ m, maxTokensPerSample = some m ∧ m ≤ selectedCount := by
        simpa [Option.any_eq_true] using hlimit
      refine ⟨j + 1, ?_⟩
      rw [if_pos (Or.inr hlimit), List.map_cons, ih, hm]
      simp [capped, Nat.sub_eq_zero_of_le hle, CollectedCell.zero, List.replicate_succ]
    · obtain ⟨blockIdx, hidx⟩ := Option.ne_none_iff_exists'.mp hblock
      obtain ⟨j, ih⟩ := mask_collectRow hpads (selectedCount + 1) hcells
      refine ⟨j, ?_⟩
      rw [if_neg (by simp [hmask, hlimit]), hidx, List.map_cons, ih]
      have hk : capped (maxTokensPerSample.map fun m => m - selectedCount) (cell :: cells).length =
          capped (maxTokensPerSample.map fun m => m - (selectedCount + 1)) cells.length + 1 := by
        cases hmax : maxTokensPerSample with
        | none => rfl
        | some m =>
          rw [hmax] at hlimit
          simp only [Option.any_some, decide_eq_true_eq] at hlimit
          simp only [capped, Option.map_some, Option.elim_some, List.length_cons]
          omega
      rw [hk, List.replicate_succ]
      rfl

end Row

theorem sum_weights_of_mask (g : ℤ → ℚ) (j : ℕ) : ∀ (k : ℕ) (offsets : List ℤ),
    (((List.replicate k true ++ List.replicate j false).zip offsets).map fun x =>
      g x.2 * maskValue x.1).sum = ((offsets.take k).map g).sum
  | 0, offsets => by
    refine List.sum_eq_zero fun v hv => ?_
    obtain ⟨x, hx, rfl⟩ := List.mem_map.mp hv
    have hmask := (List.of_mem_zip hx).1
    rw [List.replicate_zero, List.nil_append] at hmask
    rw [List.eq_of_mem_replicate hmask, maskValue, if_neg Bool.false_ne_true, mul_zero]
  | k + 1, [] => by simp
  | k + 1, o :: offsets => by
    rw [List.replicate_succ, List.cons_append, List.zip_cons_cons, List.map_cons, List.sum_cons,
      sum_weights_of_mask g j k offsets, List.take_succ_cons, List.map_cons, List.sum_cons,
      maskValue, if_pos rfl, mul_one]

/-! ## The mask of a batch -/

/-- Without a rejected draft the loop selects nothing. -/
theorem collectRejectedDraftLogProbs_eq (samples : List Sample) (draftBlockSize : ℕ)
    (maxTokensPerSample : Option ℕ) (lmLogProb : ℕ → ℤ → ℤ → LogProb)
    (planRows : List (List AnchorCell)) (rejectedDrafts : List (List RejectedCell))
    (hlen : rejectedDrafts.length = samples.length) :
    collectRejectedDraftLogProbs samples draftBlockSize maxTokensPerSample lmLogProb planRows
        rejectedDrafts =
      (List.range samples.length).map fun batchIdx =>
        (samples.getD batchIdx default).collectRow draftBlockSize maxTokensPerSample
          (lmLogProb batchIdx) (planRows.getD batchIdx []) 0 (rejectedDrafts.getD batchIdx []) := by
  unfold collectRejectedDraftLogProbs
  split_ifs with hany
  · rw [← hlen, ← map_range_getD rejectedDrafts []]
    refine List.map_congr_left fun i hi => (collectRow_of_masked 0 fun cell hcell => ?_).symm
    have hrow := getD_mem (List.mem_range.mp hi) []
    rw [Bool.not_eq_true'] at hany
    have hnone := List.any_eq_false.mp hany _ hrow
    exact Bool.eq_false_iff.mpr fun hmask => hnone (List.any_eq_true.mpr ⟨cell, hcell, hmask⟩)
  · rfl

/-- The blocks of a plan have a block for everything that is kept. -/
theorem collectBlock_ne_none {options : AnchorOptions} {s : Sample} {seqLen : ℕ}
    {cells : List RejectedCell} {blocks : List AnchorBlock}
    (hblocks : SampleBlocks options seqLen s cells blocks)
    (h : s.WellFormed options.draftBlockSize) (hprompt : 1 ≤ s.promptLen)
    (hseq : s.promptLen + s.responseLen ≤ seqLen) (width : ℕ) {firstTokenOnly : Bool}
    {cell : RejectedCell} (hkept : cell ∈ s.kept firstTokenOnly) (hcell : cell ∈ cells) :
    s.collectBlock options.draftBlockSize (padRow width .pad (blocks.map AnchorBlock.cell)) cell ≠
      none := by
  obtain ⟨hmask, ha₁, ha₂, ho₁, ho₂, ht⟩ := h.kept_range hkept
  have hfull := s.fullAnchor_eq ha₁
  obtain ⟨response, rfl, -⟩ := hblocks.from_response
  obtain ⟨added, heq, -, -, hcover⟩ :=
    s.addRejectedAnchors_spec seqLen options.draftBlockSize cells response
  have hmem := hcover cell hcell ⟨hmask, by omega, by omega, by omega⟩
  obtain ⟨block, hblock, hanchor⟩ := List.mem_map.mp hmem
  unfold Sample.collectBlock
  rw [if_neg (by omega), if_neg (by omega), Ne, List.findIdx?_eq_none_iff, heq]
  intro hnone
  have hfalse := hnone block.cell (List.mem_append_left _ (List.mem_map_of_mem hblock))
  simp [AnchorBlock.cell, hanchor] at hfalse

/-- The mask of a sample of the batch. -/
theorem mask_collect_kept {options : AnchorOptions} {s : Sample} {seqLen width : ℕ}
    {firstTokenOnly : Bool} {blocks : List AnchorBlock}
    (hblocks : SampleBlocks options seqLen s (padRow width .pad (s.kept firstTokenOnly)) blocks)
    (h : s.WellFormed options.draftBlockSize)
    (hlen : 1 ≤ s.promptLen ∧ s.promptLen + s.responseLen ≤ seqLen)
    (maxTokensPerSample : Option ℕ) (lmLogProb : ℤ → ℤ → LogProb) (planWidth : ℕ) :
    ∃ j, (s.collectRow options.draftBlockSize maxTokensPerSample lmLogProb
        (padRow planWidth .pad (blocks.map AnchorBlock.cell)) 0
        (padRow width .pad (s.kept firstTokenOnly))).map CollectedCell.mask =
      List.replicate (capped maxTokensPerSample (s.kept firstTokenOnly).length) true ++
        List.replicate j false := by
  have hcells : ∀ cell ∈ s.kept firstTokenOnly, cell.mask = true ∧
      s.collectBlock options.draftBlockSize (padRow planWidth .pad (blocks.map AnchorBlock.cell))
        cell ≠ none := fun cell hcell =>
    ⟨(h.kept_range hcell).1, collectBlock_ne_none hblocks h hlen.1 hlen.2 planWidth hcell
      (List.mem_append_left _ hcell)⟩
  have hpads : ∀ cell ∈ List.replicate (width - (s.kept firstTokenOnly).length) RejectedCell.pad,
      cell.mask = false := fun cell hcell => by
    rw [List.eq_of_mem_replicate hcell]
    rfl
  obtain ⟨j, hj⟩ := mask_collectRow hpads 0 hcells
  refine ⟨j, hj.trans ?_⟩
  simp

/-- The mask and the offset of every position. -/
def maskedOffsets (collected : List (List CollectedCell))
    (rejectedDrafts : List (List RejectedCell)) : List (Bool × ℤ) :=
  (List.zipWith (fun row cells =>
    (row.map CollectedCell.mask).zip (cells.map RejectedCell.offset)) collected
      rejectedDrafts).flatten

theorem cappedTake_eq_take {α : Type*} (maxTokensPerSample : Option ℕ) (row : List α) :
    cappedTake maxTokensPerSample row = row.take (capped maxTokensPerSample row.length) := by
  cases maxTokensPerSample with
  | none => exact (List.take_length (l := row)).symm
  | some m =>
    change row.take m = row.take (min row.length m)
    rw [Nat.min_comm]
    exact List.take_eq_take_min

/-- The count of the engine is the number of positions in the mask of the model, and without
the first-token filter its weight is the weight of the mask. -/
theorem rejected_count_eq_mask_count {samples : List Sample} {options : AnchorOptions}
    {seqLen : ℕ} (h : ∀ s ∈ samples, s.WellFormed options.draftBlockSize)
    (hlen : ∀ s ∈ samples, 1 ≤ s.promptLen ∧ s.promptLen + s.responseLen ≤ seqLen)
    (hinc : options.includeRejectedDraftAnchors = true) (rng : SeededRandom)
    (lmLogProb : ℕ → ℤ → ℤ → LogProb) (maxTokensPerSample : Option ℕ) (firstTokenOnly : Bool) :
    ∃ rejects tensors plan,
      buildRejectTensor (some (samples.map Sample.rejectTokenIndices)) samples.length =
        .ok rejects ∧
      buildDflashRejectedDraftTensors (.ofSamples samples) samples.length firstTokenOnly false =
        .ok tensors ∧
      buildOpdAnchorPlan options rng seqLen samples rejects (some tensors) = .ok plan ∧
      countDflashRejectedDraftTokens (some (samples.map Sample.tokenIds)) samples.length
          maxTokensPerSample (some (samples.map Sample.anchors))
          (some (samples.map Sample.offsets)) firstTokenOnly =
        .ok (maskCount (collectRejectedDraftLogProbs samples options.draftBlockSize
          maxTokensPerSample lmLogProb plan.rows tensors)) ∧
      (firstTokenOnly = false → ∀ config : LossConfig,
        config.rejectedDraftFirstTokenOnly = false →
        config.rejectedDraftPositionDecayEnabled = true →
        0 < config.rejectedDraftPositionDecay → config.rejectedDraftPositionDecay ≤ 1 →
        ∃ weights, buildRejectedDraftPositionWeights config true
            (maskedOffsets (collectRejectedDraftLogProbs samples options.draftBlockSize
              maxTokensPerSample lmLogProb plan.rows tensors) tensors) = .ok (weights, true) ∧
          sumDflashRejectedDraftPositionWeights (some (samples.map Sample.tokenIds))
              (some (samples.map Sample.offsets)) samples.length maxTokensPerSample
              config.rejectedDraftPositionDecay (some (samples.map Sample.anchors)) false =
            .ok weights.sum) := by
  obtain ⟨rejectWidth, hrejects⟩ := buildRejectTensor_eq samples
  obtain ⟨width, htensors⟩ := buildDflashRejectedDraftTensors_eq h firstTokenOnly false
  rw [Bool.not_false, Bool.and_true] at htensors
  obtain ⟨plan, planWidth, blocks, hplan, hrows, -, hblocks⟩ := buildOpdAnchorPlan_ok options rng
    seqLen samples hinc rejectWidth fun s => padRow width .pad (s.kept firstTokenOnly)
  -- the mask of each sample selects what is kept of it, up to the limit
  have hmask : ∀ i < samples.length, ∃ j,
      ((samples.getD i default).collectRow options.draftBlockSize maxTokensPerSample (lmLogProb i)
        (plan.rows.getD i []) 0 (padRow width .pad ((samples.getD i default).kept
          firstTokenOnly))).map CollectedCell.mask =
      List.replicate (capped maxTokensPerSample
        ((samples.getD i default).kept firstTokenOnly).length) true ++
        List.replicate j false := by
    intro i hi
    have hs := getD_mem hi default
    have hrow : plan.rows.getD i [] =
        padRow planWidth .pad ((blocks i).map AnchorBlock.cell) := by
      rw [hrows, List.getD_eq_getElem _ _ (by simpa using hi)]
      simp
    rw [hrow]
    exact mask_collect_kept (hblocks i hi) (h _ hs) (hlen _ hs) maxTokensPerSample (lmLogProb i)
      planWidth
  have hcollect : collectRejectedDraftLogProbs samples options.draftBlockSize maxTokensPerSample
      lmLogProb plan.rows (samples.map fun s => padRow width .pad (s.kept firstTokenOnly)) =
      (List.range samples.length).map fun i => (samples.getD i default).collectRow
        options.draftBlockSize maxTokensPerSample (lmLogProb i) (plan.rows.getD i []) 0
        (padRow width .pad ((samples.getD i default).kept firstTokenOnly)) := by
    rw [collectRejectedDraftLogProbs_eq _ _ _ _ _ _ (List.length_map ..)]
    refine List.map_congr_left fun i hi => ?_
    rw [getD_map_of_lt _ (List.mem_range.mp hi) default]
  refine ⟨_, _, plan, hrejects, htensors, hplan, ?_, fun hfirst config hoff hon hpos hle => ?_⟩
  · rw [countDflashRejectedDraftTokens_eq h, hcollect, maskCount, List.map_map,
      ← map_range_getD samples default]
    refine congrArg (fun l => Except.ok (List.sum l)) (List.map_congr_left fun i hi => ?_)
    have hi := List.mem_range.mp hi
    obtain ⟨j, hj⟩ := hmask i hi
    have hcount := congrArg (List.countP id) hj
    rw [List.countP_map, List.countP_append, List.countP_replicate, List.countP_replicate] at hcount
    simpa using hcount.symm
  · subst hfirst
    have hrange : ¬(config.rejectedDraftPositionDecay ≤ 0 ∨
        1 < config.rejectedDraftPositionDecay) :=
      not_or.mpr ⟨not_le.mpr hpos, not_lt.mpr hle⟩
    refine ⟨_, by simp only [buildRejectedDraftPositionWeights, hoff, hon, if_neg hrange]; rfl, ?_⟩
    rw [sumDflashRejectedDraftPositionWeights_eq h maxTokensPerSample ⟨hpos, hle⟩]
    refine congrArg Except.ok ?_
    rw [maskedOffsets, hcollect, ← map_range_getD samples default, ← map_range_getD samples default,
      List.zipWith_map, List.zipWith_self, List.map_flatten, List.sum_flatten, List.map_map,
      List.map_map]
    refine congrArg List.sum (List.map_congr_left fun i hi => ?_)
    have hi := List.mem_range.mp hi
    obtain ⟨j, hj⟩ := hmask i hi
    have hk : capped maxTokensPerSample ((samples.getD i default).kept false).length ≤
        ((samples.getD i default).kept false).length := by
      cases maxTokensPerSample <;> simp [capped]
    simp only [Function.comp_apply, hj]
    rw [sum_weights_of_mask, cappedTake_eq_take, padRow, List.map_append,
      List.take_append_of_le_length (by rw [List.length_map]; exact hk), ← List.map_take,
      List.map_map]
    rfl

/-- A response of three tokens whose first block rejected its last two drafts. -/
def twoRejectSample : Sample where
  inputIds := [1, 2, 3, 4]
  promptLen := 1
  responseLen := 3
  validSeqLen := 4
  rejectTokenIndices := [2]
  anchors := [0, 0]
  offsets := [2, 3]
  tokenIds := [7, 8]
  teacherLogprobs := [⊥, ⊥]

theorem wellFormed_twoRejectSample : twoRejectSample.WellFormed 4 :=
  ⟨⟨rfl, rfl, rfl⟩, by decide, by decide, by decide⟩

theorem rejected_count_twoRejectSample : ∃ tensors plan,
    buildDflashRejectedDraftTensors (.ofSamples [twoRejectSample]) 1 true false = .ok tensors ∧
    buildOpdAnchorPlan ⟨4, 1, false, 42, true⟩ ⟨fun _ xs => xs, fun _ _ _ _ => []⟩ 4
      [twoRejectSample] [[2]] (some tensors) = .ok plan ∧
    countDflashRejectedDraftTokens (some [[7, 8]]) 1 none (some [[0, 0]]) (some [[2, 3]]) true =
      .ok (maskCount (collectRejectedDraftLogProbs [twoRejectSample] 4 none (fun _ _ _ => ⊥)
        plan.rows tensors)) := by
  have hwell : ∀ s ∈ [twoRejectSample],
      s.WellFormed (⟨4, 1, false, 42, true⟩ : AnchorOptions).draftBlockSize := by
    simpa using wellFormed_twoRejectSample
  have hlen : ∀ s ∈ [twoRejectSample], 1 ≤ s.promptLen ∧ s.promptLen + s.responseLen ≤ 4 := by
    simp [twoRejectSample]
  obtain ⟨rejects, tensors, plan, hrejects, htensors, hplan, hcount, -⟩ :=
    rejected_count_eq_mask_count hwell hlen rfl ⟨fun _ xs => xs, fun _ _ _ _ => []⟩
      (fun _ _ _ => ⊥) none true
  obtain rfl := Except.ok.inj hrejects
  exact ⟨tensors, plan, htensors, hplan, hcount⟩

end DraftOpd
