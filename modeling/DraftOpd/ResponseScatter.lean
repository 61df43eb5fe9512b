import DraftOpd.AnchorPlan
import DraftOpd.Padding
import DraftOpd.Scatter

/-!
# The rows of the response

The OPD forward writes a row of its output for every offset of every block of the anchor plan
that has a segment. The rows of a response are the segments between its boundaries, cut at the
block size, each row once (`sampleEntries_perm`, `nodup_segmentRows`).

`response_scatter` states it for a batch, up to the effective mask of the loss.
-/

namespace DraftOpd

/-! ## The scatter -/

/-- A row that the response scatter writes. -/
structure ResponseEntry where
  batchIdx : ℕ
  draftIdx : ℤ
  row : ℤ
  label : ℤ
  offset : ℕ

/-- What a block writes at an offset (`dflash_student.py:1881-1904`). -/
def responseEntry (draftBlockSize : ℕ) (inputIds : List ℤ) (validSeqLen batchIdx blockOffset : ℕ)
    (x : AnchorCell × ℕ) : Option ResponseEntry :=
  let row := x.1.rowStart + ((blockOffset : ℤ) - 1)
  let label := row + 1
  if x.1.keep = true ∧ (blockOffset : ℤ) ≤ x.1.segmentLen ∧ label < (validSeqLen : ℤ) then
    some ⟨batchIdx, x.2 * draftBlockSize + blockOffset, row, inputIds.getD label.toNat 0,
      blockOffset⟩
  else none

/-- The loop over the offsets (`dflash_student.py:1880-1904`), for every block of the batch. -/
def responseEntries (draftBlockSize : ℕ) (inputIds : List (List ℤ)) (plan : AnchorPlan) :
    List ResponseEntry :=
  (List.range' 1 (draftBlockSize - 1)).flatMap fun blockOffset =>
    plan.rows.zipIdx.flatMap fun x =>
      x.1.zipIdx.filterMap (responseEntry draftBlockSize (inputIds.getD x.2 [])
        (plan.validSeqLens.getD x.2 0) x.2 blockOffset)

/-- `by_seq[batch_tensor, row_tensor] = values` on a tensor of zeros. -/
def scatterBySeq {β : Type} (zero : β) (batchSize seqLen : ℕ) (entries : List ResponseEntry)
    (value : ResponseEntry → β) : List (List β) :=
  (List.range batchSize).map fun batchIdx => scatter (List.replicate seqLen zero)
    ((entries.filter fun entry => entry.batchIdx == batchIdx).map fun entry =>
      (entry.row.toNat, value entry))

/-- `loss_mask_by_seq`. -/
def lossMaskBySeq (batchSize seqLen : ℕ) (entries : List ResponseEntry) : List (List ℕ) :=
  scatterBySeq 0 batchSize seqLen entries fun _ => 1

/-- `response_offsets_by_seq`. -/
def responseOffsetsBySeq (batchSize seqLen : ℕ) (entries : List ResponseEntry) : List (List ℕ) :=
  scatterBySeq 0 batchSize seqLen entries ResponseEntry.offset

/-- `dflash_opd_target_token_count`. -/
def targetTokenCount (lossMask : List (List ℕ)) : ℕ := (lossMask.map List.sum).sum

/-- `get_effective_distillation_response_mask` (`losses.py:125-137`) with a padded response
mask. -/
def getEffectiveDistillationResponseMask (batch : ComposedBatch) (responseMask : List (List Bool))
    (opdLossMask : Option (SequenceOutput ℕ)) : Except LayoutError (List (List Bool)) :=
  match opdLossMask with
  | none => .ok responseMask
  | some opdLossMask => do
    let mask ← noPadding2Padding 0 opdLossMask batch
    if mask.map List.length ≠ responseMask.map List.length then
      throw .maskShape
    return List.zipWith (List.zipWith fun response opd => response && opd != 0) responseMask mask

/-! ## The entries of a sample -/

/-- The entries of a batch for one of its rows are those of the row's blocks. -/
theorem filter_flatMap_zipIdx {α β : Type*} (key : β → ℕ) (f : α × ℕ → List β)
    (hkey : ∀ x, ∀ e ∈ f x, key e = x.2) : ∀ (xs : List α) (n i : ℕ),
    ((xs.zipIdx n).flatMap f).filter (fun e => key e == n + i) =
      ((xs[i]?).map fun x => f (x, n + i)).getD []
  | [], _, _ => by simp
  | x :: xs, n, 0 => by
    have hhead : (f (x, n)).filter (fun e => key e == n) = f (x, n) :=
      List.filter_eq_self.mpr fun e he => by simp [hkey _ e he]
    have hrest : ((xs.zipIdx (n + 1)).flatMap f).filter (fun e => key e == n) = [] := by
      rw [List.filter_eq_nil_iff]
      intro e he
      obtain ⟨y, hy, he⟩ := List.mem_flatMap.mp he
      have hle := (List.mem_zipIdx hy).1
      rw [hkey y e he, beq_iff_eq]
      omega
    rw [List.zipIdx_cons, List.flatMap_cons, List.filter_append, Nat.add_zero, hhead, hrest,
      List.append_nil]
    rfl
  | x :: xs, n, i + 1 => by
    have hhead : (f (x, n)).filter (fun e => key e == n + (i + 1)) = [] := by
      rw [List.filter_eq_nil_iff]
      intro e he
      rw [hkey _ e he, beq_iff_eq]
      omega
    have hrest := filter_flatMap_zipIdx key f hkey xs (n + 1) i
    rw [Nat.add_assoc, Nat.add_comm 1 i] at hrest
    rw [List.zipIdx_cons, List.flatMap_cons, List.filter_append, hhead, hrest, List.nil_append,
      List.getElem?_cons_succ]

/-- The entry of the block of a segment at an offset. -/
def offsetEntry (draftBlockSize : ℕ) (s : Sample) (batchIdx : ℕ) (x : (ℤ × ℤ) × ℕ) (o : ℕ) :
    ResponseEntry :=
  ⟨batchIdx, x.2 * draftBlockSize + o, s.promptLen + x.1.1 + ((o : ℤ) - 1),
    s.inputIds.getD (s.promptLen + x.1.1 + ((o : ℤ) - 1) + 1).toNat 0, o⟩

/-- The length of a segment, cut at the block size. -/
def segmentSize (draftBlockSize : ℕ) (p : ℤ × ℤ) : ℕ :=
  (min (p.2 - p.1) ((draftBlockSize : ℤ) - 1)).toNat

/-- The entries of a segment. -/
def segmentEntries (draftBlockSize : ℕ) (s : Sample) (batchIdx : ℕ) (x : (ℤ × ℤ) × ℕ) :
    List ResponseEntry :=
  (List.range' 1 (segmentSize draftBlockSize x.1)).map (offsetEntry draftBlockSize s batchIdx x)

/-- A loop that takes the offsets up to a bound. -/
theorem flatMap_range'_le {β : Type*} (g : ℕ → β) {m n : ℕ} (h : m ≤ n) :
    ((List.range' 1 n).flatMap fun o => (if o ≤ m then some (g o) else none).toList) =
      (List.range' 1 m).map g := by
  have hsplit : List.range' 1 n = List.range' 1 m ++ List.range' (1 + m) (n - m) := by
    rw [List.range'_append_1, Nat.add_sub_cancel' h]
  have hlow : ∀ o ∈ List.range' 1 m, (if o ≤ m then some (g o) else none).toList = [g o] := by
    intro o ho
    rw [if_pos (by have := List.mem_range'_1.mp ho; omega)]
    rfl
  have hhigh : ∀ o ∈ List.range' (1 + m) (n - m),
      (if o ≤ m then some (g o) else none).toList = [] := by
    intro o ho
    rw [if_neg (by have := List.mem_range'_1.mp ho; omega)]
    rfl
  rw [hsplit, List.flatMap_append, List.flatMap_congr hlow, List.flatMap_congr hhigh,
    ← List.map_eq_flatMap]
  simp

section Sample

variable {draftBlockSize batchIdx : ℕ} {s : Sample} {rawRejects : List ℤ}

/-- The entry of a block of the response at an offset of its segment. -/
theorem responseEntry_responseBlock (hvalid : s.validSeqLen = s.promptLen + s.responseLen)
    {x : (ℤ × ℤ) × ℕ} (hx : x.1 ∈ pairs (-1) (s.boundaries rawRejects)) {o : ℕ} (ho : 1 ≤ o) :
    responseEntry draftBlockSize s.inputIds s.validSeqLen batchIdx o
      (AnchorBlock.cell ⟨s.promptLen + x.1.1, min (x.1.2 - x.1.1) ((draftBlockSize : ℤ) - 1),
        s.promptLen + x.1.1⟩, x.2) =
    if o ≤ segmentSize draftBlockSize x.1 then
      some (offsetEntry draftBlockSize s batchIdx x o)
    else none := by
  obtain ⟨-, hlt, hend⟩ := Sample.pair_range hx
  simp only [responseEntry, AnchorBlock.cell, true_and]
  by_cases hle : (o : ℤ) ≤ min (x.1.2 - x.1.1) ((draftBlockSize : ℤ) - 1)
  · have hlabel : (s.promptLen : ℤ) + x.1.1 + ((o : ℤ) - 1) + 1 < (s.validSeqLen : ℤ) := by omega
    rw [if_pos ⟨hle, hlabel⟩, if_pos (by rw [segmentSize]; omega)]
    rfl
  · rw [if_neg fun h => hle h.1, if_neg (by rw [segmentSize]; omega)]

/-- A block without a segment writes nothing, nor does the padding of the plan. -/
theorem responseEntry_eq_none {inputIds : List ℤ} {validSeqLen o : ℕ} (ho : 1 ≤ o)
    {x : AnchorCell × ℕ} (hx : x.1.keep = true → x.1.segmentLen ≤ 0) :
    responseEntry draftBlockSize inputIds validSeqLen batchIdx o x = none := by
  simp only [responseEntry]
  refine if_neg fun h => ?_
  have hlen := hx h.1
  have hle := h.2.1
  omega

/-- What the blocks of a sample write at an offset : those of its segments. -/
theorem filterMap_responseEntry (hvalid : s.validSeqLen = s.promptLen + s.responseLen)
    {added : List AnchorBlock} (hadded : ∀ block ∈ added, block.segmentLen = 0) (width : ℕ)
    {o : ℕ} (ho : 1 ≤ o) :
    (padRow width .pad ((s.responseBlocks draftBlockSize rawRejects ++ added).map
        AnchorBlock.cell)).zipIdx.filterMap
      (responseEntry draftBlockSize s.inputIds s.validSeqLen batchIdx o) =
    (pairs (-1) (s.boundaries rawRejects)).zipIdx.flatMap fun x =>
      (if o ≤ segmentSize draftBlockSize x.1 then
        some (offsetEntry draftBlockSize s batchIdx x o) else none).toList := by
  have hrest : ∀ k n : ℕ, ((added.map AnchorBlock.cell ++ List.replicate k AnchorCell.pad).zipIdx
        n).filterMap
      (responseEntry draftBlockSize s.inputIds s.validSeqLen batchIdx o) = [] := by
    intro k n
    rw [List.filterMap_eq_nil_iff]
    intro x hx
    refine responseEntry_eq_none ho fun hkeep => ?_
    rcases List.mem_append.mp (List.fst_mem_of_mem_zipIdx hx) with hcell | hcell
    · obtain ⟨block, hblock, heq⟩ := List.mem_map.mp hcell
      rw [← heq]
      exact (hadded block hblock).le
    · rw [List.eq_of_mem_replicate hcell] at hkeep
      cases hkeep
  rw [padRow, List.map_append, List.append_assoc, List.zipIdx_append, List.filterMap_append,
    hrest, List.append_nil, Sample.responseBlocks, List.map_map, List.zipIdx_map,
    List.filterMap_map, List.filterMap_eq_flatMap_toList]
  refine List.flatMap_congr fun x hx => ?_
  exact congrArg _ (responseEntry_responseBlock hvalid (List.fst_mem_of_mem_zipIdx hx) ho)

/-- The entries of a sample, offset by offset, are those of its segments. -/
theorem sampleEntries_perm (hvalid : s.validSeqLen = s.promptLen + s.responseLen)
    {added : List AnchorBlock} (hadded : ∀ block ∈ added, block.segmentLen = 0) (width : ℕ) :
    ((List.range' 1 (draftBlockSize - 1)).flatMap fun o =>
      (padRow width .pad ((s.responseBlocks draftBlockSize rawRejects ++ added).map
        AnchorBlock.cell)).zipIdx.filterMap
      (responseEntry draftBlockSize s.inputIds s.validSeqLen batchIdx o)).Perm
    ((pairs (-1) (s.boundaries rawRejects)).zipIdx.flatMap
      (segmentEntries draftBlockSize s batchIdx)) := by
  have hoffsets : ((List.range' 1 (draftBlockSize - 1)).flatMap fun o =>
      (padRow width .pad ((s.responseBlocks draftBlockSize rawRejects ++ added).map
        AnchorBlock.cell)).zipIdx.filterMap
      (responseEntry draftBlockSize s.inputIds s.validSeqLen batchIdx o)) =
      (List.range' 1 (draftBlockSize - 1)).flatMap fun o =>
        (pairs (-1) (s.boundaries rawRejects)).zipIdx.flatMap fun x =>
          (if o ≤ segmentSize draftBlockSize x.1 then
            some (offsetEntry draftBlockSize s batchIdx x o) else none).toList :=
    List.flatMap_congr fun o ho =>
      filterMap_responseEntry hvalid hadded width (List.mem_range'_1.mp ho).1
  rw [hoffsets]
  refine (flatMap_comm_perm _ _ _).trans (List.Perm.of_eq (List.flatMap_congr fun x _ => ?_))
  exact flatMap_range'_le _ (by rw [segmentSize]; omega)

/-- The rows of the segments between the boundaries. -/
def segmentRows (draftBlockSize : ℕ) (s : Sample) (segments : List (ℤ × ℤ)) : List ℤ :=
  segments.flatMap fun p => (List.range (segmentSize draftBlockSize p)).map fun t : ℕ =>
    (s.promptLen : ℤ) + p.1 + t

theorem map_row_segmentEntries (segments : List (ℤ × ℤ)) :
    (segments.zipIdx.flatMap (segmentEntries draftBlockSize s batchIdx)).map ResponseEntry.row =
      segmentRows draftBlockSize s segments := by
  have hinner : ∀ x : (ℤ × ℤ) × ℕ,
      (segmentEntries draftBlockSize s batchIdx x).map ResponseEntry.row =
        (List.range (segmentSize draftBlockSize x.1)).map fun t : ℕ =>
          (s.promptLen : ℤ) + x.1.1 + t := by
    intro x
    rw [segmentEntries, List.range'_eq_map_range, List.map_map, List.map_map]
    refine List.map_congr_left fun t _ => ?_
    simp only [Function.comp_apply, offsetEntry]
    omega
  rw [List.map_flatMap]
  simp only [hinner]
  rw [segmentRows, ← List.flatMap_map (f := Prod.fst) (g := fun p : ℤ × ℤ =>
    (List.range (segmentSize draftBlockSize p)).map fun t : ℕ => (s.promptLen : ℤ) + p.1 + t),
    List.zipIdx_map_fst]

/-- Segments between increasing boundaries do not share a row. -/
theorem nodup_segmentRows : ∀ {a : ℤ} {l : List ℤ}, (a :: l).Pairwise (· < ·) →
    (segmentRows draftBlockSize s (pairs a l)).Nodup ∧
      ∀ r ∈ segmentRows draftBlockSize s (pairs a l), s.promptLen + a ≤ r
  | _, [], _ => ⟨List.nodup_nil, fun r hr => absurd hr List.not_mem_nil⟩
  | a, b :: l, h => by
    obtain ⟨hlt, htail⟩ := List.pairwise_cons.mp h
    have hab := hlt b List.mem_cons_self
    obtain ⟨hnodup, hge⟩ := nodup_segmentRows htail
    rw [pairs_cons, segmentRows, List.flatMap_cons]
    have hfirst : ∀ r ∈ (List.range (segmentSize draftBlockSize (a, b))).map
        fun t : ℕ => (s.promptLen : ℤ) + a + t, s.promptLen + a ≤ r ∧ r < s.promptLen + b := by
      intro r hr
      obtain ⟨t, ht, rfl⟩ := List.mem_map.mp hr
      have hsize := List.mem_range.mp ht
      rw [segmentSize] at hsize
      omega
    refine ⟨List.nodup_append.mpr ⟨?_, hnodup, ?_⟩, fun r hr => ?_⟩
    · exact List.nodup_range.map fun t t' heq => by
        simp only at heq
        omega
    · intro r hr r' hr' heq
      have hlow := (hfirst r hr).2
      have hhigh := hge r' hr'
      omega
    · rcases List.mem_append.mp hr with hr | hr
      · exact (hfirst r hr).1
      · have hle := hge r hr
        omega

/-- A row of a segment is the one before a token of the response. -/
theorem segmentEntry_range {x : (ℤ × ℤ) × ℕ} (hx : x.1 ∈ pairs (-1) (s.boundaries rawRejects))
    {e : ResponseEntry} (he : e ∈ segmentEntries draftBlockSize s batchIdx x) :
    (s.promptLen : ℤ) - 1 ≤ e.row ∧ e.row ≤ s.promptLen + s.responseLen - 2 ∧
      e.batchIdx = batchIdx ∧ e.label = s.inputIds.getD (e.row + 1).toNat 0 ∧
      e.row = s.promptLen + x.1.1 + ((e.offset : ℤ) - 1) ∧
      e.draftIdx = x.2 * draftBlockSize + e.offset ∧
      1 ≤ e.offset ∧ e.offset ≤ segmentSize draftBlockSize x.1 := by
  obtain ⟨hge, hlt, hend⟩ := Sample.pair_range hx
  obtain ⟨o, ho, rfl⟩ := List.mem_map.mp he
  have hrange := List.mem_range'_1.mp ho
  have hsize := hrange.2
  rw [segmentSize] at hsize
  refine ⟨?_, ?_, rfl, rfl, rfl, rfl, hrange.1, by simp only [offsetEntry]; omega⟩
  · simp only [offsetEntry]
    omega
  · simp only [offsetEntry]
    omega

end Sample

/-! ## The entries of a batch -/

section Batch

variable {options : AnchorOptions} (rng : SeededRandom) {seqLen : ℕ}
  (hstride : options.responseAnchorStride ≤ 1)
  (hrandom : options.randomResponseAnchorEnabled = false)

include hstride hrandom

/-- The blocks of a sample are those of its segments, then blocks without a segment. -/
theorem sampleAnchorPlan_segments {batchIdx : ℕ} {s : Sample} {rawRejects : List ℤ}
    {rejectedDrafts : Option (List RejectedCell)} (hprompt : 1 ≤ s.promptLen)
    (hseq : s.promptLen + s.responseLen ≤ seqLen) :
    ∃ plan added, sampleAnchorPlan options rng seqLen batchIdx s rawRejects rejectedDrafts =
        .ok plan ∧ plan.blocks = s.responseBlocks options.draftBlockSize rawRejects ++ added ∧
      ∀ block ∈ added, block.segmentLen = 0 := by
  obtain ⟨plan, segments, hplan, hsegments, hblocks⟩ := sampleAnchorPlan_planned options rng
    seqLen batchIdx s rawRejects rejectedDrafts
  obtain ⟨added, hfold, -, hfrom, -⟩ := s.addRejectedAnchors_spec seqLen options.draftBlockSize
    (if options.includeRejectedDraftAnchors then rejectedDrafts.getD [] else [])
    (s.responseBlocks options.draftBlockSize rawRejects)
  refine ⟨plan, added, hplan, ?_, fun block hblock => (hfrom block hblock).1⟩
  rw [hblocks, hsegments.place_eq hstride hrandom hprompt hseq, hfold]

/-- The plan of a batch, row by row. -/
theorem buildOpdAnchorPlan_segments {samples : List Sample}
    (hprompt : ∀ s ∈ samples, 1 ≤ s.promptLen)
    (hseq : ∀ s ∈ samples, s.promptLen + s.responseLen ≤ seqLen)
    (rejectTokenIndices : List (List ℤ)) (rejectedDrafts : Option (List (List RejectedCell))) :
    ∃ (plan : AnchorPlan) (added : ℕ → List AnchorBlock) (width : ℕ),
      buildOpdAnchorPlan options rng seqLen samples rejectTokenIndices rejectedDrafts = .ok plan ∧
      plan.validSeqLens = samples.map Sample.validSeqLen ∧
      ∀ (i : ℕ) (s : Sample), samples[i]? = some s →
        plan.rows[i]? = some (padRow width .pad ((s.responseBlocks options.draftBlockSize
          (rejectTokenIndices.getD i []) ++ added i).map AnchorBlock.cell)) ∧
        ∀ block ∈ added i, block.segmentLen = 0 := by
  obtain ⟨plans, hbuild, hplans⟩ := buildOpdAnchorPlan_eq options rng seqLen samples
    rejectTokenIndices rejectedDrafts
  have hsample : ∀ i : ℕ, ∃ added : List AnchorBlock, i < samples.length →
      (plans i).blocks = (samples.getD i default).responseBlocks options.draftBlockSize
        (rejectTokenIndices.getD i []) ++ added ∧ ∀ block ∈ added, block.segmentLen = 0 := by
    intro i
    by_cases hi : i < samples.length
    · have hmem := getD_mem hi default
      obtain ⟨plan, added, hplan, hblocks, hadded⟩ := sampleAnchorPlan_segments rng hstride hrandom
        (hprompt _ hmem) (hseq _ hmem)
      obtain rfl : plan = plans i := Except.ok.inj (hplan.symm.trans (hplans i))
      exact ⟨added, fun _ => ⟨hblocks, hadded⟩⟩
    · exact ⟨[], fun h => absurd h hi⟩
  choose added hadded using hsample
  refine ⟨_, added,
    max (maxLength (((List.range samples.length).map plans).map SamplePlan.blocks)) 1, hbuild, rfl,
    fun i s hs => ?_⟩
  have hi := (List.getElem?_eq_some_iff.mp hs).1
  have hget : samples.getD i default = s := by
    rw [List.getD_eq_getElem?_getD, hs, Option.getD_some]
  obtain ⟨hblocks, hzero⟩ := hadded i hi
  rw [hget] at hblocks
  refine ⟨?_, hzero⟩
  simp only [padAnchorPlan, List.getElem?_map, List.getElem?_range hi, Option.map_some, hblocks]

omit hstride hrandom

/-- The entries of a sample in the batch are those of its segments. -/
theorem batchEntries_perm {draftBlockSize : ℕ} {samples : List Sample} {plan : AnchorPlan}
    (hvalidLens : plan.validSeqLens = samples.map Sample.validSeqLen) {i : ℕ} {s : Sample}
    (hs : samples[i]? = some s) {rawRejects : List ℤ} {added : List AnchorBlock} {width : ℕ}
    (hrow : plan.rows[i]? = some (padRow width .pad ((s.responseBlocks draftBlockSize rawRejects ++
      added).map AnchorBlock.cell))) (hadded : ∀ block ∈ added, block.segmentLen = 0)
    (hvalid : s.validSeqLen = s.promptLen + s.responseLen) :
    ((responseEntries draftBlockSize (samples.map Sample.inputIds) plan).filter
        fun e => e.batchIdx == i).Perm
      ((pairs (-1) (s.boundaries rawRejects)).zipIdx.flatMap
        (segmentEntries draftBlockSize s i)) := by
  have hids : (samples.map Sample.inputIds).getD i [] = s.inputIds := by
    rw [List.getD_eq_getElem?_getD, List.getElem?_map, hs]
    rfl
  have hlen : plan.validSeqLens.getD i 0 = s.validSeqLen := by
    rw [hvalidLens, List.getD_eq_getElem?_getD, List.getElem?_map, hs]
    rfl
  have hfilter : ((responseEntries draftBlockSize (samples.map Sample.inputIds) plan).filter
      fun e => e.batchIdx == i) = (List.range' 1 (draftBlockSize - 1)).flatMap fun o =>
        (padRow width .pad ((s.responseBlocks draftBlockSize rawRejects ++ added).map
          AnchorBlock.cell)).zipIdx.filterMap
          (responseEntry draftBlockSize s.inputIds s.validSeqLen i o) := by
    rw [responseEntries, List.filter_flatMap]
    refine List.flatMap_congr fun o _ => ?_
    have hkey := filter_flatMap_zipIdx ResponseEntry.batchIdx (fun x : List AnchorCell × ℕ =>
      x.1.zipIdx.filterMap (responseEntry draftBlockSize
        ((samples.map Sample.inputIds).getD x.2 []) (plan.validSeqLens.getD x.2 0) x.2 o))
      (fun x e he => by
        obtain ⟨c, -, hc⟩ := List.mem_filterMap.mp he
        simp only [responseEntry] at hc
        split_ifs at hc
        rw [← Option.some.inj hc]) plan.rows 0 i
    rw [Nat.zero_add] at hkey
    rw [hkey, hrow, Option.map_some, Option.getD_some, hids, hlen]
  rw [hfilter]
  exact sampleEntries_perm hvalid hadded width

end Batch

/-! ## The masks -/

/-- A mask that is written at rows of its own holds `1` there and `0` elsewhere. -/
theorem getElem?_scatter_mask {seqLen : ℕ} {rows : List ℕ} (hnodup : rows.Nodup) {r : ℕ}
    (hr : r < seqLen) : (scatter (List.replicate seqLen 0) (rows.map fun row => (row, 1)))[r]? =
      some (if r ∈ rows then 1 else 0) := by
  have hfst : (rows.map fun row => (row, 1)).map Prod.fst = rows := by
    rw [List.map_map]
    exact List.map_id _
  by_cases hmem : r ∈ rows
  · rw [if_pos hmem]
    refine getElem?_scatter_of_mem (by rw [hfst]; exact hnodup) (List.mem_map_of_mem hmem) ?_
    rw [List.length_replicate]
    exact hr
  · rw [if_neg hmem, getElem?_scatter_of_notMem (by rw [hfst]; exact hmem),
      List.getElem?_replicate_of_lt hr]

/-- The effective positions of a row whose `0`/`1` mask is inside the response mask. -/
theorem count_effective : ∀ {mask : List Bool} {ys : List ℕ}, ys.length = mask.length →
    (∀ j y : ℕ, ys[j]? = some y → y = 0 ∨ y = 1 ∧ mask[j]? = some true) →
    (List.zipWith (fun response opd => response && opd != 0) mask ys).count true = ys.sum
  | [], [], _, _ => rfl
  | m :: mask, y :: ys, hlen, h => by
    have hrest := @count_effective mask ys (by simpa using hlen) fun j z hz => h (j + 1) z hz
    rw [List.zipWith_cons_cons, List.count_cons, hrest, List.sum_cons]
    rcases h 0 y rfl with rfl | ⟨rfl, hm⟩
    · simp
    · obtain rfl : m = true := by simpa using hm
      simp [Nat.add_comm]

/-! ## The response -/

/-- The boundaries are the reject indices inside the response, and its last index. -/
theorem Sample.mem_boundaries {s : Sample} {rawRejects : List ℤ} {x : ℤ} :
    x ∈ s.boundaries rawRejects ↔ (x ∈ rawRejects ∧ 0 ≤ x ∧ x < s.responseLen) ∨
      (x = (s.responseLen : ℤ) - 1 ∧ ∃ y ∈ rawRejects, 0 ≤ y ∧ y < s.responseLen) := by
  by_cases h : s.rejects rawRejects = []
  · have hnone : ¬∃ y ∈ rawRejects, 0 ≤ y ∧ y < (s.responseLen : ℤ) := fun ⟨y, hy⟩ =>
      absurd (Sample.mem_rejects.mpr hy) (by rw [h]; exact List.not_mem_nil)
    rw [Sample.boundaries_of_rejects_nil h]
    constructor
    · exact fun hx => absurd hx List.not_mem_nil
    · rintro (hx | ⟨-, hy⟩)
      · exact absurd ⟨x, hx⟩ hnone
      · exact absurd hy hnone
  · obtain ⟨tail, heq, htail⟩ := Sample.boundaries_eq h
    have hlast := Sample.mem_rejects.mp (List.getLast_mem h)
    rw [heq, List.mem_append, Sample.mem_rejects]
    rcases htail with ⟨rfl, hend⟩ | ⟨rfl, -⟩
    · refine ⟨fun hx => Or.inl (hx.resolve_right List.not_mem_nil), ?_⟩
      rintro (hx | ⟨rfl, -⟩)
      · exact Or.inl hx
      · rw [hend] at hlast
        exact Or.inl hlast
    · rw [List.mem_singleton]
      exact or_congr_right ⟨fun hx => ⟨hx, _, hlast⟩, fun hx => hx.1⟩

theorem Sample.getLast?_boundaries {s : Sample} {rawRejects : List ℤ}
    (h : ∃ y ∈ rawRejects, 0 ≤ y ∧ y < (s.responseLen : ℤ)) :
    (s.boundaries rawRejects).getLast? = some ((s.responseLen : ℤ) - 1) := by
  obtain ⟨y, hy⟩ := h
  have hne : s.rejects rawRejects ≠ [] := List.ne_nil_of_mem (Sample.mem_rejects.mpr hy)
  obtain ⟨tail, heq, htail⟩ := Sample.boundaries_eq hne
  rw [heq]
  rcases htail with ⟨rfl, hend⟩ | ⟨rfl, -⟩
  · rw [List.append_nil, List.getLast?_eq_some_getLast hne, hend]
  · rw [List.getLast?_concat]

/-- The samples of a micro-batch, with the rows that the composed model is given. -/
structure PaddedBatch.Holds (b : PaddedBatch) (padTokenId : ℤ) (samples : List Sample) :
    Prop where
  length_eq : samples.length = b.rows.length
  lengths : ∀ (i : ℕ) (s : Sample) (row : List PaddedToken), samples[i]? = some s →
    b.rows[i]? = some row → s.promptLen = b.promptLen row ∧ s.responseLen = b.responseLen row
  attended : ∀ s ∈ samples, s.validSeqLen = s.promptLen + s.responseLen
  ids : ∀ (i : ℕ) (s : Sample) (row : List PaddedToken), samples[i]? = some s →
    b.rows[i]? = some row →
    s.inputIds = padTo padTokenId b.maxSeqLen ((PaddedBatch.valid row).map PaddedToken.id)

/-- What the scatter writes for a sample whose row of the plan is `planRow`. -/
structure Sample.ResponseRows (s : Sample) (draftBlockSize : ℕ) (rawRejects : List ℤ)
    (planRow : List AnchorCell) (entries : List ResponseEntry) : Prop where
  increasing : (-1 :: s.boundaries rawRejects).Pairwise (· < ·)
  boundary : ∀ x, x ∈ s.boundaries rawRejects ↔
    (x ∈ rawRejects ∧ 0 ≤ x ∧ x < s.responseLen) ∨
      (x = (s.responseLen : ℤ) - 1 ∧ ∃ y ∈ rawRejects, 0 ≤ y ∧ y < s.responseLen)
  last : (∃ y ∈ rawRejects, 0 ≤ y ∧ y < (s.responseLen : ℤ)) →
    (s.boundaries rawRejects).getLast? = some ((s.responseLen : ℤ) - 1)
  rows : (entries.map ResponseEntry.row).Perm
    (segmentRows draftBlockSize s (pairs (-1) (s.boundaries rawRejects)))
  nodup : (entries.map ResponseEntry.row).Nodup
  range : ∀ e ∈ entries, (s.promptLen : ℤ) - 1 ≤ e.row ∧ e.row ≤ s.promptLen + s.responseLen - 2
  label : ∀ e ∈ entries, s.inputIds[(e.row + 1).toNat]? = some e.label
  offset : ∀ e ∈ entries, ∃ p ∈ pairs (-1) (s.boundaries rawRejects),
    e.row = s.promptLen + p.1 + ((e.offset : ℤ) - 1) ∧ 1 ≤ e.offset ∧
      e.offset ≤ segmentSize draftBlockSize p
  added : ∃ (added : List AnchorBlock) (width : ℕ),
    planRow = padRow width .pad ((s.responseBlocks draftBlockSize rawRejects ++ added).map
      AnchorBlock.cell) ∧ (∀ block ∈ added, block.segmentLen = 0) ∧
    ∀ e ∈ entries, ∃ j < (s.responseBlocks draftBlockSize rawRejects).length,
      e.draftIdx = j * draftBlockSize + e.offset

/-- The entries of the segments of a sample, in any order. -/
theorem Sample.responseRows_of_perm {s : Sample} {draftBlockSize i : ℕ} {rawRejects : List ℤ}
    {added : List AnchorBlock} {width : ℕ} {entries : List ResponseEntry}
    (hadded : ∀ block ∈ added, block.segmentLen = 0) (hprompt : 1 ≤ s.promptLen)
    (hids : s.promptLen + s.responseLen ≤ s.inputIds.length)
    (hperm : entries.Perm ((pairs (-1) (s.boundaries rawRejects)).zipIdx.flatMap
      (segmentEntries draftBlockSize s i))) :
    s.ResponseRows draftBlockSize rawRejects (padRow width .pad
      ((s.responseBlocks draftBlockSize rawRejects ++ added).map AnchorBlock.cell)) entries := by
  have hrows : (entries.map ResponseEntry.row).Perm
      (segmentRows draftBlockSize s (pairs (-1) (s.boundaries rawRejects))) := by
    have hmap := hperm.map ResponseEntry.row
    rwa [map_row_segmentEntries] at hmap
  have hentry : ∀ e ∈ entries, ∃ x ∈ (pairs (-1) (s.boundaries rawRejects)).zipIdx,
      e ∈ segmentEntries draftBlockSize s i x := fun e he =>
    List.mem_flatMap.mp (hperm.mem_iff.mp he)
  have hpair : ∀ {x : (ℤ × ℤ) × ℕ}, x ∈ (pairs (-1) (s.boundaries rawRejects)).zipIdx →
      x.1 ∈ pairs (-1) (s.boundaries rawRejects) := fun hx => List.fst_mem_of_mem_zipIdx hx
  refine ⟨s.pairwise_boundaries rawRejects, fun x => mem_boundaries, getLast?_boundaries, hrows,
    hrows.nodup_iff.mpr (nodup_segmentRows (s.pairwise_boundaries rawRejects)).1,
    fun e he => ?_, fun e he => ?_, fun e he => ?_, added, width, rfl, hadded, fun e he => ?_⟩
  · obtain ⟨x, hx, hmem⟩ := hentry e he
    obtain ⟨hlow, hhigh, -⟩ := segmentEntry_range (hpair hx) hmem
    exact ⟨hlow, hhigh⟩
  · obtain ⟨x, hx, hmem⟩ := hentry e he
    obtain ⟨hlow, hhigh, -, hlabel, -⟩ := segmentEntry_range (hpair hx) hmem
    rw [hlabel, List.getD_eq_getElem _ _ (by omega), List.getElem?_eq_getElem]
  · obtain ⟨x, hx, hmem⟩ := hentry e he
    obtain ⟨-, -, -, -, hrow, -, hpos, hle⟩ := segmentEntry_range (hpair hx) hmem
    exact ⟨x.1, hpair hx, hrow, hpos, hle⟩
  · obtain ⟨x, hx, hmem⟩ := hentry e he
    obtain ⟨-, -, -, -, -, hdraft, -⟩ := segmentEntry_range (hpair hx) hmem
    refine ⟨x.2, ?_, hdraft⟩
    rw [responseBlocks, List.length_map]
    exact List.snd_lt_of_mem_zipIdx hx

/-- The rows of the entries of a sample are distinct positions. -/
theorem Sample.ResponseRows.nodup_rows {s : Sample} {draftBlockSize : ℕ} {rawRejects : List ℤ}
    {planRow : List AnchorCell} {entries : List ResponseEntry}
    (h : s.ResponseRows draftBlockSize rawRejects planRow entries) (hprompt : 1 ≤ s.promptLen) :
    ((entries.map ResponseEntry.row).map Int.toNat).Nodup := by
  refine List.Nodup.map_on (fun r hr r' hr' heq => ?_) h.nodup
  obtain ⟨e₁, he₁, rfl⟩ := List.mem_map.mp hr
  obtain ⟨e₂, he₂, rfl⟩ := List.mem_map.mp hr'
  have h₁ := (h.range e₁ he₁).1
  have h₂ := (h.range e₂ he₂).1
  omega

/-- The values that the scatter writes for a sample stay where they are written. -/
theorem Sample.ResponseRows.written {s : Sample} {draftBlockSize i batchSize seqLen : ℕ}
    {rawRejects : List ℤ} {planRow : List AnchorCell} {entries : List ResponseEntry}
    (h : s.ResponseRows draftBlockSize rawRejects planRow
      (entries.filter fun e => e.batchIdx == i)) (hi : i < batchSize) (hprompt : 1 ≤ s.promptLen)
    (hseq : s.promptLen + s.responseLen ≤ seqLen) {β : Type} (zero : β)
    (value : ResponseEntry → β) {e : ResponseEntry}
    (he : e ∈ entries.filter fun e => e.batchIdx == i) :
    ((scatterBySeq zero batchSize seqLen entries value).getD i [])[e.row.toNat]? =
      some (value e) := by
  have hget : (scatterBySeq zero batchSize seqLen entries value).getD i [] =
      scatter (List.replicate seqLen zero) ((entries.filter fun e => e.batchIdx == i).map
        fun e => (e.row.toNat, value e)) := by
    rw [scatterBySeq, List.getD_eq_getElem?_getD, List.getElem?_map, List.getElem?_range hi]
    rfl
  have hnodup : (((entries.filter fun e => e.batchIdx == i).map fun e =>
      (e.row.toNat, value e)).map Prod.fst).Nodup := by
    have hmap : ((entries.filter fun e => e.batchIdx == i).map fun e =>
        (e.row.toNat, value e)).map Prod.fst =
          ((entries.filter fun e => e.batchIdx == i).map ResponseEntry.row).map Int.toNat := by
      rw [List.map_map, List.map_map]
      rfl
    rw [hmap]
    exact h.nodup_rows hprompt
  have hrange := h.range e he
  rw [hget]
  refine getElem?_scatter_of_mem hnodup (List.mem_map_of_mem he) ?_
  rw [List.length_replicate]
  omega

/-- The loss mask of a sample is `0` outside its response. -/
theorem Sample.ResponseRows.lossMask {s : Sample} {draftBlockSize i batchSize : ℕ} (seqLen : ℕ)
    {rawRejects : List ℤ} {planRow : List AnchorCell} {entries : List ResponseEntry}
    (h : s.ResponseRows draftBlockSize rawRejects planRow
      (entries.filter fun e => e.batchIdx == i)) (hi : i < batchSize) (hprompt : 1 ≤ s.promptLen) :
    ∃ xs, (lossMaskBySeq batchSize seqLen entries)[i]? = some xs ∧ xs.length = seqLen ∧
      ∀ r x : ℕ, xs[r]? = some x → (x = 0 ∨ x = 1) ∧
        (r < s.promptLen - 1 ∨ s.promptLen - 1 + s.responseLen ≤ r → x = 0) := by
  have hmap : ((entries.filter fun e => e.batchIdx == i).map fun e => (e.row.toNat, 1)) =
      (((entries.filter fun e => e.batchIdx == i).map ResponseEntry.row).map Int.toNat).map
        fun row => (row, 1) := by
    rw [List.map_map, List.map_map]
    rfl
  refine ⟨scatter (List.replicate seqLen 0) ((entries.filter fun e => e.batchIdx == i).map
    fun e => (e.row.toNat, 1)), ?_, ?_, fun r x hx => ?_⟩
  · rw [lossMaskBySeq, scatterBySeq, List.getElem?_map, List.getElem?_range hi]
    rfl
  · rw [length_scatter, List.length_replicate]
  · have hr := (List.getElem?_eq_some_iff.mp hx).1
    rw [length_scatter, List.length_replicate] at hr
    rw [hmap, getElem?_scatter_mask (h.nodup_rows hprompt) hr] at hx
    obtain rfl := Option.some.inj hx
    refine ⟨by split_ifs <;> simp, fun hout => if_neg fun hmem => ?_⟩
    obtain ⟨row, hrow, heq⟩ := List.mem_map.mp hmem
    obtain ⟨e, he, rfl⟩ := List.mem_map.mp hrow
    have hrange := h.range e he
    omega

/-- A `0`/`1` mask that is `0` outside the responses loses no entry on its way to the loss. -/
theorem PaddedBatch.count_effectiveMask {b : PaddedBatch} (padTokenId : ℤ)
    (hprompt : ∀ row ∈ b.rows, 1 ≤ b.promptLen row) {lossMask : List (List ℕ)}
    (hlen : lossMask.length = b.rows.length) (hwidth : ∀ xs ∈ lossMask, xs.length = b.maxSeqLen)
    (hinside : ∀ (i : ℕ) (row : List PaddedToken) (xs : List ℕ), b.rows[i]? = some row →
      lossMask[i]? = some xs → ∀ r x : ℕ, xs[r]? = some x → (x = 0 ∨ x = 1) ∧
        (r < b.promptLen row - 1 ∨ b.promptLen row - 1 + b.responseLen row ≤ r → x = 0))
    {responseMask : List (List Bool)} (hmask : responseMask.length = b.rows.length)
    (hones : ∀ (i : ℕ) (row : List PaddedToken) (mask : List Bool), b.rows[i]? = some row →
      responseMask[i]? = some mask → mask.length = b.responseWidth ∧
        ∀ j < b.responseLen row, mask[j]? = some true) {batch : ComposedBatch}
    (hbatch : batch ∈ [b.toBatch padTokenId, leftRight2NoPadding (b.toBatch padTokenId)]) :
    ∃ effective, getEffectiveDistillationResponseMask batch responseMask
        (some (formatDflashSequenceOutput batch lossMask)) = .ok effective ∧
      (effective.map (List.count true)).sum = targetTokenCount lossMask := by
  obtain ⟨out, heq, houtLen, hcells⟩ :=
    b.noPadding2Padding_format padTokenId hprompt 0 hlen hwidth hbatch
  -- the row of a sample in each of the tensors
  have hrow : ∀ i < b.rows.length, ∃ row xs mask outRow, b.rows[i]? = some row ∧
      lossMask[i]? = some xs ∧ responseMask[i]? = some mask ∧ out[i]? = some outRow ∧
      outRow.length = mask.length ∧
      (List.zipWith (fun response opd => response && opd != 0) mask outRow).count true =
        xs.sum := by
    intro i hi
    have hget := List.getElem?_eq_getElem hi
    have hxs := List.getElem?_eq_getElem (hlen ▸ hi)
    have hm := List.getElem?_eq_getElem (hmask ▸ hi)
    obtain ⟨outRow, hoRow, hoLen, hcell⟩ := hcells i _ _ hget hxs
    obtain ⟨hmLen, hmOnes⟩ := hones i _ _ hget hm
    have hmem := List.getElem_mem hi
    have hin := hinside i _ _ hget hxs
    have hle := b.responseLen_le hmem
    have hsum := b.promptLen_add_responseLen b.rows[i]
    have hmax : (PaddedBatch.valid b.rows[i]).length ≤ b.maxSeqLen :=
      le_maxOfLens (List.mem_map_of_mem hmem)
    have hxsLen := hwidth _ (List.mem_of_getElem? hxs)
    refine ⟨_, _, _, outRow, hget, hxs, hm, hoRow, hoLen.trans hmLen.symm, ?_⟩
    rw [count_effective (hoLen.trans hmLen.symm) fun j y hy => ?_]
    · exact sum_window (hprompt _ hmem) hle hoLen hcell (by omega) fun r x hx => (hin r x hx).2
    · have hj := (List.getElem?_eq_some_iff.mp hy).1
      rw [hcell j (by omega)] at hy
      split_ifs at hy with hlt
      · exact (hin _ y hy).1.imp id fun hone => ⟨hone, hmOnes j hlt⟩
      · exact Or.inl (Option.some.inj hy).symm
  refine ⟨List.zipWith (List.zipWith fun response opd => response && opd != 0) responseMask out,
    ?_, ?_⟩
  · have hshape : out.map List.length = responseMask.map List.length := by
      refine List.ext_getElem? fun i => ?_
      rw [List.getElem?_map, List.getElem?_map]
      by_cases hi : i < b.rows.length
      · obtain ⟨-, -, mask, outRow, -, -, hm, ho, hlens, -⟩ := hrow i hi
        rw [hm, ho, Option.map_some, Option.map_some, hlens]
      · rw [List.getElem?_eq_none (by omega), List.getElem?_eq_none (by omega)]
        rfl
    simp only [getEffectiveDistillationResponseMask, heq, bind, Except.bind, hshape, ne_eq,
      not_true_eq_false, if_false]
    rfl
  · rw [targetTokenCount]
    refine congrArg List.sum (List.ext_getElem? fun i => ?_)
    rw [List.getElem?_map, List.getElem?_map]
    by_cases hi : i < b.rows.length
    · obtain ⟨-, xs, mask, outRow, -, hxs, hm, ho, -, hcount⟩ := hrow i hi
      rw [List.getElem?_zipWith, hm, ho, hxs, Option.map_some]
      exact congrArg some hcount
    · rw [List.getElem?_eq_none (by rw [List.length_zipWith]; omega),
        List.getElem?_eq_none (by omega)]
      rfl

/-- Each sample fits the rows of the micro-batch. -/
theorem PaddedBatch.Holds.fits {b : PaddedBatch} {padTokenId : ℤ} {samples : List Sample}
    (hholds : b.Holds padTokenId samples) (hprompt : ∀ row ∈ b.rows, 1 ≤ b.promptLen row) {i : ℕ}
    {s : Sample} (hs : samples[i]? = some s) : ∃ row, b.rows[i]? = some row ∧
      s.promptLen = b.promptLen row ∧ s.responseLen = b.responseLen row ∧ 1 ≤ s.promptLen ∧
      s.promptLen + s.responseLen ≤ b.maxSeqLen ∧ s.inputIds.length = b.maxSeqLen := by
  have hi : i < b.rows.length := hholds.length_eq ▸ (List.getElem?_eq_some_iff.mp hs).1
  have hrow := List.getElem?_eq_getElem hi
  obtain ⟨hp, hr⟩ := hholds.lengths i s _ hs hrow
  have hmem := List.getElem_mem hi
  have hle : (PaddedBatch.valid b.rows[i]).length ≤ b.maxSeqLen :=
    le_maxOfLens (List.mem_map_of_mem hmem)
  have hsum := b.promptLen_add_responseLen b.rows[i]
  refine ⟨_, hrow, hp, hr, hp ▸ hprompt _ hmem, by omega, ?_⟩
  rw [hholds.ids i s _ hs hrow, length_padTo, List.length_map]
  omega

/-- Every batch of samples with prompts, without a stride or random anchors : the rows written
for a sample are the segments between consecutive boundaries, cut at the block size, none twice,
each before the response token that is its label ; the blocks added for rejected drafts write
none ; and the effective response mask has as many entries as the reported target tokens. -/
theorem response_scatter {options : AnchorOptions} (rng : SeededRandom)
    (hstride : options.responseAnchorStride ≤ 1)
    (hrandom : options.randomResponseAnchorEnabled = false) {b : PaddedBatch} {padTokenId : ℤ}
    {samples : List Sample} (hholds : b.Holds padTokenId samples)
    (hprompt : ∀ row ∈ b.rows, 1 ≤ b.promptLen row) (rejectTokenIndices : List (List ℤ))
    (rejectedDrafts : Option (List (List RejectedCell))) {responseMask : List (List Bool)}
    (hmask : responseMask.length = b.rows.length)
    (hones : ∀ (i : ℕ) (row : List PaddedToken) (mask : List Bool), b.rows[i]? = some row →
      responseMask[i]? = some mask → mask.length = b.responseWidth ∧
        ∀ j < b.responseLen row, mask[j]? = some true) :
    ∃ plan, buildOpdAnchorPlan options rng b.maxSeqLen samples rejectTokenIndices
        rejectedDrafts = .ok plan ∧
      (∀ (i : ℕ) (s : Sample), samples[i]? = some s → ∃ planRow, plan.rows[i]? = some planRow ∧
        s.ResponseRows options.draftBlockSize (rejectTokenIndices.getD i []) planRow
          ((responseEntries options.draftBlockSize (samples.map Sample.inputIds) plan).filter
            fun e => e.batchIdx == i)) ∧
      (∀ (i : ℕ) (e : ResponseEntry), i < samples.length →
        e ∈ (responseEntries options.draftBlockSize (samples.map Sample.inputIds) plan).filter
          (fun e => e.batchIdx == i) →
        ((responseOffsetsBySeq samples.length b.maxSeqLen (responseEntries options.draftBlockSize
          (samples.map Sample.inputIds) plan)).getD i [])[e.row.toNat]? = some e.offset) ∧
      ∀ batch ∈ [b.toBatch padTokenId, leftRight2NoPadding (b.toBatch padTokenId)],
        ∃ effective, getEffectiveDistillationResponseMask batch responseMask
            (some (formatDflashSequenceOutput batch (lossMaskBySeq samples.length b.maxSeqLen
              (responseEntries options.draftBlockSize (samples.map Sample.inputIds) plan)))) =
                .ok effective ∧
          (effective.map (List.count true)).sum =
            targetTokenCount (lossMaskBySeq samples.length b.maxSeqLen
              (responseEntries options.draftBlockSize (samples.map Sample.inputIds) plan)) := by
  have hof : ∀ s ∈ samples, 1 ≤ s.promptLen ∧ s.promptLen + s.responseLen ≤ b.maxSeqLen := by
    intro s hs
    obtain ⟨i, hi, rfl⟩ := List.getElem_of_mem hs
    obtain ⟨row, -, -, -, hp, hle, -⟩ := hholds.fits hprompt (List.getElem?_eq_getElem hi)
    exact ⟨hp, hle⟩
  obtain ⟨plan, added, width, hplan, hvalidLens, hrows⟩ := buildOpdAnchorPlan_segments rng hstride
    hrandom (fun s hs => (hof s hs).1) (fun s hs => (hof s hs).2) rejectTokenIndices rejectedDrafts
  have hresponse : ∀ (i : ℕ) (s : Sample), samples[i]? = some s → ∃ planRow,
      plan.rows[i]? = some planRow ∧
      s.ResponseRows options.draftBlockSize (rejectTokenIndices.getD i []) planRow
        ((responseEntries options.draftBlockSize (samples.map Sample.inputIds) plan).filter
          fun e => e.batchIdx == i) := by
    intro i s hs
    obtain ⟨hrow, hadded⟩ := hrows i s hs
    obtain ⟨-, -, -, -, hp, hle, hids⟩ := hholds.fits hprompt hs
    exact ⟨_, hrow, Sample.responseRows_of_perm hadded hp (by omega) (batchEntries_perm hvalidLens
      hs hrow hadded (hholds.attended s (List.mem_of_getElem? hs)))⟩
  refine ⟨plan, hplan, hresponse, fun i e hi he => ?_, fun batch hbatch => ?_⟩
  · have hs := List.getElem?_eq_getElem hi
    obtain ⟨planRow, -, hrowsOk⟩ := hresponse i _ hs
    obtain ⟨-, -, -, -, hp, hle, -⟩ := hholds.fits hprompt hs
    exact hrowsOk.written hi hp hle 0 ResponseEntry.offset he
  · have hmaskRow : ∀ i < samples.length, ∃ (row : List PaddedToken) (xs : List ℕ),
        b.rows[i]? = some row ∧ (lossMaskBySeq samples.length b.maxSeqLen (responseEntries
          options.draftBlockSize (samples.map Sample.inputIds) plan))[i]? = some xs ∧
        xs.length = b.maxSeqLen ∧ ∀ r x : ℕ, xs[r]? = some x → (x = 0 ∨ x = 1) ∧
          (r < b.promptLen row - 1 ∨ b.promptLen row - 1 + b.responseLen row ≤ r → x = 0) := by
      intro i hi
      have hs := List.getElem?_eq_getElem hi
      obtain ⟨planRow, -, hrowsOk⟩ := hresponse i _ hs
      obtain ⟨row, hrow, hpEq, hrEq, hp, -⟩ := hholds.fits hprompt hs
      obtain ⟨xs, hxs, hxsLen, hcells⟩ := hrowsOk.lossMask b.maxSeqLen hi hp
      rw [hpEq, hrEq] at hcells
      exact ⟨row, xs, hrow, hxs, hxsLen, hcells⟩
    have hlen : (lossMaskBySeq samples.length b.maxSeqLen (responseEntries options.draftBlockSize
        (samples.map Sample.inputIds) plan)).length = samples.length := by
      rw [lossMaskBySeq, scatterBySeq, List.length_map, List.length_range]
    refine PaddedBatch.count_effectiveMask padTokenId hprompt (hlen.trans hholds.length_eq)
      (fun xs hxs => ?_) (fun i row xs hrow hxs => ?_) hmask hones hbatch
    · obtain ⟨i, hi, rfl⟩ := List.getElem_of_mem hxs
      obtain ⟨-, ys, -, hys, hysLen, -⟩ := hmaskRow i (hlen ▸ hi)
      rw [List.getElem?_eq_getElem hi] at hys
      rw [Option.some.inj hys]
      exact hysLen
    · have hi := (List.getElem?_eq_some_iff.mp hxs).1
      obtain ⟨row', ys, hrow', hys, -, hcells⟩ := hmaskRow i (hlen ▸ hi)
      rw [hrow] at hrow'
      rw [hxs] at hys
      obtain rfl := Option.some.inj hrow'
      obtain rfl := Option.some.inj hys
      exact hcells

/-- One row : a prompt of two tokens and a response of five. -/
def oneRow : PaddedBatch where
  promptWidth := 3
  responseWidth := 5
  rows := [[⟨0, 0, false⟩, ⟨1, 0, true⟩, ⟨2, 1, true⟩, ⟨3, 2, true⟩, ⟨4, 3, true⟩, ⟨5, 4, true⟩,
    ⟨6, 5, true⟩, ⟨7, 6, true⟩]]
  widths := by decide
  nonempty := by decide

/-- Its sample, with a duplicate reject index and one outside the response. -/
def oneRowSample : Sample where
  inputIds := [1, 2, 3, 4, 5, 6, 7]
  promptLen := 2
  responseLen := 5
  validSeqLen := 7
  rejectTokenIndices := [2, 9, 2]
  anchors := []
  offsets := []
  tokenIds := []
  teacherLogprobs := []

/-- Blocks of three tokens. -/
def blockOptions : AnchorOptions where
  draftBlockSize := 3

theorem response_scatter_oneRow : ∃ plan,
    buildOpdAnchorPlan blockOptions ⟨fun _ l => l, fun _ _ _ _ => []⟩ oneRow.maxSeqLen
      [oneRowSample] [[2, 9, 2]] none = .ok plan ∧
    ((responseEntries 3 [oneRowSample.inputIds] plan).map fun e => (e.row, e.label, e.offset)) =
      [(1, 3, 1), (4, 6, 1), (2, 4, 2), (5, 7, 2)] ∧
    ∃ effective, getEffectiveDistillationResponseMask (oneRow.toBatch 0)
        [[true, true, true, true, true]] (some (formatDflashSequenceOutput (oneRow.toBatch 0)
          (lossMaskBySeq 1 oneRow.maxSeqLen (responseEntries 3 [oneRowSample.inputIds] plan)))) =
            .ok effective ∧ (effective.map (List.count true)).sum = 4 := by
  have hholds : oneRow.Holds 0 [oneRowSample] := by
    refine ⟨rfl, fun i s row hs hrow => ?_, by decide, fun i s row hs hrow => ?_⟩
    · cases i with
      | zero =>
        obtain rfl := Option.some.inj hs
        obtain rfl := Option.some.inj hrow
        decide
      | succ i => simp at hs
    · cases i with
      | zero =>
        obtain rfl := Option.some.inj hs
        obtain rfl := Option.some.inj hrow
        decide
      | succ i => simp at hs
  have hones : ∀ (i : ℕ) (row : List PaddedToken) (mask : List Bool), oneRow.rows[i]? = some row →
      [[true, true, true, true, true]][i]? = some mask → mask.length = oneRow.responseWidth ∧
        ∀ j < oneRow.responseLen row, mask[j]? = some true := by
    intro i row mask hrow hmask
    cases i with
    | zero =>
      obtain rfl := Option.some.inj hrow
      obtain rfl := Option.some.inj hmask
      decide
    | succ i => simp at hmask
  have hstride : blockOptions.responseAnchorStride ≤ 1 := le_rfl
  obtain ⟨plan, hplan, -, -, heffective⟩ := response_scatter
    ⟨fun _ l => l, fun _ _ _ _ => []⟩ hstride rfl hholds (by decide) [[2, 9, 2]] none rfl hones
  have heval : buildOpdAnchorPlan blockOptions ⟨fun _ l => l, fun _ _ _ _ => []⟩ oneRow.maxSeqLen
      [oneRowSample] [[2, 9, 2]] none = .ok _ := rfl
  obtain ⟨effective, heq, hcount⟩ := heffective _ List.mem_cons_self
  obtain rfl := Except.ok.inj (heval.symm.trans hplan)
  exact ⟨_, heval, rfl, effective, heq, hcount⟩

end DraftOpd
