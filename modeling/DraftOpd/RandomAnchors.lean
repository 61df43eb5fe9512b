import Mathlib.Order.CompletePartialOrder
import Mathlib.Data.Set.BooleanAlgebra
import Mathlib.Data.Set.Disjoint
import Mathlib.Algebra.BigOperators.Group.Finset.Basic
import Mathlib.Algebra.Order.Group.Int
import DraftOpd.AnchorPlan

/-!
# Random response anchors

`_build_random_response_anchor_plan` moves the segments of a response : it shuffles their lengths,
draws the gaps between them and puts one segment after the other.

Whatever is drawn, the gaps and the lengths add up to the response (`sum_gapCounts`), so the
segments lie in the response without overlap (`zip_randomAnchors_spec`). A plan with random
anchors keeps all of them, and with them the number of rows that are trained
(`random_anchors_keep_budget`).
-/

namespace DraftOpd

/-! ## The random generator -/

/-- What `random.Random` guarantees : a shuffle permutes, and a draw is below its bound. -/
structure SeededRandom.Lawful (rng : SeededRandom) : Prop where
  shuffle_perm : ∀ seed xs, (rng.shuffle seed xs).Perm xs
  length_randrange : ∀ seed xs bound n, (rng.randrange seed xs bound n).length = n
  randrange_lt : ∀ seed xs bound n, 0 < bound → ∀ d ∈ rng.randrange seed xs bound n, d < bound

/-- The number of draws is the sum of how often each number was drawn. -/
theorem sum_gapCounts {draws : List ℕ} {n : ℕ} (h : ∀ d ∈ draws, d < n) :
    ((List.range n).map fun gap => draws.count gap).sum = draws.length := by
  have hcard := Multiset.sum_count_eq_card (s := Finset.range n) (m := (draws : Multiset ℕ))
    fun d hd => Finset.mem_range.mpr (h d hd)
  simp only [Multiset.coe_count] at hcard
  rwa [Finset.sum, Finset.range_val, Multiset.range, Multiset.map_coe, Multiset.sum_coe,
    Multiset.coe_card] at hcard

/-! ## The segments -/

/-- The positions of the response a segment covers. -/
def segmentSpan (segment : ℤ × ℤ) : Set ℤ :=
  {r | segment.1 + 1 ≤ r ∧ r ≤ segment.1 + segment.2}

theorem mem_segmentSpan {segment : ℤ × ℤ} {r : ℤ} :
    r ∈ segmentSpan segment ↔ segment.1 + 1 ≤ r ∧ r ≤ segment.1 + segment.2 := Iff.rfl

/-- Segments of given lengths and gaps : they lie one after the other between the cursor and the
sum of all lengths and gaps. -/
theorem zip_randomAnchors_spec : ∀ (cursor : ℤ) {lens : List ℤ} {gaps : List ℕ},
    gaps.length = lens.length → (∀ n ∈ lens, 0 < n) →
    ((randomAnchors cursor lens gaps).zip lens).map Prod.snd = lens ∧
      (∀ x ∈ (randomAnchors cursor lens gaps).zip lens, cursor ≤ x.1 + 1 ∧
        x.1 + x.2 + 1 ≤ cursor + lens.sum + (gaps.sum : ℕ)) ∧
      ((randomAnchors cursor lens gaps).zip lens).Pairwise fun x y => x.1 + x.2 ≤ y.1
  | cursor, [], gaps, _, _ => by
    cases gaps <;> simp [randomAnchors]
  | cursor, n :: lens, gap :: gaps, hlen, hpos => by
    have hn := hpos n List.mem_cons_self
    have hlens : ∀ m ∈ lens, 0 < m := fun m hm => hpos m (List.mem_cons_of_mem _ hm)
    obtain ⟨hsnd, hrange, hordered⟩ := zip_randomAnchors_spec (cursor + n + gap)
      (Nat.succ.inj hlen) hlens
    have hsum : 0 ≤ lens.sum := List.sum_nonneg fun m hm => (hlens m hm).le
    simp only [randomAnchors, List.zip_cons_cons, List.map_cons, List.sum_cons,
      List.forall_mem_cons, List.pairwise_cons]
    refine ⟨by rw [hsnd], ⟨⟨by omega, by omega⟩, fun x hx => ?_⟩, fun y hy => ?_, hordered⟩
    · have := hrange x hx
      omega
    · have := hrange y hy
      omega

/-- Segments that lie in a response without overlap. -/
structure SegmentsApart (responseLen : ℕ) (segments : List (ℤ × ℤ)) : Prop where
  positive : ∀ x ∈ segments, 0 < x.2
  range : ∀ x ∈ segments, -1 ≤ x.1 ∧ x.1 + x.2 < responseLen
  ordered : segments.Pairwise fun x y => x.1 + x.2 ≤ y.1

namespace SegmentsApart

variable {responseLen : ℕ} {segments : List (ℤ × ℤ)} (h : SegmentsApart responseLen segments)

include h

theorem disjoint : segments.Pairwise fun x y => Disjoint (segmentSpan x) (segmentSpan y) := by
  refine h.ordered.imp fun hle => Set.disjoint_left.mpr fun r hx hy => ?_
  rw [mem_segmentSpan] at hx hy
  omega

theorem subset : ∀ x ∈ segments, ∀ r ∈ segmentSpan x, 0 ≤ r ∧ r < (responseLen : ℤ) := by
  intro x hx r hr
  have hrange := h.range x hx
  rw [mem_segmentSpan] at hr
  omega

theorem nodup : (segments.map Prod.fst).Nodup := by
  have hlt : segments.Pairwise fun x y => x.1 < y.1 := by
    refine h.ordered.imp_of_mem fun hx _ hle => ?_
    have := h.positive _ hx
    omega
  exact List.pairwise_map.mpr (hlt.imp ne_of_lt)

/-- No segment is dropped by the bounds check. -/
theorem place_eq {s : Sample} {seqLen : ℕ} (hlen : s.responseLen = responseLen)
    (hprompt : 1 ≤ s.promptLen) (hseq : s.promptLen + s.responseLen ≤ seqLen) :
    s.place seqLen segments = segments.map fun x =>
      ⟨s.promptLen + x.1, x.2, s.promptLen + x.1⟩ := by
  rw [Sample.place, ← List.filterMap_eq_map]
  refine List.filterMap_congr fun x hx => ?_
  have hpos := h.positive x hx
  have hrange := h.range x hx
  have hfull := s.fullAnchor_eq hrange.1
  rw [hfull]
  exact if_neg (by omega)

end SegmentsApart

/-- The random plan of lengths that fit : the positive ones in some order, at segments of the
response that do not overlap. -/
theorem buildRandomResponseAnchorPlan_spec {rng : SeededRandom} (hrng : rng.Lawful) {s : Sample}
    (batchIdx : ℕ) {segmentLens : List ℤ} (seed : ℤ)
    (h : (segmentLens.filter fun n => decide (0 < n)).sum ≤ s.responseLen) :
    ∃ segments, buildRandomResponseAnchorPlan rng s batchIdx segmentLens seed = .ok segments ∧
      (segments.map Prod.snd).Perm (segmentLens.filter fun n => decide (0 < n)) ∧
      SegmentsApart s.responseLen segments := by
  have hpos : ∀ n ∈ segmentLens.filter fun n => decide (0 < n), 0 < n :=
    fun n hn => by simpa using (List.mem_filter.mp hn).2
  unfold buildRandomResponseAnchorPlan
  simp only
  generalize segmentLens.filter (fun n => decide (0 < n)) = lens at h hpos ⊢
  by_cases hnone : s.responseLen = 0 ∨ lens = []
  · have hnil : lens = [] := by
      rcases hnone with hzero | hnil
      · by_contra hne
        have := List.sum_pos lens hpos hne
        omega
      · exact hnil
    rw [if_pos hnone, hnil]
    exact ⟨[], rfl, List.Perm.refl _, by simp, by simp, List.Pairwise.nil⟩
  · rw [if_neg hnone, if_neg (by omega)]
    generalize seed + _ + _ = seed'
    have hperm := hrng.shuffle_perm seed' lens
    generalize rng.shuffle seed' lens = shuffled at hperm ⊢
    have hbound := hrng.randrange_lt seed' lens (shuffled.length + 1)
      (s.responseLen - lens.sum.toNat) (Nat.succ_pos _)
    have hdraws := hrng.length_randrange seed' lens (shuffled.length + 1)
      (s.responseLen - lens.sum.toNat)
    generalize rng.randrange seed' lens _ _ = draws at hbound hdraws ⊢
    obtain ⟨gap, gaps, hgaps⟩ := List.exists_cons_of_length_eq_add_one
      (show ((List.range (shuffled.length + 1)).map fun gap => draws.count gap).length =
        shuffled.length + 1 by simp)
    have hsum := sum_gapCounts hbound
    rw [hgaps, List.sum_cons] at hsum
    have hlen : gaps.length = shuffled.length := by
      have := congrArg List.length hgaps
      simpa using this.symm
    have hpos' : ∀ n ∈ shuffled, 0 < n := fun n hn => hpos n (hperm.subset hn)
    obtain ⟨hsnd, hrange, hordered⟩ := zip_randomAnchors_spec (gap : ℤ) hlen hpos'
    have htotal : (gap : ℤ) + shuffled.sum + (gaps.sum : ℕ) = s.responseLen := by
      rw [hperm.sum_eq]
      have := List.sum_nonneg fun n hn => (hpos n hn).le
      omega
    rw [hgaps]
    refine ⟨_, rfl, by rw [List.headD_cons, List.tail_cons, hsnd]; exact hperm, ?_, ?_, hordered⟩
    · intro x hx
      have hmem := List.mem_map_of_mem (f := Prod.snd) hx
      rw [List.headD_cons, List.tail_cons, hsnd] at hmem
      exact hpos' _ hmem
    · intro x hx
      have := hrange x hx
      omega

/-! ## The plan -/

/-- The rows the blocks of a row of the plan are trained on : one for each position of a
segment. -/
def supervisedRows (planRow : List AnchorCell) : ℕ :=
  ((planRow.filter AnchorCell.keep).map fun cell => cell.segmentLen.toNat).sum

theorem supervisedRows_padRow (width : ℕ) (blocks : List AnchorBlock) :
    supervisedRows (padRow width .pad (blocks.map AnchorBlock.cell)) =
      (blocks.map fun block => block.segmentLen.toNat).sum := by
  have hkeep : (blocks.map AnchorBlock.cell).filter AnchorCell.keep =
      blocks.map AnchorBlock.cell := by
    refine List.filter_eq_self.mpr fun cell hcell => ?_
    obtain ⟨block, -, rfl⟩ := List.mem_map.mp hcell
    rfl
  rw [supervisedRows, padRow, List.filter_append, hkeep, List.filter_replicate_of_neg (by decide),
    List.append_nil, List.map_map]
  rfl

/-- Leaving out the lengths that are not positive changes no row. -/
theorem sum_toNat_filter (lens : List ℤ) :
    ((lens.filter fun n => decide (0 < n)).map Int.toNat).sum = (lens.map Int.toNat).sum := by
  induction lens with
  | nil => rfl
  | cons n lens ih =>
    by_cases hn : 0 < n
    · rw [List.filter_cons_of_pos (by simpa using hn), List.map_cons, List.map_cons, List.sum_cons,
        List.sum_cons, ih]
    · have hzero : n.toNat = 0 := by omega
      rw [List.filter_cons_of_neg (by simpa using hn), List.map_cons, List.sum_cons, hzero, ih,
        Nat.zero_add]

namespace Sample

variable {s : Sample} {seqLen draftBlockSize : ℕ}

theorem mem_segments {ps : List (ℤ × ℤ)} {x : ℤ × ℤ}
    (h : x ∈ s.segments seqLen draftBlockSize ps) :
    ∃ p ∈ ps, 0 < p.2 - p.1 ∧ x = (p.1, min (p.2 - p.1) ((draftBlockSize : ℤ) - 1)) ∧
      ¬(s.fullAnchor p.1 < 0 ∨ (seqLen : ℤ) - 1 ≤ s.fullAnchor p.1) := by
  obtain ⟨p, hp, hx⟩ := List.mem_filterMap.mp h
  simp only at hx
  split_ifs at hx with h₁ h₂
  exact ⟨p, hp, not_le.mp h₁, (Option.some.inj hx).symm, h₂⟩

/-- The bounds check of the placement drops none of the segments, which passed it before. -/
theorem place_segments (ps : List (ℤ × ℤ)) :
    (s.place seqLen (s.segments seqLen draftBlockSize ps)).map AnchorBlock.segmentLen =
      (s.segments seqLen draftBlockSize ps).map Prod.snd := by
  rw [place, List.map_filterMap, ← List.filterMap_eq_map]
  refine List.filterMap_congr fun x hx => ?_
  obtain ⟨p, -, -, rfl, hbounds⟩ := mem_segments hx
  simp only [if_neg hbounds, Option.map_some]
  rfl

theorem givenSegments_positive {options : AnchorOptions} {rawRejects : List ℤ}
    (hblock : 2 ≤ options.draftBlockSize) :
    ∀ x ∈ s.givenSegments options seqLen rawRejects, 0 < x.2 := by
  intro x hx
  obtain ⟨p, -, hpos, rfl, -⟩ := mem_segments hx
  have : (2 : ℤ) ≤ options.draftBlockSize := by exact_mod_cast hblock
  exact lt_min hpos (by omega)

/-- The segments between the boundaries lie in the response without overlap. -/
theorem givenSegments_apart {options : AnchorOptions} (rawRejects : List ℤ)
    (hblock : 2 ≤ options.draftBlockSize) :
    SegmentsApart s.responseLen (s.givenSegments options seqLen rawRejects) := by
  have hsub := strideAnchors_sublist options.responseAnchorStride
    (pairs (-1) (s.boundaries rawRejects))
  refine ⟨givenSegments_positive hblock, fun x hx => ?_, ?_⟩
  · obtain ⟨p, hp, hpos, rfl, -⟩ := mem_segments hx
    have hrange := pair_range (hsub.subset hp)
    have hmin := min_le_left (p.2 - p.1) ((options.draftBlockSize : ℤ) - 1)
    exact ⟨hrange.1, by omega⟩
  · have hordered := (pairwise_pairs (s.pairwise_boundaries rawRejects)).sublist hsub
    refine List.pairwise_filterMap.mpr (hordered.imp fun {p q} hle x hx y hy => ?_)
    simp only at hx hy
    split_ifs at hx hy
    obtain rfl := Option.some.inj hx
    obtain rfl := Option.some.inj hy
    have hmin := min_le_left (p.2 - p.1) ((options.draftBlockSize : ℤ) - 1)
    omega

/-- The anchors of the rejected drafts add no row. -/
theorem sum_addRejectedAnchors (cells : List RejectedCell) (blocks : List AnchorBlock) :
    ((cells.foldl (s.addRejectedAnchor seqLen draftBlockSize) blocks).map
      fun block => block.segmentLen.toNat).sum =
      (blocks.map fun block => block.segmentLen.toNat).sum := by
  obtain ⟨added, heq, -, hadded, -⟩ := s.addRejectedAnchors_spec seqLen draftBlockSize cells blocks
  have hzero : (added.map fun block => block.segmentLen.toNat).sum = 0 := by
    refine List.sum_eq_zero fun n hn => ?_
    obtain ⟨block, hblock, rfl⟩ := List.mem_map.mp hn
    rw [(hadded block hblock).1]
    rfl
  rw [heq, List.map_append, List.sum_append, hzero, Nat.add_zero]

end Sample

section Plan

variable {options : AnchorOptions} {rng : SeededRandom} {seqLen batchIdx : ℕ} {s : Sample}
  {rawRejects : List ℤ}

/-- Moved or not, the segments of a plan cover as many rows as the given ones. -/
theorem PlannedSegments.sum_toNat (hrng : rng.Lawful) {segments : List (ℤ × ℤ)}
    (hprompt : 1 ≤ s.promptLen) (hseq : s.promptLen + s.responseLen ≤ seqLen)
    (h : PlannedSegments options rng seqLen batchIdx s rawRejects segments) :
    ((s.place seqLen segments).map fun block => block.segmentLen.toNat).sum =
      ((s.givenSegments options seqLen rawRejects).map fun x => x.2.toNat).sum := by
  have hfit := s.sum_response_segments_le seqLen options.draftBlockSize rawRejects
    options.responseAnchorStride
  unfold PlannedSegments at h
  split_ifs at h with hrandom
  · obtain ⟨segments', hbuild, hperm, hapart⟩ := buildRandomResponseAnchorPlan_spec hrng batchIdx
      options.randomResponseAnchorSeed hfit
    obtain rfl : segments' = segments := Except.ok.inj (hbuild.symm.trans h)
    rw [hapart.place_eq rfl hprompt hseq, List.map_map]
    calc (segments'.map fun x => x.2.toNat).sum
        = ((segments'.map Prod.snd).map Int.toNat).sum := by rw [List.map_map]; rfl
      _ = _ := (hperm.map Int.toNat).sum_eq
      _ = _ := sum_toNat_filter _
      _ = _ := by rw [List.map_map]; rfl
  · have hplace : (s.place seqLen segments).map AnchorBlock.segmentLen = segments.map Prod.snd := by
      rw [h]
      exact Sample.place_segments _
    calc ((s.place seqLen segments).map fun block => block.segmentLen.toNat).sum
        = (((s.place seqLen segments).map AnchorBlock.segmentLen).map Int.toNat).sum := by
          rw [List.map_map]; rfl
      _ = _ := by rw [hplace, List.map_map, h]; rfl

end Plan

/-- What moving the segments of a sample keeps. -/
structure RandomAnchorsKept (s : Sample) (options : AnchorOptions) (seqLen : ℕ)
    (given segments : List (ℤ × ℤ)) : Prop where
  perm : (segments.map Prod.snd).Perm ((given.map Prod.snd).filter fun n => decide (0 < n))
  given_positive : 2 ≤ options.draftBlockSize →
    (given.map Prod.snd).filter (fun n => decide (0 < n)) = given.map Prod.snd
  disjoint : segments.Pairwise fun x y => Disjoint (segmentSpan x) (segmentSpan y)
  subset : ∀ x ∈ segments, ∀ r ∈ segmentSpan x, 0 ≤ r ∧ r < (s.responseLen : ℤ)
  placed : s.place seqLen segments = segments.map fun x =>
    ⟨s.promptLen + x.1, x.2, s.promptLen + x.1⟩

/-- Every batch, reject pattern, stride and block size, and every outcome of the shuffle and the
draws : the random plan of a sample's segments is built, with the positive lengths (all of them
from block size `2` on) at segments of the response that do not overlap and are all placed ; and
the plan has as many rows for every sample as without random anchors. -/
theorem random_anchors_keep_budget (options : AnchorOptions) {rng : SeededRandom}
    (hrng : rng.Lawful) {seqLen : ℕ} {samples : List Sample} (rejectTokenIndices : List (List ℤ))
    (rejectedDrafts : Option (List (List RejectedCell)))
    (hprompt : ∀ s ∈ samples, 1 ≤ s.promptLen)
    (hseq : ∀ s ∈ samples, s.promptLen + s.responseLen ≤ seqLen) :
    (∀ i < samples.length,
      let s := samples.getD i default
      let given := s.givenSegments options seqLen (rejectTokenIndices.getD i [])
      ∃ segments, buildRandomResponseAnchorPlan rng s i (given.map Prod.snd)
          options.randomResponseAnchorSeed = .ok segments ∧
        RandomAnchorsKept s options seqLen given segments) ∧
    ∃ plan baseline,
      buildOpdAnchorPlan { options with randomResponseAnchorEnabled := true } rng seqLen samples
        rejectTokenIndices rejectedDrafts = .ok plan ∧
      buildOpdAnchorPlan { options with randomResponseAnchorEnabled := false } rng seqLen samples
        rejectTokenIndices rejectedDrafts = .ok baseline ∧
      ∀ i < samples.length, supervisedRows (plan.rows.getD i []) =
        supervisedRows (baseline.rows.getD i []) := by
  refine ⟨fun i hi => ?_, ?_⟩
  · have hmem := getD_mem hi default
    obtain ⟨segments, hbuild, hperm, hapart⟩ := buildRandomResponseAnchorPlan_spec hrng i
      options.randomResponseAnchorSeed ((samples.getD i default).sum_response_segments_le seqLen
        options.draftBlockSize (rejectTokenIndices.getD i []) options.responseAnchorStride)
    refine ⟨segments, hbuild, hperm, fun hblock => ?_, hapart.disjoint, hapart.subset,
      hapart.place_eq rfl (hprompt _ hmem) (hseq _ hmem)⟩
    refine List.filter_eq_self.mpr fun n hn => ?_
    obtain ⟨x, hx, rfl⟩ := List.mem_map.mp hn
    exact decide_eq_true (Sample.givenSegments_positive hblock x hx)
  · have hrows : ∀ enabled : Bool, ∃ plan, buildOpdAnchorPlan
        { options with randomResponseAnchorEnabled := enabled } rng seqLen samples
          rejectTokenIndices rejectedDrafts = .ok plan ∧
        ∀ i < samples.length, supervisedRows (plan.rows.getD i []) =
          (((samples.getD i default).givenSegments options seqLen
            (rejectTokenIndices.getD i [])).map fun x => x.2.toNat).sum := by
      intro enabled
      obtain ⟨plans, hbuild, hplans⟩ := buildOpdAnchorPlan_eq
        { options with randomResponseAnchorEnabled := enabled } rng seqLen samples
        rejectTokenIndices rejectedDrafts
      refine ⟨_, hbuild, fun i hi => ?_⟩
      have hmem := getD_mem hi default
      obtain ⟨plan, segments, hplan, hsegments, hblocks⟩ := sampleAnchorPlan_planned
        { options with randomResponseAnchorEnabled := enabled } rng seqLen i
        (samples.getD i default) (rejectTokenIndices.getD i [])
        (rejectedDrafts.map fun rows => rows.getD i [])
      obtain rfl : plan = plans i := Except.ok.inj (hplan.symm.trans (hplans i))
      simp only [padAnchorPlan, List.map_map]
      rw [getD_map_range _ hi, Function.comp_apply, supervisedRows_padRow, hblocks,
        Sample.sum_addRejectedAnchors, hsegments.sum_toNat hrng (hprompt _ hmem) (hseq _ hmem)]
      rfl
    obtain ⟨plan, hplan, hcount⟩ := hrows true
    obtain ⟨baseline, hbaseline, hcount'⟩ := hrows false
    exact ⟨plan, baseline, hplan, hbaseline, fun i hi => (hcount i hi).trans (hcount' i hi).symm⟩

/-- A generator that reverses the lengths and puts every gap first. -/
def gapFirst : SeededRandom := ⟨fun _ xs => xs.reverse, fun _ _ _ n => List.replicate n 0⟩

theorem gapFirst_lawful : gapFirst.Lawful where
  shuffle_perm := fun _ xs => List.reverse_perm xs
  length_randrange := fun _ _ _ _ => List.length_replicate
  randrange_lt := fun _ _ _ _ hbound _ hd => (List.eq_of_mem_replicate hd).trans_lt hbound

/-- A response of six tokens. -/
def sixResponse : Sample where
  inputIds := [1, 2, 3, 4, 5, 6, 7, 8]
  promptLen := 2
  responseLen := 6
  validSeqLen := 8
  rejectTokenIndices := [1, 2]
  anchors := []
  offsets := []
  tokenIds := []
  teacherLogprobs := []

theorem random_anchors_sixResponse : ∃ plan baseline,
    buildOpdAnchorPlan ⟨4, 1, true, 42, true⟩ gapFirst 8 [sixResponse] [[1, 2]] none = .ok plan ∧
    buildOpdAnchorPlan ⟨4, 1, false, 42, true⟩ gapFirst 8 [sixResponse] [[1, 2]] none =
      .ok baseline ∧
    supervisedRows (baseline.rows.getD 0 []) = 6 ∧ supervisedRows (plan.rows.getD 0 []) = 6 ∧
    ∃ segments, buildRandomResponseAnchorPlan gapFirst sixResponse 0 [2, 1, 3] 42 =
        .ok segments ∧ (segments.map Prod.snd).Perm [2, 1, 3] := by
  have hprompt : ∀ s ∈ [sixResponse], 1 ≤ s.promptLen := by simp [sixResponse]
  have hseq : ∀ s ∈ [sixResponse], s.promptLen + s.responseLen ≤ 8 := by simp [sixResponse]
  obtain ⟨hrandom, plan, baseline, hplan, hbaseline, hrows⟩ := random_anchors_keep_budget
    ⟨4, 1, false, 42, true⟩ gapFirst_lawful [[1, 2]] none hprompt hseq
  obtain ⟨segments, hsegments, hkept⟩ := hrandom 0 (by decide)
  have hsix : supervisedRows (baseline.rows.getD 0 []) = 6 := by
    rw [← Except.ok.inj hbaseline]
    decide
  exact ⟨plan, baseline, hplan, hbaseline, hsix, (hrows 0 (by decide)).trans hsix, segments,
    hsegments, hkept.perm⟩

/-- At block size `1` every given length is `0`, and the random plan has none. -/
theorem random_anchors_blockSize_one :
    (sixResponse.givenSegments ⟨1, 1, true, 42, true⟩ 8 [1, 2]).map Prod.snd = [0, 0, 0] ∧
    buildRandomResponseAnchorPlan gapFirst sixResponse 0 [0, 0, 0] 42 = .ok [] ∧
    ¬(([] : List (ℤ × ℤ)).map Prod.snd).Perm [0, 0, 0] :=
  ⟨by decide, rfl, by simp⟩

end DraftOpd
