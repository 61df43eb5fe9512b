import DraftOpd.Scatter
import DraftOpd.TvStructure

/-!
# The teacher's context

`_compute_tv_teacher_branch_hidden` selects a hidden state of the target for every position of
the plan : a row of the forward on the input, or, for a later reject, a row of a forward on the
prefix of the anchor and its rejected drafts. The target is any function of the token prefix
(`forwardHidden`).

`teacherBranchHidden_context` says what prefix each position is given. The branches write the
later rejects of their own blocks only (`mem_tvBranchSpecs`), so their order does not matter.
-/

namespace DraftOpd

variable {H : Type}

/-! ## The forwards -/

/-- The rows of a forward of the causal target. -/
def forwardHidden (hidden : List ℤ → H) (ids : List ℤ) : List H :=
  (List.range ids.length).map fun row => hidden (ids.take (row + 1))

/-- What `_compute_tv_teacher_branch_hidden` raises. -/
inductive BranchError where
  | positionIds
  | indexRange
  deriving DecidableEq

/-- `xs[i]`, from the end for a negative index. -/
def indexAt {α : Type*} (xs : List α) (i : ℤ) : Except BranchError α :=
  let i := if i < 0 then i + xs.length else i
  if i < 0 then .error .indexRange
  else (xs[i.toNat]?).elim (.error .indexRange) .ok

/-- `xs[:n]`, from the end for a negative bound. -/
def sliceTo {α : Type*} (xs : List α) (n : ℤ) : List α :=
  xs.take (if n < 0 then n + xs.length else n).toNat

/-- `prefix_len` of a branch. -/
def TvBranchSpec.prefixLen (spec : TvBranchSpec) : ℤ := spec.fullAnchor + spec.firstOffset

/-- `branch_input_ids`. -/
def TvBranchSpec.branchInputIds (spec : TvBranchSpec) (row : List ℤ) : List ℤ :=
  sliceTo row spec.prefixLen ++ spec.tokenIds

/-- A branch of the loop (`dflash_student.py:1264-1297`) on the selected rows and their count.
The position ids are given by their number of dimensions. -/
def applyBranch (hidden : List ℤ → H) (inputIds : List (List ℤ)) (positionDim : Option ℕ)
    (state : List H × ℕ) (spec : TvBranchSpec) : Except BranchError (List H × ℕ) := do
  let row ← indexAt inputIds spec.sampleIdx
  if positionDim.any fun dim => dim != 2 then
    throw .positionIds
  let branchHidden := forwardHidden hidden (spec.branchInputIds row)
  let values ← spec.suffixIndices.mapM fun suffixIdx =>
    indexAt branchHidden (spec.prefixLen - 1 + suffixIdx)
  if spec.flatIndices.any fun flatIdx => decide (state.1.length ≤ flatIdx) then
    throw .indexRange
  return (scatter state.1 (spec.flatIndices.zip values), state.2 + spec.flatIndices.length)

/-- `_compute_tv_teacher_branch_hidden` (`dflash_student.py:1248-1298`). -/
def computeTvTeacherBranchHidden (hidden : List ℤ → H) (inputIds : List (List ℤ))
    (positionDim : Option ℕ) (targetLmHidden : List (List H)) (plan : TvPlan) :
    Except BranchError (List H × ℕ) :=
  if plan.targetRowIndices.isEmpty then .ok ([], 0)
  else do
    let selected ← (plan.batchIndices.zip plan.targetRowIndices).mapM fun x => do
      let rows ← indexAt targetLmHidden x.1
      indexAt rows (max x.2 0)
    plan.branchSpecs.foldlM (applyBranch hidden inputIds positionDim) (selected, 0)

theorem indexAt_eq_ok {α : Type*} {xs : List α} {i : ℤ} {a : α} (hi : 0 ≤ i)
    (h : xs[i.toNat]? = some a) : indexAt xs i = .ok a := by
  unfold indexAt
  simp only [if_neg (not_lt.mpr hi), h]
  rfl

theorem indexAt_forwardHidden (hidden : List ℤ → H) {ids : List ℤ} {row : ℤ} (hrow : 0 ≤ row)
    (hlt : row < ids.length) :
    indexAt (forwardHidden hidden ids) row = .ok (hidden (ids.take (row + 1).toNat)) := by
  have hnat : row.toNat < ids.length := by omega
  have hsucc : (row + 1).toNat = row.toNat + 1 := by omega
  refine indexAt_eq_ok hrow ?_
  rw [forwardHidden, List.getElem?_map, List.getElem?_range hnat, hsucc]
  rfl

theorem sliceTo_eq {α : Type*} {xs : List α} {n : ℤ} (hn : 0 ≤ n) :
    sliceTo xs n = xs.take n.toNat := by
  rw [sliceTo, if_neg (not_lt.mpr hn)]

/-! ## The branches -/

/-- The writes of a branch, whose rows are in range. -/
def TvBranchSpec.writes (hidden : List ℤ → H) (inputIds : List (List ℤ)) (spec : TvBranchSpec) :
    List (ℕ × H) :=
  spec.flatIndices.zip (spec.suffixIndices.map fun suffixIdx =>
    hidden ((spec.branchInputIds (inputIds.getD spec.sampleIdx [])).take
      (spec.prefixLen + suffixIdx).toNat))

/-- A branch whose indices are in range. -/
structure TvBranchSpec.InRange (inputIds : List (List ℤ)) (count : ℕ) (spec : TvBranchSpec) :
    Prop where
  sample_lt : spec.sampleIdx < inputIds.length
  row_range : ∀ suffixIdx ∈ spec.suffixIndices, 0 ≤ spec.prefixLen - 1 + suffixIdx ∧
    spec.prefixLen - 1 + suffixIdx <
      ((spec.branchInputIds (inputIds.getD spec.sampleIdx [])).length : ℤ)
  flat_lt : ∀ flatIdx ∈ spec.flatIndices, flatIdx < count

section Branches

variable {hidden : List ℤ → H} {inputIds : List (List ℤ)} {positionDim : Option ℕ}

theorem applyBranch_of_dim (hdim : (positionDim.any fun dim => dim != 2) = true)
    {state : List H × ℕ} {spec : TvBranchSpec} (hlt : spec.sampleIdx < inputIds.length) :
    applyBranch hidden inputIds positionDim state spec = .error .positionIds := by
  have hrow : indexAt inputIds spec.sampleIdx = .ok (inputIds[spec.sampleIdx]) :=
    indexAt_eq_ok (Int.natCast_nonneg _) (by simp)
  unfold applyBranch
  rw [hrow]
  simp only [bind, Except.bind, hdim, if_true]
  rfl

theorem applyBranch_eq (hdim : (positionDim.any fun dim => dim != 2) = false)
    {state : List H × ℕ} {spec : TvBranchSpec} (h : spec.InRange inputIds state.1.length) :
    applyBranch hidden inputIds positionDim state spec =
      .ok (scatter state.1 (spec.writes hidden inputIds), state.2 + spec.flatIndices.length) := by
  have hget : inputIds.getD spec.sampleIdx [] = inputIds.get ⟨spec.sampleIdx, h.sample_lt⟩ :=
    List.getD_eq_getElem _ _ h.sample_lt
  have hrow : indexAt inputIds spec.sampleIdx = .ok (inputIds.getD spec.sampleIdx []) := by
    refine indexAt_eq_ok (Int.natCast_nonneg _) ?_
    rw [Int.toNat_natCast, hget]
    exact List.getElem?_eq_getElem h.sample_lt
  have hvalues : (spec.suffixIndices.mapM fun suffixIdx =>
      indexAt (forwardHidden hidden (spec.branchInputIds (inputIds.getD spec.sampleIdx [])))
        (spec.prefixLen - 1 + suffixIdx)) =
      .ok (spec.suffixIndices.map fun suffixIdx =>
        hidden ((spec.branchInputIds (inputIds.getD spec.sampleIdx [])).take
          (spec.prefixLen + suffixIdx).toNat)) := by
    refine mapM_eq_ok fun suffixIdx hmem => ?_
    obtain ⟨hnonneg, hlt⟩ := h.row_range suffixIdx hmem
    rw [indexAt_forwardHidden hidden hnonneg hlt]
    congr 4
    omega
  have hflat : (spec.flatIndices.any fun flatIdx => decide (state.1.length ≤ flatIdx)) = false := by
    rw [List.any_eq_false]
    intro flatIdx hmem
    simpa using h.flat_lt flatIdx hmem
  unfold applyBranch
  rw [hrow]
  simp only [bind, Except.bind, hdim, hvalues, hflat, Bool.false_eq_true, if_false]
  rfl

/-- The loop over the branches makes all their writes. -/
theorem applyBranches_eq (hdim : (positionDim.any fun dim => dim != 2) = false) :
    ∀ {specs : List TvBranchSpec} {state : List H × ℕ},
      (∀ spec ∈ specs, spec.InRange inputIds state.1.length) →
      specs.foldlM (applyBranch hidden inputIds positionDim) state =
        .ok (scatter state.1 (specs.flatMap fun spec => spec.writes hidden inputIds),
          state.2 + (specs.flatMap TvBranchSpec.flatIndices).length)
  | [], _, _ => rfl
  | spec :: specs, state, h => by
    have hrest : ∀ spec' ∈ specs, spec'.InRange inputIds
        (scatter state.1 (spec.writes hidden inputIds)).length := by
      intro spec' hmem
      rw [length_scatter]
      exact h spec' (List.mem_cons_of_mem _ hmem)
    rw [List.foldlM_cons, applyBranch_eq hdim (h spec List.mem_cons_self)]
    simp only [bind, Except.bind]
    rw [applyBranches_eq hdim hrest, List.flatMap_cons, List.flatMap_cons, scatter_append,
      List.length_append, Nat.add_assoc]

end Branches

/-! ## The branches of a plan -/

/-- A branch of the plan writes later rejects of its own block. -/
theorem mem_tvBranchSpecs : ∀ {blocks : List TvBlock} {n : ℕ} {spec : TvBranchSpec},
    spec ∈ tvBranchSpecs n blocks → ∃ block ∈ blocks, ∃ branch,
      block.branch = some branch ∧ spec.sampleIdx = block.sampleIdx ∧
      spec.fullAnchor = block.fullAnchor ∧ spec.firstOffset = branch.firstOffset ∧
      spec.tokenIds = branch.tokenIds ∧ spec.flatIndices.length = spec.suffixIndices.length ∧
      ∀ x ∈ spec.flatIndices.zip spec.suffixIndices, n ≤ x.1 ∧ ∃ p,
        (flatPositions blocks)[x.1 - n]? = some (block, p) ∧ p.isLaterReject = true ∧
        x.2 = p.offset - branch.firstOffset
  | block :: blocks, n, spec, h => by
    have hsplit : flatPositions (block :: blocks) =
        (block.positions.map fun p => (block, p)) ++ flatPositions blocks := rfl
    rw [tvBranchSpecs, List.mem_append] at h
    rcases h with h | h
    · rw [Option.mem_toList] at h
      obtain ⟨branch, hbranch, rfl⟩ := Option.map_eq_some_iff.mp h
      refine ⟨block, List.mem_cons_self, branch, hbranch, rfl, rfl, rfl, rfl, by simp, ?_⟩
      intro x hx
      rw [List.zip_map', List.mem_map] at hx
      obtain ⟨y, hy, rfl⟩ := hx
      obtain ⟨hzip, hlater⟩ := List.mem_filter.mp hy
      obtain ⟨hle, hlt, heq⟩ := List.mem_zipIdx hzip
      refine ⟨hle, y.1, ?_, hlater, rfl⟩
      rw [hsplit, List.getElem?_append_left (by rw [List.length_map]; omega), List.getElem?_map,
        List.getElem?_eq_getElem (by omega), ← heq]
      rfl
    · obtain ⟨block', hmem, branch, hbranch, h₁, h₂, h₃, h₄, h₅, hzip⟩ := mem_tvBranchSpecs h
      refine ⟨block', List.mem_cons_of_mem _ hmem, branch, hbranch, h₁, h₂, h₃, h₄, h₅, ?_⟩
      intro x hx
      obtain ⟨hle, p, hp, hlater, heq⟩ := hzip x hx
      refine ⟨by omega, p, ?_, hlater, heq⟩
      rw [hsplit, List.getElem?_append_right (by rw [List.length_map]; omega), List.length_map,
        ← hp]
      congr 1
      omega

/-- The token of a rejected draft of the metadata. -/
def Sample.rejectedToken (s : Sample) (cells : List RejectedCell) (fullAnchor offset : ℤ) :
    Option ℤ :=
  (cells.find? fun cell => cell.mask && s.fullAnchor cell.anchor == fullAnchor &&
    cell.offset == offset).map RejectedCell.tokenId

theorem Sample.PlanOk.rejectedToken_eq {s : Sample} {draftBlockSize batchIdx : ℕ}
    {firstTokenOnly : Bool} {planRow : List AnchorCell} {cells : List RejectedCell}
    {index : RejectedIndex}
    (h : s.PlanOk draftBlockSize batchIdx firstTokenOnly planRow cells index) (a o : ℤ) :
    s.rejectedToken cells a o = lookup index a o := by
  obtain ⟨hindexed, -⟩ := indexed_of_ok h.indexed
  unfold Sample.rejectedToken
  cases hfind : cells.find? fun cell => cell.mask && s.fullAnchor cell.anchor == a &&
      cell.offset == o with
  | some cell =>
    have hprop := List.find?_some hfind
    simp only [Bool.and_eq_true, beq_iff_eq] at hprop
    obtain ⟨⟨hmask, rfl⟩, rfl⟩ := hprop
    exact ((Sample.lookup_of_indexCells_ok h.indexed).2 cell (List.mem_of_find?_eq_some hfind)
      hmask).symm
  | none =>
    cases hlookup : lookup index a o with
    | none => rfl
    | some t =>
      obtain ⟨cell, hcell, hmask, ha, ho, -⟩ := hindexed.stored a o t hlookup
      have hnone := List.find?_eq_none.mp hfind cell hcell
      simp [hmask, ha, ho] at hnone

/-! ## The context of a position -/

/-- The tokens that the target has seen at offset `o` of the anchor `a` : those of the input, or,
after a rejected draft, those of the input up to the first one and the drafts from it on. -/
def Sample.TeacherContext (s : Sample) (cells : List RejectedCell) (a o : ℤ) (ids : List ℤ) :
    Prop :=
  ((∀ f < o, s.rejectedToken cells a f = none) → ids = s.inputIds.take (a + o).toNat) ∧
  ∀ f < o, s.rejectedToken cells a f ≠ none → (∀ g < f, s.rejectedToken cells a g = none) →
    ∃ tokens, (intRange f o).map (s.rejectedToken cells a) = tokens.map some ∧
      ids = s.inputIds.take (a + f).toNat ++ tokens

/-- The position `k` of the plan is at offset `o` of the anchor `a` of sample `i`. -/
structure PositionAt (draftBlockSize : ℕ) (planRows : List (List AnchorCell)) (plan : TvPlan)
    (k i : ℕ) (a o : ℤ) : Prop where
  batch : plan.batchIndices[k]? = some i
  offset : plan.offsets[k]? = some o
  cell : ∃ (j : ℕ) (cell : AnchorCell), (planRows.getD i [])[j]? = some cell ∧ cell.keep = true ∧
    cell.anchorPosition = a ∧ plan.draftIndices[k]? = some (j * draftBlockSize + o)

/-- The lists of the plan are lists of its positions. -/
theorem flatMap_eq_map_flatPositions {α : Type*} (f : TvBlock → TvPosition → α)
    (blocks : List TvBlock) : (blocks.flatMap fun block => block.positions.map (f block)) =
      (flatPositions blocks).map fun x => f x.1 x.2 := by
  rw [flatPositions, List.map_flatMap]
  refine List.flatMap_congr fun block _ => ?_
  rw [List.map_map]
  rfl

section Context

variable {draftBlockSize batchIdx : ℕ} {firstTokenOnly : Bool} {s : Sample}
  {planRow : List AnchorCell} {cells : List RejectedCell} {index : RejectedIndex}
  {block : TvBlock} {p : TvPosition}

theorem positionAt_of_flatPositions {planRows : List (List AnchorCell)} {blocks : List TvBlock}
    {k : ℕ} (hk : (flatPositions blocks)[k]? = some (block, p))
    (h : TvShaped s draftBlockSize batchIdx (planRows.getD block.sampleIdx []) block) :
    PositionAt draftBlockSize planRows (flattenBlocks blocks) k block.sampleIdx block.fullAnchor
      p.offset := by
  obtain ⟨j, cell, hcell, hkeep, hanchor, -, hdraft⟩ := h.cell
  have hp := (mem_flatPositions.mp (List.mem_of_getElem? hk)).2
  refine ⟨?_, ?_, j, cell, hcell, hkeep, hanchor, ?_⟩
  · simp only [flattenBlocks]
    rw [flatMap_eq_map_flatPositions fun block _ => block.sampleIdx, List.getElem?_map, hk]
    rfl
  · simp only [flattenBlocks]
    rw [flatMap_eq_map_flatPositions fun _ p => p.offset, List.getElem?_map, hk]
    rfl
  · simp only [flattenBlocks]
    rw [flatMap_eq_map_flatPositions fun _ p => p.draftIdx, List.getElem?_map, hk,
      ← hdraft p hp]
    rfl

/-- A position of the plan is one of a block, by its draft index that of the anchor. -/
theorem flatPositions_of_positionAt {planRows : List (List AnchorCell)} {blocks : List TvBlock}
    {samples : List Sample} {k i : ℕ} {a o : ℤ} (hsize : 0 < draftBlockSize)
    (hblocks : ∀ block ∈ blocks, TvShaped (samples.getD block.sampleIdx default) draftBlockSize
      block.sampleIdx (planRows.getD block.sampleIdx []) block)
    (h : PositionAt draftBlockSize planRows (flattenBlocks blocks) k i a o) :
    ∃ block p, (flatPositions blocks)[k]? = some (block, p) ∧ block.sampleIdx = i ∧
      block.fullAnchor = a ∧ p.offset = o := by
  obtain ⟨hbatch, hoffset, j, cell, hcell, -, rfl, hdraft⟩ := h
  simp only [flattenBlocks] at hbatch hoffset hdraft
  rw [flatMap_eq_map_flatPositions fun block _ => block.sampleIdx, List.getElem?_map,
    Option.map_eq_some_iff] at hbatch
  obtain ⟨⟨block, p⟩, hk, rfl⟩ := hbatch
  rw [flatMap_eq_map_flatPositions fun _ p => p.offset, List.getElem?_map, hk] at hoffset
  rw [flatMap_eq_map_flatPositions fun _ p => p.draftIdx, List.getElem?_map, hk] at hdraft
  obtain rfl : p.offset = o := Option.some.inj hoffset
  have hmem := mem_flatPositions.mp (List.mem_of_getElem? hk)
  obtain ⟨j', cell', hcell', -, hanchor, -, hdraft'⟩ := (hblocks block hmem.1).cell
  have hmul : (j : ℤ) * draftBlockSize = j' * draftBlockSize := by
    have h₁ : p.draftIdx = j * draftBlockSize + p.offset := Option.some.inj hdraft
    have h₂ := hdraft' p hmem.2
    omega
  have hindex : j = j' := by
    have hne : (draftBlockSize : ℤ) ≠ 0 := by omega
    exact_mod_cast mul_right_cancel₀ hne hmul
  rw [hindex, hcell'] at hcell
  rw [Option.some.inj hcell] at hanchor
  exact ⟨block, p, hk, rfl, hanchor.symm, rfl⟩

/-- The positions of a block are selected for what its anchor has in the index. -/
theorem of_mem_tvBlocks
    (hblock : block ∈ tvBlocks index draftBlockSize batchIdx firstTokenOnly planRow) :
    block.branch = tvBranch (index.get? block.fullAnchor) firstTokenOnly ∧
      ∀ p ∈ block.positions,
        p.isLaterReject = isLaterReject (index.get? block.fullAnchor) p.offset ∧
        ∃ segmentLen, p.offset ∈
          selectedOffsets (index.get? block.fullAnchor) segmentLen firstTokenOnly := by
  obtain ⟨hmem, -⟩ := List.mem_filter.mp hblock
  obtain ⟨x, -, rfl⟩ := List.mem_map.mp hmem
  refine ⟨rfl, fun p hp => ?_⟩
  obtain ⟨o, ho, rfl⟩ := List.mem_map.mp hp
  exact ⟨rfl, _, ho⟩

/-- A position that is no later reject has no rejected draft before it. -/
theorem lookup_eq_none_of_not_later
    (h : s.PlanOk draftBlockSize batchIdx firstTokenOnly planRow cells index)
    (hblock : block ∈ tvBlocks index draftBlockSize batchIdx firstTokenOnly planRow)
    (hp : p ∈ block.positions) (hlater : p.isLaterReject = false) {f : ℤ} (hf : f < p.offset) :
    Sample.lookup index block.fullAnchor f = none := by
  obtain ⟨-, hpositions⟩ := of_mem_tvBlocks hblock
  obtain ⟨hpos, segmentLen, hselected⟩ := hpositions p hp
  rw [hlater] at hpos
  unfold Sample.lookup
  cases hget : index.get? block.fullAnchor with
  | none => rfl
  | some byOffset =>
    obtain ⟨first, last, hsuffix, -⟩ := h.suffixOk hget
    rw [hget, hsuffix.selectedOffsets_eq, mem_intRange] at hselected
    rw [hget] at hpos
    have hle := hsuffix.first_le
    have hnot : ¬(first < p.offset ∧ p.offset ≤ last) := fun hrange => by
      rw [hsuffix.isLaterReject_iff.mpr hrange] at hpos
      cases hpos
    have hfirst : p.offset ≤ first := by
      split_ifs at hselected <;> omega
    by_contra hne
    have hkey := hsuffix.mem_keys.mp (Dict.mem_keys_iff.mpr hne)
    omega

/-- The branch of a later reject starts at the first rejected draft of its anchor and lists the
drafts from it on. -/
theorem branch_of_later
    (h : s.PlanOk draftBlockSize batchIdx firstTokenOnly planRow cells index)
    (hblock : block ∈ tvBlocks index draftBlockSize batchIdx firstTokenOnly planRow)
    {branch : TvBranch} (hbranch : block.branch = some branch)
    (hp : p ∈ block.positions) (hlater : p.isLaterReject = true) :
    branch.firstOffset < p.offset ∧ 1 ≤ branch.firstOffset ∧
      block.fullAnchor + branch.firstOffset - 1 < (s.validSeqLen : ℤ) ∧
      p.offset - branch.firstOffset < branch.tokenIds.length ∧
      (∀ g < branch.firstOffset, Sample.lookup index block.fullAnchor g = none) ∧
      Sample.lookup index block.fullAnchor branch.firstOffset ≠ none ∧
      (intRange branch.firstOffset p.offset).map (Sample.lookup index block.fullAnchor) =
        (branch.tokenIds.take (p.offset - branch.firstOffset).toNat).map some := by
  obtain ⟨hbranch', hpositions⟩ := of_mem_tvBlocks hblock
  have hpos := (hpositions p hp).1
  rw [hlater] at hpos
  cases hget : index.get? block.fullAnchor with
  | none => rw [hget] at hpos; cases hpos
  | some byOffset =>
    obtain ⟨first, last, hsuffix, hrow⟩ := h.suffixOk hget
    rw [hget] at hpos hbranch'
    obtain ⟨hlt, hle⟩ := hsuffix.isLaterReject_iff.mp hpos.symm
    have hfirst := hsuffix.first_pos
    have hfto : firstTokenOnly = false := by
      by_contra hne
      rw [hbranch', eq_true_of_ne_false hne] at hbranch
      simp [tvBranch] at hbranch
    rw [hbranch', hfto, hsuffix.tvBranch_isSome (by omega)] at hbranch
    obtain rfl := Option.some.inj hbranch
    have hlookup : ∀ o, Sample.lookup index block.fullAnchor o = byOffset.get? o := fun o => by
      rw [Sample.lookup, hget]
      rfl
    have hkey : ∀ o, byOffset.get? o ≠ none ↔ first ≤ o ∧ o ≤ last := fun o => by
      rw [← Dict.mem_keys_iff, hsuffix.mem_keys]
    have hlen : (intRange first p.offset).length = (p.offset - first).toNat := by
      simp [intRange]
    refine ⟨hlt, hfirst, hrow, ?_, fun g hg => ?_, ?_, ?_⟩
    · simp only [intRange, List.length_map, List.length_range]
      omega
    · rw [hlookup]
      by_contra hne
      have := (hkey g).mp hne
      simp only at hg
      omega
    · rw [hlookup]
      exact (hkey first).mpr ⟨le_refl _, by omega⟩
    · simp only
      rw [← intRange_append (by omega : first ≤ p.offset) (by omega : p.offset ≤ last + 1),
        List.map_append, List.take_append_of_le_length (by rw [List.length_map, hlen]),
        List.take_of_length_le (by rw [List.length_map, hlen]), List.map_map]
      refine List.map_congr_left fun o ho => ?_
      have hrange := mem_intRange.mp ho
      obtain ⟨t, ht⟩ := Option.ne_none_iff_exists'.mp ((hkey o).mpr ⟨hrange.1, by omega⟩)
      rw [hlookup, Function.comp_apply, ht]
      rfl

end Context

/-- The rows that are selected, before the branches. -/
def selectedHidden (hidden : List ℤ → H) (samples : List Sample) (blocks : List TvBlock) :
    List H :=
  (flatPositions blocks).map fun x => hidden
    ((samples.getD x.1.sampleIdx default).inputIds.take (max x.2.targetRow 0 + 1).toNat)

/-- The rows after the branches. -/
def branchHidden (hidden : List ℤ → H) (samples : List Sample) (blocks : List TvBlock) :
    List H :=
  scatter (selectedHidden hidden samples blocks) ((tvBranchSpecs 0 blocks).flatMap fun spec =>
    spec.writes hidden (samples.map Sample.inputIds))

section Plan

variable {draftBlockSize : ℕ} {firstTokenOnly : Bool} {samples : List Sample}
  {planRows : List (List AnchorCell)} {rejectedDrafts : Option (List (List RejectedCell))}
  {plan : TvPlan} {blocks : List TvBlock} {indices : ℕ → RejectedIndex}

variable (hwidth : ∀ s ∈ samples, s.validSeqLen ≤ s.inputIds.length)
  (hok : ∀ i < samples.length, (samples.getD i default).PlanOk draftBlockSize i firstTokenOnly
    (planRows.getD i []) ((rejectedDrafts.getD []).getD i []) (indices i))
  (hblocks : ∀ block ∈ blocks, block.sampleIdx < samples.length ∧
    block ∈ tvBlocks (indices block.sampleIdx) draftBlockSize block.sampleIdx firstTokenOnly
      (planRows.getD block.sampleIdx []))
  (hanchor : ∀ block ∈ blocks, 0 ≤ block.fullAnchor)

include hwidth hok hblocks hanchor

/-- What a branch writes at a position, and that it can. -/
theorem branch_writes {spec : TvBranchSpec} (hspec : spec ∈ tvBranchSpecs 0 blocks) {k : ℕ}
    {suffixIdx : ℤ}
    (hx : (k, suffixIdx) ∈ spec.flatIndices.zip spec.suffixIndices) :
    ∃ block p, (flatPositions blocks)[k]? = some (block, p) ∧
      spec.sampleIdx = block.sampleIdx ∧ spec.fullAnchor = block.fullAnchor ∧
      (0 ≤ spec.prefixLen - 1 + suffixIdx ∧ spec.prefixLen - 1 + suffixIdx <
        (spec.branchInputIds (samples.getD block.sampleIdx default).inputIds).length) ∧
      (samples.getD block.sampleIdx default).TeacherContext
        ((rejectedDrafts.getD []).getD block.sampleIdx []) block.fullAnchor p.offset
        ((spec.branchInputIds (samples.getD block.sampleIdx default).inputIds).take
          (spec.prefixLen + suffixIdx).toNat) := by
  obtain ⟨block, hblock, branch, hbranch, hsample, hfull, hfirst, htokens, -, hzip⟩ :=
    mem_tvBranchSpecs hspec
  obtain ⟨-, p, hk, hlater, hsuffix⟩ := hzip _ hx
  rw [Nat.sub_zero] at hk
  have hp : p ∈ block.positions := (mem_flatPositions.mp (List.mem_of_getElem? hk)).2
  obtain ⟨hlt, hmem⟩ := hblocks block hblock
  obtain ⟨hoffset, hpos, hrow, hcount, hbefore, hat, htoken⟩ :=
    branch_of_later (hok _ hlt) hmem hbranch hp hlater
  have hA := hanchor block hblock
  have hvalid : (samples.getD block.sampleIdx default).validSeqLen ≤
      (samples.getD block.sampleIdx default).inputIds.length := by
    rw [List.getD_eq_getElem _ _ hlt]
    exact hwidth _ (List.getElem_mem hlt)
  simp only at hsuffix
  have hprefix : spec.prefixLen = block.fullAnchor + branch.firstOffset := by
    rw [TvBranchSpec.prefixLen, hfull, hfirst]
  have hids : spec.branchInputIds (samples.getD block.sampleIdx default).inputIds =
      (samples.getD block.sampleIdx default).inputIds.take
        (block.fullAnchor + branch.firstOffset).toNat ++ branch.tokenIds := by
    rw [TvBranchSpec.branchInputIds, hprefix, sliceTo_eq (by omega), htokens]
  have hlen : ((samples.getD block.sampleIdx default).inputIds.take
      (block.fullAnchor + branch.firstOffset).toNat).length =
        (block.fullAnchor + branch.firstOffset).toNat := by
    rw [List.length_take]
    omega
  refine ⟨block, p, hk, hsample, hfull, ⟨by omega, ?_⟩, fun hnone => ?_, fun f hf hne hfirst' => ?_⟩
  · rw [hids, List.length_append, hlen, hprefix]
    omega
  · simp only [(hok _ hlt).rejectedToken_eq] at hnone
    exact absurd (hnone _ hoffset) hat
  · simp only [(hok _ hlt).rejectedToken_eq] at hne hfirst'
    have hf' : f = branch.firstOffset := by
      rcases lt_trichotomy f branch.firstOffset with hlt' | heq | hgt
      · exact absurd (hbefore f hlt') hne
      · exact heq
      · exact absurd (hfirst' _ hgt) hat
    subst hf'
    refine ⟨branch.tokenIds.take (p.offset - branch.firstOffset).toNat, ?_, ?_⟩
    · rw [← htoken]
      exact List.map_congr_left fun o _ => (hok _ hlt).rejectedToken_eq _ o
    · have htake : (spec.prefixLen + suffixIdx).toNat =
          (block.fullAnchor + branch.firstOffset).toNat +
            (p.offset - branch.firstOffset).toNat := by
        omega
      rw [hids, htake, List.take_append, List.take_of_length_le (by omega), hlen,
        Nat.add_sub_cancel_left]

/-- The row that is selected before the branches is one of the input. -/
theorem max_targetRow_lt {block : TvBlock} (hblock : block ∈ blocks) {p : TvPosition}
    (hp : p ∈ block.positions) :
    max p.targetRow 0 < ((samples.getD block.sampleIdx default).inputIds.length : ℤ) := by
  obtain ⟨hlt, hmem⟩ := hblocks block hblock
  have hA := hanchor block hblock
  have hshaped := (hok _ hlt).shaped hmem
  have hvalid : (samples.getD block.sampleIdx default).validSeqLen ≤
      (samples.getD block.sampleIdx default).inputIds.length := by
    rw [List.getD_eq_getElem _ _ hlt]
    exact hwidth _ (List.getElem_mem hlt)
  have hrow := hshaped.target_row p hp
  by_cases hlater : p.isLaterReject = true
  · obtain ⟨branch, hbranch⟩ := Option.isSome_iff_exists.mp (hshaped.branch p hp hlater)
    obtain ⟨-, hpos, hfirst, -⟩ := branch_of_later (hok _ hlt) hmem hbranch hp hlater
    rw [if_pos hlater] at hrow
    omega
  · have hpos := hshaped.offset_pos hp
    have hbound := hshaped.row_lt p hp (Bool.eq_false_iff.mpr hlater)
    rw [if_neg hlater] at hrow
    omega

/-- The rows that are selected before the branches. -/
theorem selectedRows_ok (hidden : List ℤ → H) :
    ((flattenBlocks blocks).batchIndices.zip (flattenBlocks blocks).targetRowIndices).mapM
      (fun x => do
        let rows ← indexAt ((samples.map Sample.inputIds).map (forwardHidden hidden)) x.1
        indexAt rows (max x.2 0)) =
    .ok (selectedHidden hidden samples blocks) := by
  have hzip : (flattenBlocks blocks).batchIndices.zip (flattenBlocks blocks).targetRowIndices =
      (flatPositions blocks).map fun x => (x.1.sampleIdx, x.2.targetRow) := by
    simp only [flattenBlocks]
    rw [flatMap_eq_map_flatPositions fun block _ => block.sampleIdx,
      flatMap_eq_map_flatPositions fun _ p => p.targetRow, List.zip_map']
  rw [hzip, List.mapM_map]
  refine mapM_eq_ok fun x hx => ?_
  obtain ⟨hblock, hp⟩ := mem_flatPositions.mp hx
  have hlt := (hblocks _ hblock).1
  have hrows : indexAt ((samples.map Sample.inputIds).map (forwardHidden hidden)) x.1.sampleIdx =
      .ok (forwardHidden hidden (samples.getD x.1.sampleIdx default).inputIds) := by
    refine indexAt_eq_ok (Int.natCast_nonneg _) ?_
    rw [Int.toNat_natCast, List.getElem?_map, List.getElem?_map, List.getElem?_eq_getElem hlt,
      List.getD_eq_getElem _ _ hlt]
    rfl
  simp only [Function.comp_apply, hrows]
  exact indexAt_forwardHidden hidden (le_max_right _ _)
    (max_targetRow_lt hwidth hok hblocks hanchor hblock hp)

/-- The branches of the plan are in range, and write positions of their own anchor. -/
theorem branch_inRange {spec : TvBranchSpec} (hspec : spec ∈ tvBranchSpecs 0 blocks) :
    spec.InRange (samples.map Sample.inputIds) (flatPositions blocks).length ∧
      ∀ k ∈ spec.flatIndices, ∃ o, PositionAt draftBlockSize planRows (flattenBlocks blocks) k
        spec.sampleIdx spec.fullAnchor o := by
  obtain ⟨block, hblock, -, -, hsample, -, -, -, hlen, -⟩ := mem_tvBranchSpecs hspec
  have hlt := (hblocks block hblock).1
  have hrow : (samples.map Sample.inputIds).getD spec.sampleIdx [] =
      (samples.getD block.sampleIdx default).inputIds := by
    rw [hsample]
    exact getD_map_of_lt Sample.inputIds hlt default []
  have hflat : ∀ k ∈ spec.flatIndices, ∃ suffixIdx,
      (k, suffixIdx) ∈ spec.flatIndices.zip spec.suffixIndices := by
    intro k hk
    rw [← List.map_fst_zip hlen.le] at hk
    obtain ⟨x, hx, rfl⟩ := List.mem_map.mp hk
    exact ⟨x.2, hx⟩
  refine ⟨⟨?_, fun suffixIdx hmem => ?_, fun k hk => ?_⟩, fun k hk => ?_⟩
  · rw [List.length_map, hsample]
    exact hlt
  · rw [← List.map_snd_zip hlen.ge] at hmem
    obtain ⟨x, hx, rfl⟩ := List.mem_map.mp hmem
    obtain ⟨block', p, -, hsample', -, hrange, -⟩ :=
      branch_writes hwidth hok hblocks hanchor hspec hx
    rw [hrow, ← hsample, hsample']
    exact hrange
  · obtain ⟨suffixIdx, hx⟩ := hflat k hk
    obtain ⟨block', p, hget, -⟩ := branch_writes hwidth hok hblocks hanchor hspec hx
    exact (List.getElem?_eq_some_iff.mp hget).1
  · obtain ⟨suffixIdx, hx⟩ := hflat k hk
    obtain ⟨block', p, hget, hsample', hfull, -⟩ :=
      branch_writes hwidth hok hblocks hanchor hspec hx
    have hblock' := (mem_flatPositions.mp (List.mem_of_getElem? hget)).1
    obtain ⟨hlt', hmem'⟩ := hblocks block' hblock'
    rw [hsample', hfull]
    exact ⟨p.offset, positionAt_of_flatPositions hget ((hok _ hlt').shaped hmem')⟩

/-- After the branches every position holds the row of its context. -/
theorem scattered_context (hidden : List ℤ → H)
    (hnodup : ((tvBranchSpecs 0 blocks).flatMap TvBranchSpec.flatIndices).Nodup)
    (hlisted : ∀ k, k ∈ (tvBranchSpecs 0 blocks).flatMap TvBranchSpec.flatIndices ↔
      ∃ p, (blocks.flatMap TvBlock.positions)[k]? = some p ∧ p.isLaterReject = true)
    {k : ℕ} {block : TvBlock} {p : TvPosition}
    (hk : (flatPositions blocks)[k]? = some (block, p)) :
    ∃ ids, (samples.getD block.sampleIdx default).TeacherContext
        ((rejectedDrafts.getD []).getD block.sampleIdx []) block.fullAnchor p.offset ids ∧
      (branchHidden hidden samples blocks)[k]? = some (hidden ids) := by
  have hwrites : ((tvBranchSpecs 0 blocks).flatMap fun spec =>
      spec.writes hidden (samples.map Sample.inputIds)).map Prod.fst =
        (tvBranchSpecs 0 blocks).flatMap TvBranchSpec.flatIndices := by
    rw [List.map_flatMap]
    refine List.flatMap_congr fun spec hspec => ?_
    obtain ⟨-, -, -, -, -, -, -, -, hlen, -⟩ := mem_tvBranchSpecs hspec
    rw [TvBranchSpec.writes, List.map_fst_zip (by rw [List.length_map]; exact hlen.le)]
  obtain ⟨hblock, hp⟩ : block ∈ blocks ∧ p ∈ block.positions :=
    mem_flatPositions.mp (List.mem_of_getElem? hk)
  obtain ⟨hlt, hmem⟩ := hblocks block hblock
  have hposition : (blocks.flatMap TvBlock.positions)[k]? = some p := by
    rw [← map_snd_flatPositions, List.getElem?_map, hk]
    rfl
  by_cases hlater : p.isLaterReject = true
  · -- the branch that lists the position is one of its own block
    obtain ⟨spec, hspec, hflat⟩ := List.mem_flatMap.mp ((hlisted k).mpr ⟨p, hposition, hlater⟩)
    obtain ⟨-, -, -, -, -, -, -, -, hlen, -⟩ := mem_tvBranchSpecs hspec
    rw [← List.map_fst_zip hlen.le] at hflat
    obtain ⟨x, hx, rfl⟩ := List.mem_map.mp hflat
    obtain ⟨block', p', hget, hsample, -, -, hcontext⟩ :=
      branch_writes hwidth hok hblocks hanchor hspec hx
    rw [hk] at hget
    obtain ⟨rfl, rfl⟩ := Prod.mk.inj (Option.some.inj hget)
    refine ⟨_, hcontext, getElem?_scatter_of_mem (by rw [hwrites]; exact hnodup) ?_ ?_⟩
    · refine List.mem_flatMap.mpr ⟨spec, hspec, ?_⟩
      have hrow : (samples.map Sample.inputIds).getD spec.sampleIdx [] =
          (samples.getD block.sampleIdx default).inputIds := by
        rw [hsample]
        exact getD_map_of_lt Sample.inputIds hlt default []
      rw [TvBranchSpec.writes, hrow, List.zip_map_right, List.mem_map]
      exact ⟨x, hx, rfl⟩
    · rw [selectedHidden, List.length_map]
      exact (List.getElem?_eq_some_iff.mp hk).1
  · have hlater' := Bool.eq_false_iff.mpr hlater
    have hnot : k ∉ (tvBranchSpecs 0 blocks).flatMap TvBranchSpec.flatIndices := by
      rw [hlisted]
      rintro ⟨p', hp', hl⟩
      rw [hposition] at hp'
      obtain rfl := Option.some.inj hp'
      exact hlater hl
    refine ⟨(samples.getD block.sampleIdx default).inputIds.take
      (block.fullAnchor + p.offset).toNat, ⟨fun _ => rfl, fun f hf hne => ?_⟩, ?_⟩
    · rw [(hok _ hlt).rejectedToken_eq,
        lookup_eq_none_of_not_later (hok _ hlt) hmem hp hlater' hf] at hne
      exact absurd rfl hne
    · have hshaped := (hok _ hlt).shaped hmem
      have hrow := hshaped.target_row p hp
      have hpos := hshaped.offset_pos hp
      have hA := hanchor block hblock
      rw [if_neg hlater] at hrow
      have hmax : max p.targetRow 0 + 1 = block.fullAnchor + p.offset := by omega
      rw [branchHidden, getElem?_scatter_of_notMem (by rw [hwrites]; exact hnot), selectedHidden,
        List.getElem?_map, hk, Option.map_some, hmax]

omit hwidth hok hblocks hanchor

theorem length_offsets_flattenBlocks (blocks : List TvBlock) :
    (flattenBlocks blocks).offsets.length = (flatPositions blocks).length := by
  simp only [flattenBlocks]
  rw [flatMap_eq_map_flatPositions fun _ p => p.offset, List.length_map]

/-- A block of a plan has a position. -/
theorem eq_nil_of_targetRowIndices {blocks : List TvBlock}
    (hshaped : ∀ block ∈ blocks, TvShaped (samples.getD block.sampleIdx default) draftBlockSize
      block.sampleIdx (planRows.getD block.sampleIdx []) block)
    (hnil : (flattenBlocks blocks).targetRowIndices = []) : blocks = [] := by
  cases blocks with
  | nil => rfl
  | cons block rest =>
    obtain ⟨k, hk, hoffsets⟩ := (hshaped block List.mem_cons_self).offsets
    have hlen := congrArg List.length hoffsets
    simp only [flattenBlocks, List.flatMap_cons, List.append_eq_nil_iff, List.map_eq_nil_iff]
      at hnil
    simp only [hnil.1, intRange, List.length_map, List.length_range, List.length_nil] at hlen
    omega

/-- Every plan that is returned, on inputs as wide as their attention mask and anchors that are
positions of them : each position is given the hidden state of its own context, `input_ids[:A+o]`
without a rejected draft before it, and otherwise `input_ids[:A+f]` with the rejected drafts of
the offsets `f, …, o-1` ; the rows of the branches are in range, and no branch writes a position
of another anchor or twice. Position ids that are not two-dimensional are refused when there is
a branch. -/
theorem teacherBranchHidden_context (hidden : List ℤ → H) (positionDim : Option ℕ)
    (hwidth : ∀ s ∈ samples, s.validSeqLen ≤ s.inputIds.length) (hnonneg : AnchorsNonneg planRows)
    (h : buildTvPositionPlan draftBlockSize firstTokenOnly samples planRows rejectedDrafts =
      .ok plan) :
    (plan.branchSpecs.flatMap TvBranchSpec.flatIndices).Nodup ∧
    (∀ spec ∈ plan.branchSpecs,
      spec.InRange (samples.map Sample.inputIds) plan.offsets.length ∧
      ∀ k ∈ spec.flatIndices, ∃ o,
        PositionAt draftBlockSize planRows plan k spec.sampleIdx spec.fullAnchor o) ∧
    ((plan.branchSpecs ≠ [] ∧ (positionDim.any fun dim => dim != 2) = true) →
      computeTvTeacherBranchHidden hidden (samples.map Sample.inputIds) positionDim
        ((samples.map Sample.inputIds).map (forwardHidden hidden)) plan = .error .positionIds) ∧
    (¬(plan.branchSpecs ≠ [] ∧ (positionDim.any fun dim => dim != 2) = true) →
      ∃ selected, computeTvTeacherBranchHidden hidden (samples.map Sample.inputIds) positionDim
          ((samples.map Sample.inputIds).map (forwardHidden hidden)) plan =
            .ok (selected, (plan.branchSpecs.flatMap TvBranchSpec.flatIndices).length) ∧
        selected.length = plan.offsets.length ∧
        ∀ k < plan.offsets.length, ∃ i a o ids,
          PositionAt draftBlockSize planRows plan k i a o ∧
          (samples.getD i default).TeacherContext ((rejectedDrafts.getD []).getD i []) a o ids ∧
          selected[k]? = some (hidden ids)) := by
  obtain ⟨blocks, indices, rfl, hok, hmem, -⟩ := of_buildTvPositionPlan_ok h
  have hblocks := fun block => (hmem block).mp
  have hshaped : ∀ block ∈ blocks, TvShaped (samples.getD block.sampleIdx default) draftBlockSize
      block.sampleIdx (planRows.getD block.sampleIdx []) block := fun block hblock =>
    (hok _ (hblocks block hblock).1).shaped (hblocks block hblock).2
  have hanchor : ∀ block ∈ blocks, 0 ≤ block.fullAnchor := fun block hblock =>
    (hshaped block hblock).anchor_nonneg hnonneg
  have hflat := flatIndices_tvBranchSpecs blocks 0 fun block hblock => (hshaped block hblock).branch
  have hnodup : ((tvBranchSpecs 0 blocks).flatMap TvBranchSpec.flatIndices).Nodup := by
    rw [hflat]
    exact nodup_flatIndices _
  have hcount := length_offsets_flattenBlocks blocks
  have hspecs : ∀ spec ∈ (flattenBlocks blocks).branchSpecs,
      spec.InRange (samples.map Sample.inputIds) (flatPositions blocks).length ∧
        ∀ k ∈ spec.flatIndices, ∃ o, PositionAt draftBlockSize planRows (flattenBlocks blocks) k
          spec.sampleIdx spec.fullAnchor o := fun spec hspec =>
    branch_inRange hwidth hok hblocks hanchor hspec
  have hempty := eq_nil_of_targetRowIndices hshaped
  refine ⟨hnodup, ?_, fun hdim => ?_, fun hdim => ?_⟩
  · rw [hcount]
    exact hspecs
  · have hne : ¬(flattenBlocks blocks).targetRowIndices.isEmpty = true := by
      intro hnil
      have hnone := hempty (List.isEmpty_iff.mp hnil)
      rw [hnone] at hdim
      exact hdim.1 rfl
    unfold computeTvTeacherBranchHidden
    rw [if_neg hne, selectedRows_ok hwidth hok hblocks hanchor hidden]
    simp only [bind, Except.bind]
    obtain ⟨spec, specs, heq⟩ := List.exists_cons_of_ne_nil hdim.1
    rw [heq, List.foldlM_cons, applyBranch_of_dim hdim.2 (hspecs spec (by simp [heq])).1.sample_lt]
    rfl
  · by_cases hnil : (flattenBlocks blocks).targetRowIndices.isEmpty = true
    · have hnone := hempty (List.isEmpty_iff.mp hnil)
      refine ⟨[], ?_, by rw [hnone]; rfl, fun k hk => ?_⟩
      · unfold computeTvTeacherBranchHidden
        rw [if_pos hnil, hnone]
        rfl
      · rw [hnone] at hk
        exact absurd hk (Nat.not_lt_zero k)
    · refine ⟨branchHidden hidden samples blocks, ?_, ?_, fun k hk => ?_⟩
      · unfold computeTvTeacherBranchHidden
        rw [if_neg hnil, selectedRows_ok hwidth hok hblocks hanchor hidden]
        simp only [bind, Except.bind]
        by_cases hbranch : (flattenBlocks blocks).branchSpecs = []
        · have hspecs : tvBranchSpecs 0 blocks = [] := hbranch
          rw [hbranch, branchHidden, hspecs]
          rfl
        · have hdim' := Bool.eq_false_iff.mpr fun hbad => hdim ⟨hbranch, hbad⟩
          rw [applyBranches_eq hdim' fun spec hspec => by
            rw [selectedHidden, List.length_map]
            exact (hspecs spec hspec).1]
          rw [Nat.zero_add]
          rfl
      · rw [branchHidden, length_scatter, selectedHidden, List.length_map, hcount]
      · rw [hcount] at hk
        have hget := List.getElem?_eq_getElem hk
        have hblock := (mem_flatPositions.mp (List.getElem_mem hk)).1
        obtain ⟨ids, hcontext, hselected⟩ := scattered_context hwidth hok hblocks hanchor hidden
          hnodup (fun k => by rw [hflat, mem_flatIndices]) hget
        exact ⟨_, _, _, ids, positionAt_of_flatPositions hget (hshaped _ hblock), hcontext,
          hselected⟩

end Plan

theorem teacherBranchHidden_context_suffixSample : ∃ plan,
    buildTvPositionPlan 6 false [suffixSample] [[⟨2, 4, 2, true⟩]]
      (some [suffixSample.kept false]) = .ok plan ∧
    computeTvTeacherBranchHidden id [suffixSample.inputIds] (some 2)
      [forwardHidden id suffixSample.inputIds] plan =
        .ok ([[1, 2, 3], [1, 2, 3, 4], [1, 2, 3, 4, 101]], 1) ∧
    (plan.branchSpecs.flatMap TvBranchSpec.flatIndices).Nodup ∧
    ∃ selected, computeTvTeacherBranchHidden id [suffixSample.inputIds] (some 2)
        [forwardHidden id suffixSample.inputIds] plan = .ok (selected, 1) ∧
      ∀ k < plan.offsets.length, ∃ i a o ids, PositionAt 6 [[⟨2, 4, 2, true⟩]] plan k i a o ∧
        ([suffixSample].getD i default).TeacherContext ([suffixSample.kept false].getD i []) a o
          ids ∧ selected[k]? = some ids := by
  have hplan : buildTvPositionPlan 6 false [suffixSample] [[⟨2, 4, 2, true⟩]]
      (some [suffixSample.kept false]) = .ok _ := rfl
  have hnonneg : AnchorsNonneg [[⟨2, 4, 2, true⟩]] := by
    intro row hrow cell hcell _
    rw [List.mem_singleton] at hrow
    rw [hrow, List.mem_singleton] at hcell
    rw [hcell]
    decide
  obtain ⟨hnodup, -, -, hselected⟩ := teacherBranchHidden_context id (some 2)
    (by simp [suffixSample]) hnonneg hplan
  obtain ⟨selected, heq, -, hcontext⟩ := hselected (by simp)
  exact ⟨_, hplan, rfl, hnodup, selected, heq, hcontext⟩

end DraftOpd
