import DraftOpd.DraftInput

/-!
# Each request's own hidden rows

The abstract state of the v1 draft worker is a list of requests, each with its own pending
rows (`DraftReq`) ; `flatBatch` is how a batch stores it. Every operation on the flat batch
is the plain operation on the list : keeping some requests (`filterBatch_flat`), putting two
lists together (`mergeBatch_flat`), and appending each request's rows at the positions
`[seqLen - ctxLen, seqLen)` (`appendTargetHidden_flat`). `segments_refine` is what follows
for every sequence of operations.
-/

namespace DraftOpd

variable {α : Type}

/-- A request of the draft worker, with the rows that are not in the draft cache yet. -/
structure DraftReq (α : Type) where
  rid : ℕ
  reqPoolIndex : ℕ
  seqLen : ℕ
  verifiedId : ℤ
  draftSeqLen : ℕ
  rows : List α
  rows_le : rows.length ≤ seqLen

/-- How a draft input stores the requests. -/
def flatInput (reqs : List (DraftReq α)) : DraftInput α where
  verifiedId := reqs.map (·.verifiedId)
  targetHidden := some (reqs.map (·.rows)).flatten
  ctxLens := reqs.map (·.rows.length)
  draftSeqLens := reqs.map (·.draftSeqLen)

/-- How a batch stores the requests. -/
def flatBatch (reqs : List (DraftReq α)) : SpecBatch α where
  reqs := reqs.map (·.rid)
  reqPoolIndices := reqs.map (·.reqPoolIndex)
  seqLens := reqs.map (·.seqLen)
  specInfo := flatInput reqs

/-- The requests at the given indices. -/
def selectReqs (reqs : List (DraftReq α)) (indices : List ℕ) : List (DraftReq α) :=
  indices.filterMap (reqs[·]?)

/-! ## Filter and merge -/

theorem indexSelect_map {β : Type} (f : DraftReq α → β) {reqs : List (DraftReq α)}
    {indices : List ℕ} (h : ∀ i ∈ indices, i < reqs.length) :
    indexSelect (reqs.map f) indices = .ok ((selectReqs reqs indices).map f) := by
  rw [indexSelect, gather_map f reqs h]
  rfl

theorem le_maxLen {lens : List ℕ} {n : ℕ} (h : n ∈ lens) : n ≤ maxLen lens := by
  induction lens with
  | nil => cases h
  | cons m lens ih =>
    rw [maxLen, List.foldr_cons]
    rcases List.mem_cons.mp h with rfl | h
    · exact le_max_left _ _
    · exact (ih h).trans (le_max_right _ _)

theorem filter_range_lt {n width : ℕ} (h : n ≤ width) :
    (List.range width).filter (· < n) = List.range n := by
  obtain ⟨k, rfl⟩ := Nat.exists_eq_add_of_le h
  rw [List.range_add, List.filter_append, List.filter_eq_self.mpr, List.filter_eq_nil_iff.mpr,
    List.append_nil]
  · simp
  · simp

/-- The masked rectangle, row by row. -/
theorem maskedPositions_eq {width : ℕ} {starts lens : List ℕ} (h : ∀ n ∈ lens, n ≤ width) :
    maskedPositions width starts lens =
      (starts.zip lens).flatMap fun seg => List.range' seg.1 seg.2 := by
  refine List.flatMap_congr fun seg hseg => ?_
  rw [filter_range_lt (h _ (List.of_mem_zip hseg).2), List.range'_eq_map_range]

theorem map_rows_selectReqs (reqs : List (DraftReq α)) (indices : List ℕ) :
    (selectReqs reqs indices).map (·.rows) = indices.filterMap ((reqs.map (·.rows))[·]?) := by
  rw [selectReqs, List.map_filterMap]
  refine List.filterMap_congr fun i _ => ?_
  rw [List.getElem?_map]

/-- `seg_start` : where the rows of the requests at `indices` start. -/
theorem segStart_flat {reqs : List (DraftReq α)} {indices : List ℕ}
    (h : ∀ i ∈ indices, i < reqs.length) :
    indexSelect (0 :: cumsum 0 (flatInput reqs).ctxLens).dropLast indices =
      .ok (indices.map (rowStart (reqs.map (·.rows)))) := by
  have hlens : (flatInput reqs).ctxLens = (reqs.map (·.rows)).map List.length := by
    rw [List.map_map]
    rfl
  rw [indexSelect, dropLast_cumsum, gather_map_range _ (by simpa [flatInput] using h), hlens]
  refine congrArg Except.ok (List.map_congr_left fun i _ => ?_)
  rw [rowStart, List.map_take, Nat.zero_add]

/-- `seg_lens` : how many rows the requests at `indices` have. -/
theorem segLens_flat {reqs : List (DraftReq α)} {indices : List ℕ}
    (h : ∀ i ∈ indices, i < reqs.length) :
    indexSelect (flatInput reqs).ctxLens indices =
      .ok (indices.map fun i => ((reqs.map (·.rows)).getD i []).length) := by
  rw [show (flatInput reqs).ctxLens = reqs.map (·.rows.length) from rfl, indexSelect_map _ h]
  refine congrArg Except.ok ?_
  rw [selectReqs, List.map_filterMap, ← List.filterMap_eq_map]
  refine List.filterMap_congr fun i hi => ?_
  simp [h i hi]

/-- The rows of the requests at `indices`, read from the flat list. -/
theorem filterRows_flat {reqs : List (DraftReq α)} {indices : List ℕ}
    (h : ∀ i ∈ indices, i < reqs.length) :
    DraftInput.filterRows (flatInput reqs).ctxLens (reqs.map (·.rows)).flatten indices =
      .ok ((selectReqs reqs indices).map (·.rows)).flatten := by
  have hgather := @gather_rows α (reqs.map (·.rows)) indices (by simpa using h)
  rw [← map_rows_selectReqs] at hgather
  have hpos : maskedPositions
      (maxLen (indices.map fun i => ((reqs.map (·.rows)).getD i []).length))
      (indices.map (rowStart (reqs.map (·.rows))))
      (indices.map fun i => ((reqs.map (·.rows)).getD i []).length) =
      indices.flatMap fun i => List.range' (rowStart (reqs.map (·.rows)) i)
        ((reqs.map (·.rows)).getD i []).length := by
    rw [maskedPositions_eq fun n hn => le_maxLen hn, List.zip_map', List.flatMap_map]
  unfold DraftInput.filterRows
  simp only [segStart_flat h, segLens_flat h, bind, Except.bind, hpos]
  rw [indexSelect, hgather]
  split_ifs with hmax
  · -- every chosen request is without rows
    have hnil : ((selectReqs reqs indices).map (·.rows)).flatten = [] := by
      rw [List.flatten_eq_nil_iff]
      intro rows hrows
      rw [map_rows_selectReqs, List.mem_filterMap] at hrows
      obtain ⟨i, hi, hget⟩ := hrows
      have hle : ((reqs.map (·.rows)).getD i []).length ≤ 0 :=
        (le_maxLen (List.mem_map_of_mem hi)).trans hmax
      rw [List.getD_eq_getElem?_getD, hget, Option.getD_some] at hle
      exact List.length_eq_zero_iff.mp (Nat.le_zero.mp hle)
    rw [hnil]
  · rfl

theorem filterHidden_flat {reqs : List (DraftReq α)} {indices : List ℕ}
    (h : ∀ i ∈ indices, i < reqs.length) :
    (flatInput reqs).filterHidden indices =
      .ok (some ((selectReqs reqs indices).map (·.rows)).flatten) := by
  have hrows := filterRows_flat h
  cases hhidden : (reqs.map (·.rows)).flatten with
  | nil =>
    have hnil : ((selectReqs reqs indices).map (·.rows)).flatten = [] := by
      rw [List.flatten_eq_nil_iff] at hhidden ⊢
      intro rows hmem
      rw [map_rows_selectReqs, List.mem_filterMap] at hmem
      obtain ⟨i, -, hi⟩ := hmem
      exact hhidden rows (List.mem_of_getElem? hi)
    rw [DraftInput.filterHidden, flatInput, hhidden, hnil]
  | cons x xs =>
    rw [hhidden] at hrows
    rw [DraftInput.filterHidden, show (flatInput reqs).targetHidden = some (x :: xs) from
      congrArg some hhidden]
    simp only [hrows]
    rfl

/-- `DFlashDraftInput.filter_batch` keeps the requests at `indices`, each with its own
rows. -/
theorem filterInput_flat {reqs : List (DraftReq α)} {indices : List ℕ}
    (h : ∀ i ∈ indices, i < reqs.length) :
    (flatInput reqs).filterBatch indices = .ok (flatInput (selectReqs reqs indices)) := by
  unfold DraftInput.filterBatch
  rw [show (flatInput reqs).verifiedId = reqs.map (·.verifiedId) from rfl,
    show (flatInput reqs).ctxLens = reqs.map (·.rows.length) from rfl,
    show (flatInput reqs).draftSeqLens = reqs.map (·.draftSeqLen) from rfl,
    indexSelect_map _ h, indexSelect_map _ h, indexSelect_map _ h, filterHidden_flat h]
  rfl

/-- `DFlashDraftInput.merge_batch` puts the requests one after the other. -/
theorem mergeInput_flat (reqs others : List (DraftReq α)) :
    (flatInput reqs).mergeBatch (flatInput others) = flatInput (reqs ++ others) := by
  unfold DraftInput.mergeBatch flatInput
  simp only [List.map_append, List.flatten_append]
  congr 1
  cases (reqs.map (·.rows)).flatten with
  | nil => simp
  | cons x xs => cases (others.map (·.rows)).flatten <;> simp

theorem filterIndices_flat {reqs : List (DraftReq α)} {indices : List ℕ}
    (h : ∀ i ∈ indices, i < reqs.length) :
    (flatBatch reqs).filterIndices indices = .ok (flatBatch (selectReqs reqs indices)) := by
  unfold SpecBatch.filterIndices
  rw [show (flatBatch reqs).reqs = reqs.map (·.rid) from rfl,
    show (flatBatch reqs).reqPoolIndices = reqs.map (·.reqPoolIndex) from rfl,
    show (flatBatch reqs).seqLens = reqs.map (·.seqLen) from rfl,
    show (flatBatch reqs).specInfo = flatInput reqs from rfl,
    indexSelect_map _ h, indexSelect_map _ h, indexSelect_map _ h, filterInput_flat h]
  rfl

theorem mergeBatch_flat (reqs others : List (DraftReq α)) :
    (flatBatch reqs).mergeBatch (flatBatch others) = flatBatch (reqs ++ others) := by
  unfold SpecBatch.mergeBatch flatBatch
  simp only [mergeInput_flat, List.map_append]

/-! ## The append -/

/-- A request in the terms of the append. -/
def DraftReq.ctxRow (req : DraftReq α) : CtxRow where
  reqPoolIndex := req.reqPoolIndex
  seqLen := req.seqLen
  ctxLen := req.rows.length

/-- The slots and positions of a request's own rows : its last positions. -/
def DraftReq.ownIndices (req : DraftReq α) (reqToToken : ReqToToken) : List (ℕ × ℤ) :=
  (List.range' (req.seqLen - req.rows.length) req.rows.length).map fun p =>
    (reqToToken req.reqPoolIndex p, (p : ℤ))

/-- A request's own rows, each at its own slot and position. -/
def DraftReq.ownWrites (req : DraftReq α) (reqToToken : ReqToToken) : List (ℕ × α × ℤ) :=
  List.zipWith (fun row index => (index.1, row, index.2)) req.rows (req.ownIndices reqToToken)

theorem DraftReq.length_ownIndices (req : DraftReq α) (reqToToken : ReqToToken) :
    (req.ownIndices reqToToken).length = req.rows.length := by
  simp [ownIndices]

theorem DraftReq.map_ctxIndex (req : DraftReq α) (reqToToken : ReqToToken) :
    (List.range req.rows.length).map (ctxIndex reqToToken req.ctxRow) =
      req.ownIndices reqToToken := by
  rw [ownIndices, List.range'_eq_map_range, List.map_map]
  refine List.map_congr_left fun r _ => ?_
  have hle := req.rows_le
  have hpos : (req.seqLen : ℤ) - req.rows.length + r =
      ((req.seqLen - req.rows.length + r : ℕ) : ℤ) := by
    omega
  simp only [ctxIndex, DraftReq.ctxRow, Function.comp, hpos, Int.toNat_natCast]

/-- The general path, when the rectangle is wide enough. -/
theorem generalPath_eq (reqToToken : ReqToToken) {reqs : List (DraftReq α)} {maxCtx : ℕ}
    (h : ∀ req ∈ reqs, req.rows.length ≤ maxCtx) :
    generalPath reqToToken (reqs.map (·.ctxRow)) maxCtx =
      reqs.flatMap fun req => req.ownIndices reqToToken := by
  rw [generalPath, List.flatMap_map]
  refine List.flatMap_congr fun req hreq => ?_
  rw [show req.ctxRow.ctxLen = req.rows.length from rfl, filter_range_lt (h req hreq),
    req.map_ctxIndex]

/-- The fast path, for the rows of the request itself. -/
theorem fastPath_eq (reqToToken : ReqToToken) (req : DraftReq α) :
    fastPath reqToToken [req.ctxRow] req.rows.length = req.ownIndices reqToToken := by
  rw [fastPath, List.flatMap_singleton, req.map_ctxIndex]

namespace DraftWorker

/-- The requests after an append. Where no request has rows, nothing else changes. -/
def materialised (w : DraftWorker) (reqs : List (DraftReq α)) : List (DraftReq α) :=
  reqs.map fun req =>
    { req with
      rows := []
      rows_le := Nat.zero_le _
      draftSeqLen := if (reqs.map (·.rows)).flatten.isEmpty then req.draftSeqLen
        else w.draftSeqLen req.seqLen }

/-- Is the rectangle of the append at least as wide as every request's rows. -/
def Wide (w : DraftWorker) (isExtend : Bool) (reqs : List (DraftReq α)) : Prop :=
  isExtend = true ∨ reqs.length = 1 ∨ ∀ req ∈ reqs, req.rows.length ≤ w.blockSize

theorem ctxIndices_flat (w : DraftWorker) (reqToToken : ReqToToken) (isExtend : Bool)
    {reqs : List (DraftReq α)} (hwide : w.Wide isExtend reqs)
    (hrows : (reqs.map (·.rows)).flatten ≠ []) :
    w.ctxIndices reqToToken (flatBatch reqs) isExtend (reqs.map (·.rows)).flatten.length =
      .ok (reqs.flatMap fun req => req.ownIndices reqToToken) := by
  have hzip : ((flatBatch reqs).reqPoolIndices.zip ((flatBatch reqs).seqLens.zip
      (flatBatch reqs).specInfo.ctxLens)).map (fun row =>
        { reqPoolIndex := row.1, seqLen := row.2.1, ctxLen := row.2.2 : CtxRow }) =
      reqs.map (·.ctxRow) := by
    simp only [flatBatch, flatInput, List.zip_map', List.map_map]
    rfl
  unfold ctxIndices
  simp only [hzip]
  rw [show (flatBatch reqs).reqs.length = reqs.length by simp [flatBatch]]
  by_cases hone : reqs.length = 1
  · obtain ⟨req, rfl⟩ := List.length_eq_one_iff.mp hone
    simp [fastPath_eq]
  · rw [if_neg hone]
    have hmax : ∀ req ∈ reqs, req.rows.length ≤
        if isExtend then maxLen (flatBatch reqs).specInfo.ctxLens else w.blockSize := by
      intro req hreq
      cases isExtend with
      | true => exact le_maxLen (List.mem_map_of_mem hreq)
      | false =>
        rcases hwide with h | h | h
        · cases h
        · exact absurd h hone
        · exact h req hreq
    obtain ⟨req, hreq, hne⟩ : ∃ req ∈ reqs, req.rows ≠ [] := by
      by_contra hcon
      push Not at hcon
      refine hrows (List.flatten_eq_nil_iff.mpr fun rows hmem => ?_)
      obtain ⟨req, hreq, rfl⟩ := List.mem_map.mp hmem
      exact hcon req hreq
    have hpos := List.length_pos_iff.mpr hne
    have hle := hmax req hreq
    rw [if_neg (by omega), generalPath_eq reqToToken hmax]

theorem length_flatMap_ownIndices (reqToToken : ReqToToken) (reqs : List (DraftReq α)) :
    (reqs.flatMap fun req => req.ownIndices reqToToken).length =
      (reqs.map (·.rows)).flatten.length := by
  induction reqs with
  | nil => rfl
  | cons req reqs ih =>
    rw [List.flatMap_cons, List.length_append, ih, req.length_ownIndices, List.map_cons,
      List.flatten_cons, List.length_append]

/-- The append writes each request's own rows at its own last positions, and raises
nothing. -/
theorem appendTargetHidden_flat (w : DraftWorker) (reqToToken draftReqToToken : ReqToToken)
    (isExtend : Bool) (reqs : List (DraftReq α)) (hwide : w.Wide isExtend reqs) :
    ∃ table, w.appendTargetHidden reqToToken draftReqToToken isExtend (flatBatch reqs) = .ok
      { writes := reqs.flatMap fun req => req.ownWrites reqToToken
        batch := flatBatch (w.materialised reqs)
        draftReqToToken := table } := by
  have hctx : (flatInput reqs).ctxLens.length = (flatBatch reqs).reqs.length := by
    simp [flatInput, flatBatch]
  have hdraft : (flatInput reqs).draftSeqLens.length = (flatBatch reqs).reqs.length := by
    simp [flatInput, flatBatch]
  unfold appendTargetHidden
  rw [show (flatBatch reqs).specInfo = flatInput reqs from rfl,
    show (flatInput reqs).targetHidden = some (reqs.map (·.rows)).flatten from rfl]
  simp only [hctx, hdraft, ne_eq, not_true_eq_false, if_false]
  by_cases hnil : (reqs.map (·.rows)).flatten = []
  · have hwrites : (reqs.flatMap fun req => req.ownWrites reqToToken) = [] := by
      rw [List.flatMap_eq_nil_iff]
      intro req hreq
      have := List.flatten_eq_nil_iff.mp hnil req.rows (List.mem_map_of_mem hreq)
      rw [DraftReq.ownWrites, this, List.zipWith_nil_left]
    refine ⟨draftReqToToken, ?_⟩
    rw [if_pos (by rw [hnil]; simp), hwrites]
    simp [materialised, flatBatch, flatInput, hnil, Function.comp_def]
  · have hlen : ¬(reqs.map (·.rows)).flatten.length ≤ 0 := by
      have := List.length_pos_iff.mpr hnil
      omega
    have hempty : (reqs.map (·.rows)).flatten.isEmpty = false := by
      simpa using hnil
    refine ⟨w.compactTable reqToToken draftReqToToken (flatBatch reqs), ?_⟩
    rw [if_neg hlen, w.ctxIndices_flat reqToToken isExtend hwide hnil]
    simp only [bind, Except.bind, length_flatMap_ownIndices, not_true_eq_false, if_false]
    have hzip : List.zipWith (fun row index => (index.1, row, index.2))
        (reqs.map (·.rows)).flatten (reqs.flatMap fun req => req.ownIndices reqToToken) =
        reqs.flatMap fun req => req.ownWrites reqToToken := by
      rw [← List.flatMap_def]
      exact zipWith_flatMap _ fun req _ => (req.length_ownIndices reqToToken).symm
    rw [hzip]
    simp [materialised, flatBatch, flatInput, hempty, Function.comp_def, pure, Except.pure]

/-! ## Prefill and verify -/

/-- The target captured one row for each input token of the prefill. -/
def Captured (reqs : List PrefillReq) (hidden : List α) : Prop :=
  hidden.length = (reqs.map (·.extendLen)).sum

/-- A request after its prefill, with the rows of its own tokens. -/
def prefilled (w : DraftWorker) (req : PrefillReq) (rows : List α) : DraftReq α where
  rid := req.rid
  reqPoolIndex := req.reqPoolIndex
  seqLen := req.prefixLen + rows.length
  verifiedId := req.nextTokenId
  draftSeqLen := if w.draftWindowSize.isSome then 0 else req.prefixLen
  rows
  rows_le := Nat.le_add_left _ _

/-- The requests of a prefill, with the captured rows cut by their lengths. -/
def prefillReqs (w : DraftWorker) (reqs : List PrefillReq) (hidden : List α) :
    List (DraftReq α) :=
  (reqs.zip (splitLens (reqs.map (·.extendLen)) hidden)).map fun p => w.prefilled p.1 p.2

/-- The requests of a prefill hold what the batch stores of them. -/
theorem map_prefillReqs {β : Type} (w : DraftWorker) {reqs : List PrefillReq} {hidden : List α}
    (h : Captured reqs hidden) {f : DraftReq α → β} {g : PrefillReq → β}
    (hfg : ∀ req rows, rows.length = req.extendLen → f (w.prefilled req rows) = g req) :
    (w.prefillReqs reqs hidden).map f = reqs.map g := by
  rw [prefillReqs, List.map_map]
  exact map_zip_splitLens (le_of_eq h.symm) hfg

theorem flatten_prefillReqs (w : DraftWorker) {reqs : List PrefillReq} {hidden : List α}
    (h : Captured reqs hidden) :
    ((w.prefillReqs reqs hidden).map (·.rows)).flatten = hidden := by
  rw [prefillReqs, List.map_map, ← List.flatMap_def]
  exact flatMap_zip_splitLens h

/-- The batch of a prefill stores each request with the rows of its own tokens. -/
theorem prefillBatch_eq_flat (w : DraftWorker) {reqs : List PrefillReq} {hidden : List α}
    (h : Captured reqs hidden) :
    w.prefillBatch reqs hidden = flatBatch (w.prefillReqs reqs hidden) := by
  have hmap := fun {β : Type} {f : DraftReq α → β} {g : PrefillReq → β} hfg =>
    w.map_prefillReqs h (f := f) (g := g) hfg
  unfold flatBatch flatInput
  rw [flatten_prefillReqs w h,
    hmap (g := (·.rid)) fun _ _ _ => rfl,
    hmap (g := (·.reqPoolIndex)) fun _ _ _ => rfl,
    hmap (g := fun req => req.prefixLen + req.extendLen) fun req rows hr => by
      rw [← hr]; rfl,
    hmap (g := (·.nextTokenId)) fun _ _ _ => rfl,
    hmap (g := (·.extendLen)) fun _ _ hr => hr,
    hmap (g := fun req => if w.draftWindowSize.isSome then 0 else req.prefixLen)
      fun _ _ _ => rfl]
  unfold prefillBatch
  cases w.draftWindowSize <;> rfl

/-- What `verify` answers for a batch of `bs` requests : no request commits more than the
block, and the target captured a row for each position of each block. -/
structure Answered (w : DraftWorker) (bs : ℕ) (answers : List VerifyAnswer)
    (hidden : List α) : Prop where
  length_answers : answers.length = bs
  commitLen_le : ∀ answer ∈ answers, answer.commitLen ≤ w.blockSize
  length_hidden : hidden.length = bs * w.blockSize

/-- A request after a verify that committed the tokens of `rows`. -/
def verified (req : DraftReq α) (answer : VerifyAnswer) (rows : List α) : DraftReq α :=
  { req with
    seqLen := req.seqLen + rows.length
    verifiedId := answer.newVerifiedId
    rows
    rows_le := Nat.le_add_left _ _ }

/-- Of each block's rows, those of the committed tokens. -/
def committedRows (w : DraftWorker) (answers : List VerifyAnswer) (hidden : List α) :
    List (List α) :=
  (answers.zip (splitLens (List.replicate answers.length w.blockSize) hidden)).map
    fun p => p.2.take p.1.commitLen

/-- The requests after a verify, each with the rows of the tokens it committed. -/
def verifiedReqs (w : DraftWorker) (reqs : List (DraftReq α)) (answers : List VerifyAnswer)
    (hidden : List α) : List (DraftReq α) :=
  (reqs.zip (answers.zip (w.committedRows answers hidden))).map fun p => verified p.1 p.2.1 p.2.2

theorem map_length_committedRows (w : DraftWorker) {bs : ℕ} {answers : List VerifyAnswer}
    {hidden : List α} (h : w.Answered bs answers hidden) :
    (w.committedRows answers hidden).map List.length = answers.map (·.commitLen) := by
  have hlens : (splitLens (List.replicate answers.length w.blockSize) hidden).map List.length =
      answers.map fun _ => w.blockSize := by
    rw [map_length_splitLens _ _ (by simp [h.length_hidden, h.length_answers]), List.map_const']
  have hlen : (splitLens (List.replicate answers.length w.blockSize) hidden).length =
      answers.length := by
    rw [← List.length_map List.length, hlens, List.length_map]
  rw [committedRows, List.map_map, ← map_zip_left (·.commitLen) (le_of_eq hlen.symm)]
  refine List.map_congr_left fun p hp => ?_
  have hrow := length_of_mem_zip hlens p hp
  have hle := h.commitLen_le p.1 (List.of_mem_zip hp).1
  simp [hrow, hle]

/-- The requests of a verify hold what the batch stores of them. -/
theorem map_verified {β : Type} {f : DraftReq α → β} {g : DraftReq α → VerifyAnswer → β}
    (hfg : ∀ req answer rows, rows.length = answer.commitLen →
      f (verified req answer rows) = g req answer) :
    ∀ {reqs : List (DraftReq α)} {answers : List VerifyAnswer} {rows : List (List α)},
      rows.map List.length = answers.map (·.commitLen) →
      ((reqs.zip (answers.zip rows)).map fun p => f (verified p.1 p.2.1 p.2.2)) =
        (reqs.zip answers).map fun p => g p.1 p.2
  | [], _, _, _ => rfl
  | _ :: _, [], _, _ => rfl
  | _ :: _, _ :: _, [], h => by simp at h
  | req :: reqs, answer :: answers, row :: rows, h => by
    rw [List.map_cons, List.map_cons, List.cons.injEq] at h
    rw [List.zip_cons_cons, List.zip_cons_cons, List.zip_cons_cons, List.map_cons, List.map_cons,
      map_verified hfg h.2]
    congr 1
    exact hfg req answer row h.1

/-- The batch after a verify stores each request with the rows of the tokens it
committed. -/
theorem verifiedBatch_flat (w : DraftWorker) {reqs : List (DraftReq α)}
    {answers : List VerifyAnswer} {hidden : List α}
    (h : w.Answered reqs.length answers hidden) :
    w.verifiedBatch (flatBatch reqs) answers hidden =
      flatBatch (w.verifiedReqs reqs answers hidden) := by
  have hlens := w.map_length_committedRows h
  have hlen := h.length_answers
  have hrows : ((w.verifiedReqs reqs answers hidden).map (·.rows)).flatten =
      w.nextTargetHidden answers hidden := by
    have hrl : (w.committedRows answers hidden).length = answers.length := by
      rw [← List.length_map List.length, hlens, List.length_map]
    have hright : (w.verifiedReqs reqs answers hidden).map (·.rows) =
        w.committedRows answers hidden := by
      rw [verifiedReqs, List.map_map]
      have hpair : (answers.zip (w.committedRows answers hidden)).length ≤ reqs.length := by
        rw [List.length_zip]
        omega
      conv_rhs => rw [← List.map_snd_zip (le_of_eq hrl), ← List.map_snd_zip hpair, List.map_map]
      rfl
    rw [hright]
    rfl
  have hfield : ∀ {β : Type} {f : DraftReq α → β} {g : DraftReq α → VerifyAnswer → β},
      (∀ req answer rows, rows.length = answer.commitLen →
        f (verified req answer rows) = g req answer) →
      (w.verifiedReqs reqs answers hidden).map f = (reqs.zip answers).map fun p => g p.1 p.2 := by
    intro β f g hfg
    rw [verifiedReqs, List.map_map]
    exact map_verified hfg hlens
  have hleft : ∀ {β : Type} (f : DraftReq α → β),
      ((reqs.zip answers).map fun p => f p.1) = reqs.map f :=
    fun f => map_zip_left f (le_of_eq hlen.symm)
  have hright : ∀ {β : Type} (f : VerifyAnswer → β),
      ((reqs.zip answers).map fun p => f p.2) = answers.map f :=
    fun f => map_zip_right f (le_of_eq hlen)
  have hseq : ((reqs.zip answers).map fun p => p.1.seqLen + p.2.commitLen) =
      List.zipWith (fun seqLen answer => seqLen + answer.commitLen) (reqs.map (·.seqLen))
        answers := by
    rw [List.zipWith_map_left, List.map_zip_eq_zipWith]
    rfl
  symm
  rw [flatBatch, flatInput, hrows,
    hfield (f := (·.rid)) (g := fun req _ => req.rid) fun _ _ _ _ => rfl, hleft,
    hfield (f := (·.reqPoolIndex)) (g := fun req _ => req.reqPoolIndex) fun _ _ _ _ => rfl, hleft,
    hfield (f := (·.seqLen)) (g := fun req answer => req.seqLen + answer.commitLen)
      fun req answer rows hr => by rw [← hr]; rfl, hseq,
    hfield (f := (·.verifiedId)) (g := fun _ answer => answer.newVerifiedId)
      fun _ _ _ _ => rfl, hright,
    hfield (f := (·.rows.length)) (g := fun _ answer => answer.commitLen) fun _ _ _ hr => hr,
    hright,
    hfield (f := (·.draftSeqLen)) (g := fun req _ => req.draftSeqLen) fun _ _ _ _ => rfl, hleft]
  rfl

/-! ## Whole runs -/

/-- The batches any sequence of prefill, verify, filter, merge and append leads to, with
the requests they stand for. An append may come at any point where its rectangle is wide
enough. -/
inductive DraftReached (w : DraftWorker) : List (DraftReq α) → SpecBatch α → Prop
  | prefill {reqs hidden} : Captured reqs hidden →
      DraftReached w (w.prefillReqs reqs hidden) (w.prefillBatch reqs hidden)
  | verify {reqs b answers hidden} : DraftReached w reqs b →
      w.Answered reqs.length answers hidden →
      DraftReached w (w.verifiedReqs reqs answers hidden) (w.verifiedBatch b answers hidden)
  | filter {reqs b b' indices} : DraftReached w reqs b → (∀ i ∈ indices, i < reqs.length) →
      b.filterIndices indices = .ok b' → DraftReached w (selectReqs reqs indices) b'
  | merge {reqs b others b'} : DraftReached w reqs b → DraftReached w others b' →
      DraftReached w (reqs ++ others) (b.mergeBatch b')
  | append {reqs b reqToToken draftReqToToken isExtend out} : DraftReached w reqs b →
      w.Wide isExtend reqs →
      w.appendTargetHidden reqToToken draftReqToToken isExtend b = .ok out →
      DraftReached w (w.materialised reqs) out.batch

theorem eq_flatBatch_of_reached (w : DraftWorker) {reqs : List (DraftReq α)} {b : SpecBatch α}
    (h : w.DraftReached reqs b) : b = flatBatch reqs := by
  induction h with
  | prefill hcap => exact w.prefillBatch_eq_flat hcap
  | verify _ hans ih => rw [ih, w.verifiedBatch_flat hans]
  | filter _ hidx hb ih =>
    rw [ih, filterIndices_flat hidx, Except.ok.injEq] at hb
    exact hb.symm
  | merge _ _ ih ih' => rw [ih, ih', mergeBatch_flat]
  | @append reqs _ reqToToken draftReqToToken isExtend _ _ hwide hout ih =>
    obtain ⟨table, happend⟩ := w.appendTargetHidden_flat reqToToken draftReqToToken isExtend
      reqs hwide
    rw [ih, happend, Except.ok.injEq] at hout
    rw [← hout]

/-- The batches the worker and the scheduler lead to : a forward is run on a batch that has
requests, and appends at once. -/
inductive WorkerReached (w : DraftWorker) : SpecBatch α → Prop
  | prefill {reqToToken draftReqToToken reqs hidden out} : Captured reqs hidden →
      w.forwardPrefill reqToToken draftReqToToken reqs hidden = .ok out →
      WorkerReached w out.batch
  | verify {reqToToken reqToToken' draftReqToToken b answers hidden out} : WorkerReached w b →
      b.reqs ≠ [] → w.Answered b.reqs.length answers hidden →
      w.forwardVerify reqToToken reqToToken' draftReqToToken b answers hidden = .ok out →
      WorkerReached w out.2.batch
  | filter {b b' keep} : WorkerReached w b → (∀ i ∈ keep, i < b.reqs.length) →
      b.filterBatch keep = .ok b' → WorkerReached w b'
  | merge {b b'} : WorkerReached w b → WorkerReached w b' → WorkerReached w (b.mergeLast b')

/-- Between forwards a batch with requests has no rows pending. -/
def Settled (b : SpecBatch α) : Prop :=
  b.reqs = [] ∨ ∃ reqs : List (DraftReq α), b = flatBatch reqs ∧ ∀ req ∈ reqs, req.rows = []

theorem rows_materialised (w : DraftWorker) (reqs : List (DraftReq α)) :
    ∀ req ∈ w.materialised reqs, req.rows = [] := by
  intro req hreq
  obtain ⟨req', -, rfl⟩ := List.mem_map.mp hreq
  rfl

/-- An append with no rows pending changes nothing. -/
theorem materialised_of_rows_nil (w : DraftWorker) {reqs : List (DraftReq α)}
    (h : ∀ req ∈ reqs, req.rows = []) : w.materialised reqs = reqs := by
  have hflat : (reqs.map (·.rows)).flatten = [] := by
    rw [List.flatten_eq_nil_iff]
    intro rows hrows
    obtain ⟨req, hreq, rfl⟩ := List.mem_map.mp hrows
    exact h req hreq
  conv_rhs => rw [← List.map_id reqs]
  refine List.map_congr_left fun req hreq => ?_
  obtain ⟨rid, reqPoolIndex, seqLen, verifiedId, draftSeqLen, rows, hle⟩ := req
  obtain rfl : rows = [] := h _ hreq
  simp [hflat]

/-- The prefill's append raises nothing and writes each request's own rows. -/
theorem forwardPrefill_ok (w : DraftWorker) (reqToToken draftReqToToken : ReqToToken)
    {reqs : List PrefillReq} {hidden : List α} (h : Captured reqs hidden) :
    ∃ out, w.forwardPrefill reqToToken draftReqToToken reqs hidden = .ok out ∧
      out.writes = (w.prefillReqs reqs hidden).flatMap (fun req => req.ownWrites reqToToken) ∧
      Settled out.batch := by
  obtain ⟨table, happend⟩ := w.appendTargetHidden_flat reqToToken draftReqToToken true
    (w.prefillReqs reqs hidden) (.inl rfl)
  rw [forwardPrefill, w.prefillBatch_eq_flat h, happend]
  exact ⟨_, rfl, rfl, .inr ⟨_, rfl, w.rows_materialised _⟩⟩

/-- The append before a verify has nothing to write, the one after it writes the rows of the
committed tokens, and neither raises. -/
theorem forwardVerify_ok (w : DraftWorker) (reqToToken reqToToken' draftReqToToken : ReqToToken)
    {reqs : List (DraftReq α)} (hrows : ∀ req ∈ reqs, req.rows = [])
    {answers : List VerifyAnswer} {hidden : List α} (h : w.Answered reqs.length answers hidden) :
    ∃ before after, w.forwardVerify reqToToken reqToToken' draftReqToToken (flatBatch reqs)
        answers hidden = .ok (before, after) ∧ before.writes = [] ∧
      after.writes = (w.verifiedReqs reqs answers hidden).flatMap
        (fun req => req.ownWrites reqToToken') ∧ Settled after.batch := by
  have hwide : w.Wide false reqs := .inr (.inr fun req hreq => by simp [hrows req hreq])
  obtain ⟨table, hbefore⟩ := w.appendTargetHidden_flat reqToToken draftReqToToken false reqs hwide
  rw [w.materialised_of_rows_nil hrows] at hbefore
  obtain ⟨table', hafter⟩ := w.appendTargetHidden_flat reqToToken' table true
    (w.verifiedReqs reqs answers hidden) (.inl rfl)
  have hnone : (reqs.flatMap fun req => req.ownWrites reqToToken) = [] := by
    rw [List.flatMap_eq_nil_iff]
    intro req hreq
    rw [DraftReq.ownWrites, hrows req hreq, List.zipWith_nil_left]
  unfold forwardVerify
  simp only [hbefore, bind, Except.bind, w.verifiedBatch_flat h, hafter]
  exact ⟨_, _, rfl, hnone, rfl, .inr ⟨_, rfl, w.rows_materialised _⟩⟩

/-- Keeping valid indices of a settled batch raises nothing, and leaves it settled. -/
theorem filterBatch_settled {b : SpecBatch α} (hb : Settled b) {keep : List ℕ}
    (hkeep : ∀ i ∈ keep, i < b.reqs.length) :
    ∃ b', b.filterBatch keep = .ok b' ∧ Settled b' := by
  unfold SpecBatch.filterBatch
  by_cases hnil : keep = []
  · rw [if_pos hnil]
    exact ⟨_, rfl, .inl rfl⟩
  · rw [if_neg hnil]
    by_cases hall : keep.length = b.reqs.length
    · rw [if_pos hall]
      exact ⟨_, rfl, hb⟩
    · rw [if_neg hall]
      rcases hb with hb | ⟨reqs, rfl, hrows⟩
      · obtain ⟨i, hi⟩ := List.exists_mem_of_ne_nil _ hnil
        have := hkeep i hi
        simp [hb] at this
      · rw [filterIndices_flat (by simpa [flatBatch] using hkeep)]
        refine ⟨_, rfl, .inr ⟨_, rfl, fun req hreq => ?_⟩⟩
        obtain ⟨i, -, hi⟩ := List.mem_filterMap.mp hreq
        exact hrows req (List.mem_of_getElem? hi)

theorem settled_mergeLast {b b' : SpecBatch α} (hb : Settled b) (hb' : Settled b') :
    Settled (b.mergeLast b') := by
  unfold SpecBatch.mergeLast
  by_cases hlast : b'.reqs = []
  · rwa [if_pos hlast]
  · rw [if_neg hlast]
    by_cases hrunning : b.reqs = []
    · rwa [if_pos hrunning]
    · rw [if_neg hrunning]
      obtain ⟨reqs, rfl, hrows⟩ := hb.resolve_left hrunning
      obtain ⟨others, rfl, hothers⟩ := hb'.resolve_left hlast
      refine .inr ⟨reqs ++ others, mergeBatch_flat reqs others, fun req hreq => ?_⟩
      exact (List.mem_append.mp hreq).elim (hrows req) (hothers req)

theorem settled_of_reached (w : DraftWorker) {b : SpecBatch α} (h : w.WorkerReached b) :
    Settled b := by
  induction h with
  | @prefill reqToToken draftReqToToken _ _ _ hcap hout =>
    obtain ⟨out, hout', -, hset⟩ := w.forwardPrefill_ok reqToToken draftReqToToken hcap
    rw [hout, Except.ok.injEq] at hout'
    exact hout' ▸ hset
  | @verify reqToToken reqToToken' draftReqToToken _ _ _ _ _ hne hans hout ih =>
    obtain ⟨reqs, rfl, hrows⟩ := ih.resolve_left hne
    obtain ⟨before, after, hout', -, -, hset⟩ := w.forwardVerify_ok reqToToken reqToToken'
      draftReqToToken hrows (by simpa [flatBatch] using hans)
    rw [hout, Except.ok.injEq] at hout'
    rw [hout']
    exact hset
  | filter _ hkeep hb' ih =>
    obtain ⟨b', hb, hset⟩ := filterBatch_settled ih hkeep
    rw [hb', Except.ok.injEq] at hb
    exact hb ▸ hset
  | merge _ _ ih ih' => exact settled_mergeLast ih ih'

/-- The positions of a request's own writes are its last ones. -/
theorem positions_ownWrites (req : DraftReq α) (reqToToken : ReqToToken) :
    (req.ownWrites reqToToken).map (fun write => write.2.2) =
      (List.range' (req.seqLen - req.rows.length) req.rows.length).map fun p : ℕ => (p : ℤ) := by
  have hlen : (req.ownIndices reqToToken).length ≤ req.rows.length :=
    le_of_eq (req.length_ownIndices reqToToken)
  rw [DraftReq.ownWrites, ← List.map_uncurry_zip_eq_zipWith, List.map_map]
  refine (map_zip_right (fun index : ℕ × ℤ => index.2) hlen).trans ?_
  rw [DraftReq.ownIndices, List.map_map]
  rfl

/-- The flat rows are the requests' own rows one after another, over any sequence of
operations ; the appends of the worker raise nothing and write each request's own rows at
its last positions ; and the fast path writes what the general one would. -/
theorem segments_refine (w : DraftWorker) :
    (∀ (reqs : List (DraftReq α)) (b : SpecBatch α), w.DraftReached reqs b →
      b = flatBatch reqs ∧ ∀ reqToToken draftReqToToken isExtend, w.Wide isExtend reqs →
        ∃ out, w.appendTargetHidden reqToToken draftReqToToken isExtend b = .ok out ∧
          out.writes = reqs.flatMap fun req => req.ownWrites reqToToken) ∧
    (∀ reqToToken draftReqToToken (reqs : List PrefillReq) (hidden : List α),
      Captured reqs hidden →
        ∃ out, w.forwardPrefill reqToToken draftReqToToken reqs hidden = .ok out ∧
          out.writes =
            (w.prefillReqs reqs hidden).flatMap fun req => req.ownWrites reqToToken) ∧
    (∀ b : SpecBatch α, w.WorkerReached b →
      (∀ keep, (∀ i ∈ keep, i < b.reqs.length) → ∃ b', b.filterBatch keep = .ok b') ∧
      (b.reqs ≠ [] → ∃ reqs : List (DraftReq α), b = flatBatch reqs ∧
        ∀ reqToToken reqToToken' draftReqToToken answers hidden,
          w.Answered reqs.length answers hidden → ∃ before after,
            w.forwardVerify reqToToken reqToToken' draftReqToToken b answers hidden =
              .ok (before, after) ∧ before.writes = [] ∧
            after.writes = (w.verifiedReqs reqs answers hidden).flatMap fun req =>
              req.ownWrites reqToToken')) ∧
    ∀ (req : DraftReq α) (reqToToken : ReqToToken),
      (req.ownWrites reqToToken).map (fun write => write.2.2) =
          (List.range' (req.seqLen - req.rows.length) req.rows.length).map
            (fun p : ℕ => (p : ℤ)) ∧
        ∀ maxCtx, req.rows.length ≤ maxCtx →
          fastPath reqToToken [req.ctxRow] req.rows.length =
            generalPath reqToToken [req.ctxRow] maxCtx := by
  refine ⟨fun reqs b hb => ?_, fun reqToToken draftReqToToken reqs hidden hcap => ?_,
    fun b hb => ⟨fun keep hkeep => ?_, fun hne => ?_⟩, fun req reqToToken =>
      ⟨positions_ownWrites req reqToToken, fun maxCtx hle => ?_⟩⟩
  · obtain rfl := w.eq_flatBatch_of_reached hb
    refine ⟨rfl, fun reqToToken draftReqToToken isExtend hwide => ?_⟩
    obtain ⟨table, happend⟩ := w.appendTargetHidden_flat reqToToken draftReqToToken isExtend
      reqs hwide
    exact ⟨_, happend, rfl⟩
  · obtain ⟨out, hout, hwrites, -⟩ := w.forwardPrefill_ok reqToToken draftReqToToken hcap
    exact ⟨out, hout, hwrites⟩
  · obtain ⟨b', hb', -⟩ := filterBatch_settled (w.settled_of_reached hb) hkeep
    exact ⟨b', hb'⟩
  · obtain ⟨reqs, rfl, hrows⟩ := (w.settled_of_reached hb).resolve_left hne
    refine ⟨reqs, rfl, fun reqToToken reqToToken' draftReqToToken answers hidden hans => ?_⟩
    obtain ⟨before, after, hout, hnone, hwrites, -⟩ := w.forwardVerify_ok reqToToken reqToToken'
      draftReqToToken hrows hans
    exact ⟨before, after, hout, hnone, hwrites⟩
  · rw [fastPath_eq]
    have h := @generalPath_eq α reqToToken [req] maxCtx (by simpa using hle)
    rw [List.flatMap_singleton] at h
    exact h.symm

/-- Two requests are verified, the first one leaves, and a third one joins : the rows that are
pending then are one of the second request and one of the third. -/
theorem segments_refine_threeReqs : ∃ (reqs : List (DraftReq ℕ)) (b : SpecBatch ℕ),
    (DraftWorker.mk 2 1 none).DraftReached reqs b ∧ b.specInfo.targetHidden = some [30, 40] ∧
      b.reqs = [1, 2] ∧ b.seqLens = [6, 1] ∧
      ∃ out, (DraftWorker.mk 2 1 none).appendTargetHidden (fun row p => 100 * row + p)
          (fun _ _ => 0) true b = .ok out ∧ out.writes = [(105, 30, 5), (200, 40, 0)] := by
  have hprefill := @DraftReached.prefill ℕ (DraftWorker.mk 2 1 none)
    [⟨0, 0, 0, 1, 7⟩, ⟨1, 1, 3, 2, 8⟩] [10, 11, 12] rfl
  have hverify := @DraftReached.verify ℕ _ _ _ [⟨9, 2⟩, ⟨6, 1⟩] [20, 21, 30, 31] hprefill
    ⟨rfl, by decide, by decide⟩
  have hfilter := @DraftReached.filter ℕ _ _ _ _ [1] hverify (by decide) rfl
  have hmerge := hfilter.merge (@DraftReached.prefill ℕ _ [⟨2, 2, 0, 1, 5⟩] [40] rfl)
  obtain ⟨-, happend⟩ := (@segments_refine ℕ ⟨2, 1, none⟩).1 _ _ hmerge
  obtain ⟨out, hout, hwrites⟩ := happend (fun row p => 100 * row + p) (fun _ _ => 0) true (.inl rfl)
  exact ⟨_, _, hmerge, rfl, rfl, rfl, out, hout, hwrites.trans (by decide)⟩

end DraftWorker

end DraftOpd
