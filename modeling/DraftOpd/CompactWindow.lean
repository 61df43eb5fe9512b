import DraftOpd.PoolTable

/-!
# The compact draft window

With a draft window the draft worker keeps a request table of its own, with the last slots of
every request only. The window starts on a page boundary, so up to a page less one of slots in
front of it are kept as well (`compactDraftSeqLen_spec`).

`compact_window` : the rows of the draft's table are the ends of the target's rows, in order, in
every batch of short and long requests, and nothing outside the target's table is read. What is
dropped is a number of whole pages, so a slot keeps its place in its page. The second worker also
writes the slots of the verify block behind them.
-/

namespace DraftOpd

namespace DraftWorker

variable (w : DraftWorker)

/-- The retained length : the window or a little more, down to a page boundary. -/
theorem compactDraftSeqLen_spec (hpage : 1 ≤ w.pageSize) (window seqLen : ℕ) :
    min seqLen window ≤ w.compactDraftSeqLen window seqLen ∧
      w.compactDraftSeqLen window seqLen ≤ min seqLen (window + w.pageSize - 1) ∧
      w.pageSize ∣ seqLen - w.compactDraftSeqLen window seqLen := by
  simp only [compactDraftSeqLen]
  split_ifs with hone
  · have hpage' : w.pageSize = 1 := by omega
    rw [hpage']
    exact ⟨le_rfl, by omega, one_dvd _⟩
  · have hmod := Nat.mod_lt (seqLen - min seqLen window) hpage
    have hle := Nat.mod_le (seqLen - min seqLen window) w.pageSize
    have hdvd := Nat.dvd_sub_mod (n := w.pageSize) (seqLen - min seqLen window)
    have hstart : seqLen - (seqLen - (seqLen - min seqLen window -
        (seqLen - min seqLen window) % w.pageSize)) =
        seqLen - min seqLen window - (seqLen - min seqLen window) % w.pageSize := by omega
    refine ⟨by omega, by omega, ?_⟩
    rwa [hstart]

/-- The compact branch of `_append_target_hidden_to_draft_kv` (`dflash_worker.py:987-1006`) : the
new lengths and the draft's table. -/
def compactDraftTable (window : ℕ) (target draft : PoolTable) (reqPoolIndices seqLens : List ℕ) :
    Except GatherError (List ℕ × PoolTable) := do
  let newDraftSeqLens := seqLens.map (w.compactDraftSeqLen window)
  let suffixStart := List.zipWith (· - ·) seqLens newDraftSeqLens
  let suffixCacheLoc ← gatherReqToTokenSegments target reqPoolIndices (some suffixStart)
    newDraftSeqLens
  return (newDraftSeqLens, assignReqToTokenPoolFunc draft
    (reqPoolIndices.zip (newDraftSeqLens.map fun len => (0, len))) suffixCacheLoc)

/-- `assign_extend_cache_locs_func` (`eagle_info_v2.py:427-486`) : the slots of the verify
blocks. -/
def assignExtendCacheLocs (reqToToken : PoolTable) (reqPoolIndices prefixLens : List ℕ)
    (draftTokenNum : ℕ) : List ℕ :=
  (reqPoolIndices.zip prefixLens).flatMap fun x =>
    (List.range' x.2 draftTokenNum).map (reqToToken.view x.1)

/-- The compact branch of the second worker (`dflash_worker_v2.py:275-319`) : the same table, and
the verify block after it. -/
def compactDraftTableV2 (window : ℕ) (target draft : PoolTable)
    (reqPoolIndices prefixLens : List ℕ) : Except GatherError (List ℕ × PoolTable) := do
  let verifyOutCacheLoc := assignExtendCacheLocs target reqPoolIndices prefixLens w.blockSize
  let (draftPrefixLens, draft) ←
    w.compactDraftTable window target draft reqPoolIndices prefixLens
  return (draftPrefixLens, assignReqToTokenPoolFunc draft
    (reqPoolIndices.zip (draftPrefixLens.map fun len => (len, len + w.blockSize)))
    verifyOutCacheLoc)

/-- Requests with rows of their own, inside both tables, with `extra` more columns. -/
structure Fits (target draft : PoolTable) (extra : ℕ) (reqs : List (ℕ × ℕ)) : Prop where
  rows_nodup : (reqs.map Prod.fst).Nodup
  in_target : ∀ req ∈ reqs, req.1 < target.size ∧ req.2 + extra ≤ target.poolLen
  in_draft : ∀ req ∈ reqs, req.1 < draft.size ∧ req.2 + extra ≤ draft.poolLen

section Rows

variable {target draft : PoolTable} {reqs : List (ℕ × ℕ)}

/-- The slots of a request that are kept. -/
def keptSlots (window : ℕ) (target : PoolTable) (req : ℕ × ℕ) : List ℕ :=
  (List.range' (req.2 - w.compactDraftSeqLen window req.2)
    (w.compactDraftSeqLen window req.2)).map (target.view req.1)

@[simp] theorem length_keptSlots (window : ℕ) (target : PoolTable) (req : ℕ × ℕ) :
    (w.keptSlots window target req).length = w.compactDraftSeqLen window req.2 := by
  rw [keptSlots, List.length_map, List.length_range']

/-- The kept slots of the requests, one after another. -/
theorem gatherSegments_kept (window : ℕ) :
    gatherSegments target.view (reqs.map fun req =>
      (req.1, req.2 - w.compactDraftSeqLen window req.2, w.compactDraftSeqLen window req.2)) =
      reqs.flatMap (w.keptSlots window target) := by
  unfold gatherSegments
  rw [List.flatMap_map]
  refine List.flatMap_congr fun req hreq => ?_
  rw [filter_range_lt (le_maxLen (by
    rw [List.map_map]
    exact List.mem_map_of_mem hreq)), keptSlots, List.range'_eq_map_range, List.map_map]
  rfl

/-- The gather and the kernel stay inside the tables, and write the kept slots to the mapping. -/
theorem compactDraftTable_ok (hpage : 1 ≤ w.pageSize) (window : ℕ) {extra : ℕ}
    (h : Fits target draft extra reqs) :
    ∃ draft', w.compactDraftTable window target draft (reqs.map Prod.fst) (reqs.map Prod.snd) =
        .ok (reqs.map fun req => w.compactDraftSeqLen window req.2, draft') ∧
      draft'.size = draft.size ∧ draft'.poolLen = draft.poolLen ∧
      draft'.view = assignReqToTokenPool draft.view
        (reqs.map fun req => (req.1, 0, 0 + (w.keptSlots window target req).length))
        (reqs.flatMap (w.keptSlots window target)) := by
  have hlen : ∀ seqLen, w.compactDraftSeqLen window seqLen ≤ seqLen := fun seqLen =>
    (w.compactDraftSeqLen_spec hpage window seqLen).2.1.trans (Nat.min_le_left _ _)
  have hgather : gatherReqToTokenSegments target (reqs.map Prod.fst)
      (some (reqs.map fun req => req.2 - w.compactDraftSeqLen window req.2))
      ((reqs.map Prod.snd).map (w.compactDraftSeqLen window)) =
      .ok (reqs.flatMap (w.keptSlots window target)) := by
    have hsegments := @gatherReqToTokenSegments_ok target (reqs.map fun req =>
      (req.1, req.2 - w.compactDraftSeqLen window req.2, w.compactDraftSeqLen window req.2))
    rw [w.gatherSegments_kept, List.map_map, List.map_map, List.map_map] at hsegments
    rw [List.map_map]
    refine hsegments fun seg hseg => ?_
    obtain ⟨req, hreq, rfl⟩ := List.mem_map.mp hseg
    have hin := h.in_target req hreq
    have hle := hlen req.2
    refine ⟨hin.1, ?_⟩
    dsimp only
    omega
  have hstart : List.zipWith (· - ·) (reqs.map Prod.snd)
      ((reqs.map Prod.snd).map (w.compactDraftSeqLen window)) =
      reqs.map fun req => req.2 - w.compactDraftSeqLen window req.2 := by
    rw [List.map_map, List.zipWith_map, List.zipWith_self]
    rfl
  have hprograms : (reqs.map Prod.fst).zip (((reqs.map Prod.snd).map
      (w.compactDraftSeqLen window)).map fun len => (0, len)) =
      reqs.map fun req => (req.1, 0, 0 + (w.keptSlots window target req).length) := by
    simp only [List.map_map, List.zip_map', length_keptSlots, Nat.zero_add]
    rfl
  refine ⟨assignReqToTokenPoolFunc draft
    (reqs.map fun req => (req.1, 0, 0 + (w.keptSlots window target req).length))
    (reqs.flatMap (w.keptSlots window target)), ?_, rfl, rfl, view_assignReqToTokenPoolFunc ?_ ?_⟩
  · simp only [compactDraftTable]
    rw [hstart, hprograms, hgather, List.map_map]
    rfl
  · intro x hx
    obtain ⟨req, hreq, rfl⟩ := List.mem_map.mp hx
    have hin := h.in_draft req hreq
    have hle := hlen req.2
    rw [length_keptSlots]
    refine ⟨hin.1, ?_, ?_⟩
    · exact Nat.zero_le _
    · dsimp only
      omega
  · simp [List.length_flatMap, Function.comp_def]

/-- The mapping holds the kept slots of every request and `extra` of those behind them, and is
the old one elsewhere. -/
structure HoldsKept (window : ℕ) (target draft draft' : PoolTable) (extra : ℕ)
    (reqs : List (ℕ × ℕ)) : Prop where
  size_eq : draft'.size = draft.size
  poolLen_eq : draft'.poolLen = draft.poolLen
  kept : ∀ req ∈ reqs, ∀ p, draft'.view req.1 p =
    if p < w.compactDraftSeqLen window req.2 + extra then
      target.view req.1 (req.2 - w.compactDraftSeqLen window req.2 + p)
    else draft.view req.1 p
  others : ∀ row ∉ reqs.map Prod.fst, ∀ p, draft'.view row p = draft.view row p

/-- The first worker. -/
theorem compactDraftTable_holds (hpage : 1 ≤ w.pageSize) (window : ℕ) {extra : ℕ}
    (h : Fits target draft extra reqs) :
    ∃ draft', w.compactDraftTable window target draft (reqs.map Prod.fst) (reqs.map Prod.snd) =
        .ok (reqs.map fun req => w.compactDraftSeqLen window req.2, draft') ∧
      w.HoldsKept window target draft draft' 0 reqs := by
  obtain ⟨draft', hok, hsize, hlen, hview⟩ := w.compactDraftTable_ok hpage window h
  obtain ⟨hin, hout⟩ := assignReqToTokenPool_spec Prod.fst (fun _ => 0)
    (w.keptSlots window target) reqs draft.view h.rows_nodup
  rw [← hview] at hin hout
  refine ⟨draft', hok, hsize, hlen, fun req hreq p => ?_, hout⟩
  rw [hin req hreq p, length_keptSlots, Nat.zero_add, Nat.sub_zero, Nat.add_zero]
  by_cases hp : p < w.compactDraftSeqLen window req.2
  · rw [if_pos ⟨Nat.zero_le p, hp⟩, if_pos hp, keptSlots, List.getD_eq_getElem?_getD,
      List.getElem?_map, List.getElem?_range' hp, Option.map_some, Option.getD_some, Nat.one_mul]
  · rw [if_neg (fun hmem => hp hmem.2), if_neg hp]

/-- The second worker : the verify block continues the row. -/
theorem compactDraftTableV2_holds (hpage : 1 ≤ w.pageSize) (window : ℕ)
    (h : Fits target draft w.blockSize reqs) :
    ∃ draft', w.compactDraftTableV2 window target draft (reqs.map Prod.fst)
        (reqs.map Prod.snd) =
        .ok (reqs.map fun req => w.compactDraftSeqLen window req.2, draft') ∧
      w.HoldsKept window target draft draft' w.blockSize reqs := by
  have hle : ∀ seqLen, w.compactDraftSeqLen window seqLen ≤ seqLen := fun seqLen =>
    (w.compactDraftSeqLen_spec hpage window seqLen).2.1.trans (Nat.min_le_left _ _)
  obtain ⟨draft₁, hok, hkept⟩ := w.compactDraftTable_holds hpage window h
  let block : ℕ × ℕ → List ℕ := fun req =>
    (List.range' req.2 w.blockSize).map (target.view req.1)
  have hblock : ∀ req, (block req).length = w.blockSize := by simp [block]
  have hlocs : assignExtendCacheLocs target (reqs.map Prod.fst) (reqs.map Prod.snd) w.blockSize =
      reqs.flatMap block := by
    rw [assignExtendCacheLocs, List.zip_map', List.flatMap_map]
  have hprograms : (reqs.map Prod.fst).zip ((reqs.map fun req =>
      w.compactDraftSeqLen window req.2).map fun len => (len, len + w.blockSize)) =
      reqs.map fun req => (req.1, w.compactDraftSeqLen window req.2,
        w.compactDraftSeqLen window req.2 + (block req).length) := by
    simp only [List.map_map, List.zip_map', hblock]
    rfl
  have hview : (assignReqToTokenPoolFunc draft₁ (reqs.map fun req =>
      (req.1, w.compactDraftSeqLen window req.2,
        w.compactDraftSeqLen window req.2 + (block req).length)) (reqs.flatMap block)).view =
      assignReqToTokenPool draft₁.view (reqs.map fun req =>
        (req.1, w.compactDraftSeqLen window req.2,
          w.compactDraftSeqLen window req.2 + (block req).length)) (reqs.flatMap block) := by
    refine view_assignReqToTokenPoolFunc (fun x hx => ?_) ?_
    · obtain ⟨req, hreq, rfl⟩ := List.mem_map.mp hx
      have hin := h.in_draft req hreq
      have hreq' := hle req.2
      rw [hkept.size_eq, hkept.poolLen_eq, hblock]
      exact ⟨hin.1, Nat.le_add_right _ _, by dsimp only; omega⟩
    · simp [List.length_flatMap, Function.comp_def]
  obtain ⟨hin, hout⟩ := assignReqToTokenPool_spec Prod.fst
    (fun req => w.compactDraftSeqLen window req.2) block reqs draft₁.view h.rows_nodup
  rw [← hview] at hin hout
  refine ⟨assignReqToTokenPoolFunc draft₁ (reqs.map fun req =>
      (req.1, w.compactDraftSeqLen window req.2,
        w.compactDraftSeqLen window req.2 + (block req).length)) (reqs.flatMap block),
    ?_, hkept.size_eq, hkept.poolLen_eq, fun req hreq p => ?_, fun row hrow p => ?_⟩
  · simp only [compactDraftTableV2]
    rw [hok, hlocs, ← hprograms]
    rfl
  · rw [hin req hreq p, hblock, hkept.kept req hreq p, Nat.add_zero]
    by_cases hold : p < w.compactDraftSeqLen window req.2
    · rw [if_neg (by omega), if_pos hold, if_pos (by omega)]
    · by_cases hnew : p < w.compactDraftSeqLen window req.2 + w.blockSize
      · have hreq' := hle req.2
        rw [if_pos ⟨by omega, hnew⟩, if_pos hnew, List.getD_eq_getElem?_getD, List.getElem?_map,
          List.getElem?_range' (by omega), Option.map_some, Option.getD_some]
        congr 1
        omega
      · rw [if_neg (fun hmem => hnew hmem.2), if_neg hold, if_neg hnew]
  · rw [hout row hrow p, hkept.others row hrow p]

end Rows

/-! ## The rows of the draft's table -/

/-- A row of the draft's table after the update : the end of the target's row with `extra` slots
behind it, in order, then what was there. -/
structure CompactRow (target draft draft' : PoolTable) (row seqLen kept extra pageSize : ℕ) :
    Prop where
  suffix : (draft'.row row).take (kept + extra) =
    ((target.row row).take (seqLen + extra)).drop (seqLen - kept)
  rest : (draft'.row row).drop (kept + extra) = (draft.row row).drop (kept + extra)
  /-- A slot that stands at its place in a page still does. -/
  residue : ∀ k < kept + extra, ∃ slot, (draft'.row row)[k]? = some slot ∧
    (target.row row)[seqLen - kept + k]? = some slot ∧
    (slot % pageSize = (seqLen - kept + k) % pageSize → slot % pageSize = k % pageSize)

variable {w} {window extra : ℕ} {target draft draft' : PoolTable} {reqs : List (ℕ × ℕ)}

theorem HoldsKept.compactRow (hpage : 1 ≤ w.pageSize) (h : Fits target draft extra reqs)
    (hkept : w.HoldsKept window target draft draft' extra reqs) {req : ℕ × ℕ}
    (hreq : req ∈ reqs) :
    CompactRow target draft draft' req.1 req.2 (w.compactDraftSeqLen window req.2) extra
      w.pageSize := by
  obtain ⟨-, hle, hdvd⟩ := w.compactDraftSeqLen_spec hpage window req.2
  generalize hr : w.compactDraftSeqLen window req.2 = r at hle hdvd
  have hle' : r ≤ req.2 := hle.trans (Nat.min_le_left _ _)
  obtain ⟨htarget, hstop⟩ := h.in_target req hreq
  obtain ⟨hdraft, hfit⟩ := h.in_draft req hreq
  have hdraft' : req.1 < draft'.size := by rwa [hkept.size_eq]
  have hfit' : req.2 + extra ≤ draft'.poolLen := by rwa [hkept.poolLen_eq]
  have hview : ∀ {k}, k < r + extra → draft'.view req.1 k = target.view req.1 (req.2 - r + k) := by
    intro k hk
    rw [hkept.kept req hreq k, hr, if_pos hk]
  refine ⟨?_, ?_, fun k hk => ?_⟩
  · have hsource := PoolTable.slice_row (n := r + extra) htarget
      (show req.2 - r + (r + extra) ≤ target.poolLen by omega)
    have hwritten := PoolTable.slice_row (n := r + extra) hdraft'
      (show 0 + (r + extra) ≤ draft'.poolLen by omega)
    rw [List.drop_take, show req.2 + extra - (req.2 - r) = r + extra by omega, hsource,
      ← List.drop_zero (l := draft'.row req.1), hwritten]
    refine List.ext_getElem? fun k => ?_
    rw [List.getElem?_map, List.getElem?_map]
    by_cases hk : k < r + extra
    · rw [List.getElem?_range' hk, List.getElem?_range' hk, Option.map_some, Option.map_some,
        Nat.zero_add, Nat.one_mul, hview hk]
    · rw [List.getElem?_eq_none (by simpa using hk), List.getElem?_eq_none (by simpa using hk)]
      rfl
  · refine List.ext_getElem? fun k => ?_
    rw [List.getElem?_drop, List.getElem?_drop]
    by_cases hk : r + extra + k < draft.poolLen
    · rw [PoolTable.getElem?_row hdraft' (by rwa [hkept.poolLen_eq]),
        PoolTable.getElem?_row hdraft hk, hkept.kept req hreq, hr, if_neg (by omega)]
    · rw [List.getElem?_eq_none (by rw [PoolTable.length_row hdraft', hkept.poolLen_eq]; omega),
        List.getElem?_eq_none (by rw [PoolTable.length_row hdraft]; omega)]
  · refine ⟨_, PoolTable.getElem?_row hdraft' (by omega), ?_, fun hres => ?_⟩
    · rw [PoolTable.getElem?_row htarget (by omega), hview hk]
    · rw [hres, Nat.add_mod, Nat.mod_eq_zero_of_dvd hdvd, Nat.zero_add, Nat.mod_mod]

theorem HoldsKept.row_eq (hkept : w.HoldsKept window target draft draft' extra reqs) {row : ℕ}
    (hsize : row < draft.size) (hrow : row ∉ reqs.map Prod.fst) :
    draft'.row row = draft.row row := by
  have hsize' : row < draft'.size := by rwa [hkept.size_eq]
  refine List.ext_getElem? fun k => ?_
  by_cases hk : k < draft.poolLen
  · rw [PoolTable.getElem?_row hsize' (by rwa [hkept.poolLen_eq]), PoolTable.getElem?_row hsize hk,
      hkept.others row hrow]
  · rw [List.getElem?_eq_none (by rw [PoolTable.length_row hsize', hkept.poolLen_eq]; omega),
      List.getElem?_eq_none (by rw [PoolTable.length_row hsize]; omega)]

end DraftWorker

/-- The retained length, and the rows of the draft's table for every ragged batch. -/
theorem compact_window (w : DraftWorker) (hpage : 1 ≤ w.pageSize) (window : ℕ) :
    (∀ seqLen, min seqLen window ≤ w.compactDraftSeqLen window seqLen ∧
      w.compactDraftSeqLen window seqLen ≤ min seqLen (window + w.pageSize - 1) ∧
      w.pageSize ∣ seqLen - w.compactDraftSeqLen window seqLen) ∧
    ∀ (target draft : PoolTable) (reqs : List (ℕ × ℕ)),
      (DraftWorker.Fits target draft 0 reqs → ∃ draft',
        w.compactDraftTable window target draft (reqs.map Prod.fst) (reqs.map Prod.snd) =
          .ok (reqs.map fun req => w.compactDraftSeqLen window req.2, draft') ∧
        (∀ req ∈ reqs, DraftWorker.CompactRow target draft draft' req.1 req.2
          (w.compactDraftSeqLen window req.2) 0 w.pageSize) ∧
        ∀ row < draft.size, row ∉ reqs.map Prod.fst → draft'.row row = draft.row row) ∧
      (DraftWorker.Fits target draft w.blockSize reqs → ∃ draft',
        w.compactDraftTableV2 window target draft (reqs.map Prod.fst) (reqs.map Prod.snd) =
          .ok (reqs.map fun req => w.compactDraftSeqLen window req.2, draft') ∧
        (∀ req ∈ reqs, DraftWorker.CompactRow target draft draft' req.1 req.2
          (w.compactDraftSeqLen window req.2) w.blockSize w.pageSize) ∧
        ∀ row < draft.size, row ∉ reqs.map Prod.fst → draft'.row row = draft.row row) := by
  refine ⟨w.compactDraftSeqLen_spec hpage window,
    fun target draft reqs => ⟨fun h => ?_, fun h => ?_⟩⟩
  · obtain ⟨draft', hok, hkept⟩ := w.compactDraftTable_holds hpage window h
    exact ⟨draft', hok, fun req hreq => hkept.compactRow hpage h hreq,
      fun row hsize hrow => hkept.row_eq hsize hrow⟩
  · obtain ⟨draft', hok, hkept⟩ := w.compactDraftTableV2_holds hpage window h
    exact ⟨draft', hok, fun req hreq => hkept.compactRow hpage h hreq,
      fun row hsize hrow => hkept.row_eq hsize hrow⟩

/-- A long and a short request with pages of four slots and a window of three. -/
theorem compact_window_two_requests : ∃ draft' : PoolTable,
    DraftWorker.compactDraftTable ⟨2, 4, some 3⟩ 3 ⟨2, 12, List.range 24, rfl⟩
        ⟨2, 12, List.replicate 24 0, rfl⟩ [0, 1] [9, 2] = .ok ([5, 2], draft') ∧
      (draft'.row 0).take 5 = [4, 5, 6, 7, 8] ∧ (draft'.row 1).take 2 = [12, 13] := by
  have hfits : DraftWorker.Fits ⟨2, 12, List.range 24, rfl⟩ ⟨2, 12, List.replicate 24 0, rfl⟩ 0
      [(0, 9), (1, 2)] := ⟨by decide, by decide, by decide⟩
  obtain ⟨draft', hok, hrows, -⟩ := ((compact_window ⟨2, 4, some 3⟩ (by decide) 3).2 _ _ _).1 hfits
  exact ⟨draft', hok, (hrows (0, 9) (by decide)).suffix, (hrows (1, 2) (by decide)).suffix⟩

end DraftOpd
