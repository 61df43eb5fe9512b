import DraftOpd.Paging
import DraftOpd.SortedSet

/-!
# Paged KV slots of the verify step

A spec-v1 verify step takes the KV slots of a whole block for every request of the batch,
writes them to `req_to_token`, and gives back the pages past the committed tokens.
`PagedAllocator` models `PagedTokenToKVPoolAllocator` (`mem_cache/allocator.py:356-513`),
`prepareForVerify` and `verify` the paged branches of `DFlashVerifyInput`
(`speculative/dflash_info.py`).

The kernel gives a request the slots of its new positions on its old page and on the free
pages (`extendIndices_eq`), and the rows of `req_to_token` are written where the programs of
the batch write and nowhere else (`assignReqToTokenPool_spec`).
-/

namespace DraftOpd

/-- What the paged allocator and the verify step raise. -/
inductive KvError where
  /-- `Prefill out of memory`. -/
  | outOfMemory (extendNumTokens : ℕ)
  /-- The assertions of `SGLANG_DEBUG_MEMORY_POOL`. -/
  | lastLoc
  | duplicateIndices
  | duplicateFreePages
  /-- `Expected page_size > 1`. -/
  | pageSize (pageSize : ℕ)

/-! ## The allocator -/

/-- `PagedTokenToKVPoolAllocator`. -/
structure PagedAllocator where
  pageSize : ℕ
  numPages : ℕ
  needSort : Bool
  debugMode : Bool
  freePages : List ℕ
  releasePages : List ℕ
  isNotInFreeGroup : Bool
  freeGroup : List ℕ

namespace PagedAllocator

/-- `clear` : page `0` is kept for the dummy outputs of padded tokens. -/
def clear (a : PagedAllocator) : PagedAllocator :=
  { a with
    freePages := List.range' 1 a.numPages
    releasePages := []
    isNotInFreeGroup := true
    freeGroup := [] }

/-- `merge_and_sort_free` (`allocator.py:82-88`). -/
def mergeAndSortFree (a : PagedAllocator) : PagedAllocator :=
  if 0 < a.releasePages.length then
    { a with
      freePages := (a.freePages ++ a.releasePages).insertionSort (· ≤ ·)
      releasePages := [] }
  else a

/-- The pages a request gets when it grows from `preLen` to `seqLen`. -/
def numNewPages (pageSize preLen seqLen : ℕ) : ℕ :=
  (seqLen + pageSize - 1) / pageSize - (preLen + pageSize - 1) / pageSize

/-- `get_num_new_pages` (`utils/common.py:3891-3914`), with prefix lengths. -/
def getNumNewPages (seqLens : List ℕ) (pageSize : ℕ) (prefixLens : List ℕ) : ℕ :=
  (List.zipWith (numNewPages pageSize) prefixLens seqLens).sum

/-- One program of `alloc_extend_kernel` (`allocator.py:235-318`) : the rest of the old page,
the new full pages, the new partial page. -/
def extendIndices (pageSize : ℕ) (freePages : List ℕ) (newPageStartLoc preLen seqLen : ℕ)
    (lastLoc : ℤ) : List ℕ :=
  let numPart1 := min seqLen ((preLen + pageSize - 1) / pageSize * pageSize) - preLen
  let part1 := (List.range numPart1).map fun offset : ℕ => (lastLoc + 1 + (offset : ℤ)).toNat
  let numPart2 := seqLen / pageSize * pageSize - (preLen + pageSize - 1) / pageSize * pageSize
  let part2 := (List.range numPart2).map fun offset =>
    freePages.getD (newPageStartLoc + offset / pageSize) 0 * pageSize + offset % pageSize
  let numPart3 := seqLen - seqLen / pageSize * pageSize
  let startLoc := freePages.getD (newPageStartLoc + numNewPages pageSize preLen seqLen - 1) 0
  let part3 := (List.range numPart3).map fun offset => startLoc * pageSize + offset
  if preLen + numPart1 = seqLen then part1
  else if preLen + numPart1 + numPart2 = seqLen then part1 ++ part2
  else part1 ++ part2 ++ part3

/-- `alloc_extend_kernel` : its programs write their slots one after the other. -/
def allocExtendKernel (pageSize : ℕ) (freePages : List ℕ) : ℕ → List (ℕ × ℕ × ℤ) → List ℕ
  | _, [] => []
  | newPageStartLoc, (preLen, seqLen, lastLoc) :: rest =>
    extendIndices pageSize freePages newPageStartLoc preLen seqLen lastLoc ++
      allocExtendKernel pageSize freePages
        (newPageStartLoc + numNewPages pageSize preLen seqLen) rest

/-- `alloc_extend` (`allocator.py:403-449`), `none` when there are too few pages. -/
def allocExtend (a : PagedAllocator) (prefixLens prefixLensCpu seqLens seqLensCpu : List ℕ)
    (lastLoc : List ℤ) (extendNumTokens : ℕ) :
    Except KvError (PagedAllocator × Option (List ℕ)) :=
  let bs := prefixLens.length
  let merged := if a.needSort ∧ a.freePages.length < extendNumTokens / a.pageSize + bs + 1 then
    a.mergeAndSortFree else a
  let outIndices := allocExtendKernel a.pageSize merged.freePages 0
    (prefixLens.zip (seqLens.zip lastLoc))
  let numNewPages := getNumNewPages seqLensCpu a.pageSize prefixLensCpu
  if a.debugMode ∧ ∃ x ∈ lastLoc.zip prefixLens, (x.1 + 1) % (a.pageSize : ℤ) ≠ x.2 % a.pageSize
    then .error .lastLoc
  else if a.debugMode ∧ ¬outIndices.Nodup then .error .duplicateIndices
  else if merged.freePages.length < numNewPages then .ok (merged, none)
  else .ok ({ merged with freePages := merged.freePages.drop numNewPages }, some outIndices)

/-- `free` (`allocator.py:490-504`). -/
def free (a : PagedAllocator) (freeIndex : List ℕ) : Except KvError PagedAllocator :=
  let freePageIndices := sortedSet (freeIndex.map fun slot => slot / a.pageSize)
  let freed := if a.isNotInFreeGroup then
      if a.needSort then { a with releasePages := freePageIndices ++ a.releasePages }
      else { a with freePages := freePageIndices ++ a.freePages }
    else { a with freeGroup := a.freeGroup ++ freeIndex }
  if freeIndex = [] then .ok a
  else if a.debugMode ∧ ¬freed.freePages.Nodup then .error .duplicateFreePages
  else .ok freed

end PagedAllocator

/-! ## The batch -/

/-- `req_to_token` : the slot of a position of a row. -/
abbrev ReqToToken := ℕ → ℕ → ℕ

/-- The KV accounting of a request. -/
structure KvReq where
  kvCommittedLen : ℕ
  kvAllocatedLen : ℕ

/-- The KV side of a batch. -/
structure KvBatch where
  allocator : PagedAllocator
  reqToToken : ReqToToken
  reqPoolIndices : List ℕ
  reqs : List KvReq
  seqLens : List ℕ
  seqLensCpu : List ℕ
  seqLensSum : ℕ
  outCacheLoc : List ℕ

/-- `get_last_loc` (`mem_cache/common.py:127-198`). -/
def getLastLoc (reqToToken : ReqToToken) (reqPoolIndices prefixLens : List ℕ) : List ℤ :=
  List.zipWith (fun row prefixLen =>
    if 0 < prefixLen then (reqToToken row (prefixLen - 1) : ℤ) else -1) reqPoolIndices prefixLens

/-- Writing slots to a row. -/
def ReqToToken.write (reqToToken : ReqToToken) (row start : ℕ) (slots : List ℕ) : ReqToToken :=
  fun row' p => if row' = row ∧ start ≤ p ∧ p < start + slots.length then slots.getD (p - start) 0
    else reqToToken row' p

/-- `assign_req_to_token_pool` (`spec_utils.py:87-137`) : each program writes its part of
`out_cache_loc`. -/
def assignReqToTokenPool : ReqToToken → List (ℕ × ℕ × ℕ) → List ℕ → ReqToToken
  | reqToToken, [], _ => reqToToken
  | reqToToken, (row, start, stop) :: rest, outCacheLoc =>
    assignReqToTokenPool (reqToToken.write row start (outCacheLoc.take (stop - start))) rest
      (outCacheLoc.drop (stop - start))

namespace KvBatch

/-- The paged branch of `prepare_for_verify` (`dflash_info.py:200-230`) and of
`alloc_paged_token_slots_extend`. -/
def prepareForVerify (b : KvBatch) (draftTokenNum : ℕ) : Except KvError KvBatch := do
  let endOffset := b.seqLens.map (· + draftTokenNum)
  let endOffsetCpu := b.seqLensCpu.map (· + draftTokenNum)
  let lastLoc := getLastLoc b.reqToToken b.reqPoolIndices b.seqLens
  let extendNumTokens := b.seqLens.length * draftTokenNum
  let (allocator, outCacheLoc) ← b.allocator.allocExtend b.seqLens b.seqLensCpu endOffset
    endOffsetCpu lastLoc extendNumTokens
  match outCacheLoc with
  | none => throw (.outOfMemory extendNumTokens)
  | some outCacheLoc =>
    return { b with
      allocator := allocator
      outCacheLoc := outCacheLoc
      reqToToken := assignReqToTokenPool b.reqToToken
        (b.reqPoolIndices.zip (b.seqLens.zip endOffset)) outCacheLoc }

/-- `_compute_paged_keep_slots` (`dflash_info.py:33-56`). -/
def computePagedKeepSlots (prefixLens commitLens : List ℕ) (draftTokenNum pageSize : ℕ) :
    Except KvError (List ℕ) :=
  if pageSize ≤ 1 then .error (.pageSize pageSize)
  else .ok (List.zipWith (fun prefixLen commitLen =>
    let extendedLen := prefixLen + draftTokenNum
    let newLen := prefixLen + commitLen
    let alignedNewLen := (newLen + pageSize - 1) / pageSize * pageSize
    let keepLen := min alignedNewLen extendedLen
    min (keepLen - prefixLen) draftTokenNum) prefixLens commitLens)

/-- `out_cache_loc.view(bs, draft_token_num)`. -/
def viewRows (bs draftTokenNum : ℕ) (outCacheLoc : List ℕ) : List (List ℕ) :=
  (List.range bs).map fun i => (outCacheLoc.drop (i * draftTokenNum)).take draftTokenNum

/-- The KV side of `verify`, paged (`dflash_info.py:484-530`). -/
def verify (b : KvBatch) (draftTokenNum : ℕ) (commitLens : List ℕ) : Except KvError KvBatch := do
  let rows := viewRows b.reqs.length draftTokenNum b.outCacheLoc
  let keepSlots ← computePagedKeepSlots b.seqLens commitLens draftTokenNum b.allocator.pageSize
  let allocator ← b.allocator.free
    (List.zipWith (fun row keep => row.drop keep) rows keepSlots).flatten
  let outCacheLoc := (List.zipWith (fun row commitLen => row.take commitLen) rows
    commitLens).flatten
  let endOffset := List.zipWith (· + ·) b.seqLens commitLens
  return { b with
    allocator := allocator
    outCacheLoc := outCacheLoc
    reqs := List.zipWith (fun req commitLen =>
      ⟨req.kvCommittedLen + commitLen, req.kvCommittedLen + commitLen⟩) b.reqs commitLens
    reqToToken := assignReqToTokenPool b.reqToToken
      (b.reqPoolIndices.zip (b.seqLens.zip endOffset)) outCacheLoc
    seqLens := endOffset
    seqLensCpu := List.zipWith (· + ·) b.seqLensCpu commitLens
    seqLensSum := b.seqLensSum + commitLens.sum }

/-- A verify step with the given commit lengths. -/
def round (b : KvBatch) (draftTokenNum : ℕ) (commitLens : List ℕ) : Except KvError KvBatch := do
  (← b.prepareForVerify draftTokenNum).verify draftTokenNum commitLens

/-- Verify steps one after the other. -/
def run (draftTokenNum : ℕ) : KvBatch → List (List ℕ) → Except KvError KvBatch
  | b, [] => .ok b
  | b, commitLens :: rounds => do run draftTokenNum (← b.round draftTokenNum commitLens) rounds

end KvBatch

/-! ## The slots of an extension -/

namespace PagedAllocator

variable {P : ℕ} {table freePages : List ℕ} {newPageStartLoc preLen seqLen : ℕ} {lastLoc : ℤ}

theorem numNewPages_eq (P preLen seqLen : ℕ) :
    numNewPages P preLen seqLen = pagesFor P seqLen - pagesFor P preLen := rfl

/-- The pages a request gets are those from its start in the free list. -/
theorem getD_newPages (hlen : table.length = pagesFor P preLen) {j : ℕ}
    (hj : j < numNewPages P preLen seqLen) :
    (table ++ (freePages.drop newPageStartLoc).take (numNewPages P preLen seqLen)).getD
      (pagesFor P preLen + j) 0 = freePages.getD (newPageStartLoc + j) 0 := by
  rw [List.getD_append_right _ _ _ _ (by omega), hlen, Nat.add_sub_cancel_left]
  simp only [List.getD_eq_getElem?_getD, List.getElem?_take, if_pos hj, List.getElem?_drop]

/-- The rest of the old page. -/
theorem part1_eq (hP : 0 < P) (hlen : table.length = pagesFor P preLen)
    (hlast : 0 < preLen → lastLoc = (slotOf P table (preLen - 1) : ℤ)) (new : List ℕ) {n : ℕ}
    (hn : preLen + n ≤ pagesFor P preLen * P) :
    ((List.range n).map fun offset : ℕ => (lastLoc + 1 + (offset : ℤ)).toNat) =
      slotsFrom P (table ++ new) preLen (preLen + n) := by
  rw [slotsFrom_eq, Nat.add_sub_cancel_left]
  refine List.map_congr_left fun o ho => ?_
  have ho := List.mem_range.mp ho
  have hpos : 0 < preLen := by
    by_contra hzero
    have hpages : pagesFor P preLen ≤ 0 := (pagesFor_le_iff hP).mpr (by omega)
    rw [Nat.le_zero.mp hpages] at hn
    omega
  have hpage : (preLen - 1) / P = (preLen + o) / P := by
    rw [div_eq_of_partial_page hP (by omega) hpos (by omega : preLen - 1 < pagesFor P preLen * P),
      div_eq_of_partial_page hP (by omega) hpos (by omega : preLen + o < pagesFor P preLen * P)]
  have hin : (preLen - 1) / P < table.length := by
    rw [hlen]
    exact div_lt_pagesFor hP (by omega)
  rw [slotOf_add (table ++ new) (by omega) hpage, slotOf_append hin, hlast hpos]
  omega

/-- The new full pages. -/
theorem part2_eq (hP : 0 < P) (hlen : table.length = pagesFor P preLen) (freePages : List ℕ)
    (newPageStartLoc : ℕ) {n : ℕ} (hn : pagesFor P preLen * P + n ≤ seqLen) :
    ((List.range n).map fun offset => freePages.getD (newPageStartLoc + offset / P) 0 * P +
      offset % P) =
      slotsFrom P (table ++ (freePages.drop newPageStartLoc).take (numNewPages P preLen seqLen))
        (pagesFor P preLen * P) (pagesFor P preLen * P + n) := by
  rw [slotsFrom_eq, Nat.add_sub_cancel_left]
  refine List.map_congr_left fun o ho => ?_
  have ho := List.mem_range.mp ho
  have hdiv : (pagesFor P preLen * P + o) / P = pagesFor P preLen + o / P := by
    rw [Nat.mul_comm, Nat.mul_add_div hP]
  have hmod : (pagesFor P preLen * P + o) % P = o % P := by
    rw [Nat.mul_comm, Nat.mul_add_mod]
  have hlt := div_lt_pagesFor hP (by omega : pagesFor P preLen * P + o < seqLen)
  rw [slotOf, hdiv, hmod, getD_newPages hlen (by rw [numNewPages_eq]; omega)]

/-- The new partial page. -/
theorem part3_eq (hP : 0 < P) (hlen : table.length = pagesFor P preLen)
    (hle : pagesFor P preLen ≤ seqLen / P) (hpart : seqLen / P * P < seqLen) :
    ((List.range (seqLen - seqLen / P * P)).map fun offset =>
      freePages.getD (newPageStartLoc + numNewPages P preLen seqLen - 1) 0 * P + offset) =
      slotsFrom P (table ++ (freePages.drop newPageStartLoc).take (numNewPages P preLen seqLen))
        (seqLen / P * P) seqLen := by
  have hmod := Nat.mod_lt seqLen hP
  have hsplit := Nat.div_add_mod' seqLen P
  have hpages : pagesFor P seqLen = seqLen / P + 1 := by
    refine le_antisymm ((pagesFor_le_iff hP).mpr ?_) ((lt_pagesFor_iff hP).mpr hpart)
    rw [Nat.succ_mul]
    omega
  rw [slotsFrom_eq]
  refine List.map_congr_left fun o ho => ?_
  have hoP : o < P := by
    have := List.mem_range.mp ho
    omega
  have hdiv : (seqLen / P * P + o) / P =
      pagesFor P preLen + (numNewPages P preLen seqLen - 1) := by
    rw [Nat.mul_comm (seqLen / P), Nat.mul_add_div hP, Nat.div_eq_of_lt hoP, numNewPages_eq,
      hpages]
    omega
  have hmod' : (seqLen / P * P + o) % P = o := by
    rw [Nat.mul_comm, Nat.mul_add_mod, Nat.mod_eq_of_lt hoP]
  have hnew : 0 < numNewPages P preLen seqLen := by
    rw [numNewPages_eq, hpages]
    omega
  rw [slotOf, hdiv, hmod', getD_newPages hlen (by omega), Nat.add_sub_assoc hnew]

/-- A program of the kernel gives the slots of the new positions. -/
theorem extendIndices_eq (hP : 0 < P) (hlen : table.length = pagesFor P preLen)
    (hle : preLen ≤ seqLen)
    (hlast : 0 < preLen → lastLoc = (slotOf P table (preLen - 1) : ℤ)) :
    extendIndices P freePages newPageStartLoc preLen seqLen lastLoc =
      slotsFrom P (table ++ (freePages.drop newPageStartLoc).take (numNewPages P preLen seqLen))
        preLen seqLen := by
  have hpre : preLen ≤ pagesFor P preLen * P := le_pagesFor_mul hP preLen
  have hseq := Nat.div_mul_le_self seqLen P
  have hpart1 := part1_eq hP hlen hlast
    ((freePages.drop newPageStartLoc).take (numNewPages P preLen seqLen))
    (by omega : preLen + (min seqLen (pagesFor P preLen * P) - preLen) ≤ pagesFor P preLen * P)
  have hk : (preLen + P - 1) / P = pagesFor P preLen := rfl
  simp only [extendIndices, hk, hpart1]
  by_cases h₁ : preLen + (min seqLen (pagesFor P preLen * P) - preLen) = seqLen
  · rw [if_pos h₁, h₁]
  -- the old page is full, the rest is on new pages
  have hfull : preLen + (min seqLen (pagesFor P preLen * P) - preLen) = pagesFor P preLen * P := by
    omega
  have hpages : pagesFor P preLen ≤ seqLen / P := (Nat.le_div_iff_mul_le hP).mpr (by omega)
  have hmul : pagesFor P preLen * P ≤ seqLen / P * P := Nat.mul_le_mul_right P hpages
  have hend :
      pagesFor P preLen * P + (seqLen / P * P - pagesFor P preLen * P) = seqLen / P * P := by
    omega
  have hpart2 := part2_eq hP hlen freePages newPageStartLoc
    (by omega : pagesFor P preLen * P + (seqLen / P * P - pagesFor P preLen * P) ≤ seqLen)
  rw [if_neg h₁, hpart2, hfull, hend, slotsFrom_append _ hpre hmul]
  by_cases h₂ : seqLen / P * P = seqLen
  · rw [if_pos h₂, h₂]
  · rw [if_neg h₂, part3_eq hP hlen hpages (by omega), slotsFrom_append _ (by omega) hseq]

end PagedAllocator

/-! ## Writing slots to rows -/

/-- The rows are written where the programs of the batch write, and nowhere else. -/
theorem assignReqToTokenPool_spec {α : Type*} (row start : α → ℕ) (slots : α → List ℕ) :
    ∀ (xs : List α) (reqToToken : ReqToToken), (xs.map row).Nodup →
      (∀ x ∈ xs, ∀ p, assignReqToTokenPool reqToToken
          (xs.map fun x => (row x, start x, start x + (slots x).length)) (xs.flatMap slots)
          (row x) p =
        if start x ≤ p ∧ p < start x + (slots x).length then (slots x).getD (p - start x) 0
        else reqToToken (row x) p) ∧
      ∀ r ∉ xs.map row, ∀ p, assignReqToTokenPool reqToToken
        (xs.map fun x => (row x, start x, start x + (slots x).length)) (xs.flatMap slots) r p =
          reqToToken r p
  | [], _, _ => ⟨fun _ hx => absurd hx List.not_mem_nil, fun _ _ _ => rfl⟩
  | y :: ys, reqToToken, hnd => by
    obtain ⟨hy, hys⟩ := List.nodup_cons.mp hnd
    obtain ⟨hin, hout⟩ := assignReqToTokenPool_spec row start slots ys
      (reqToToken.write (row y) (start y) (slots y)) hys
    have hstep : assignReqToTokenPool reqToToken
        ((y :: ys).map fun x => (row x, start x, start x + (slots x).length))
        ((y :: ys).flatMap slots) =
        assignReqToTokenPool (reqToToken.write (row y) (start y) (slots y))
          (ys.map fun x => (row x, start x, start x + (slots x).length)) (ys.flatMap slots) := by
      rw [List.map_cons, assignReqToTokenPool, List.flatMap_cons, Nat.add_sub_cancel_left,
        List.take_left, List.drop_left]
    rw [hstep]
    refine ⟨fun x hx p => ?_, fun r hr p => ?_⟩
    · rcases List.mem_cons.mp hx with rfl | hx
      · rw [hout _ hy, ReqToToken.write]
        simp
      · have hne : row x ≠ row y := fun heq => hy (heq ▸ List.mem_map_of_mem hx)
        rw [hin x hx p, ReqToToken.write]
        simp [hne]
    · rw [List.map_cons, List.mem_cons, not_or] at hr
      rw [hout r hr.2, ReqToToken.write]
      simp [hr.1]

end DraftOpd
