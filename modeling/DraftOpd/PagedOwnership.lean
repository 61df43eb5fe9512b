import DraftOpd.PagedKv

/-!
# Who owns the KV pages

`Layout` says that the requests of a batch are laid out on page tables and that these tables
and the free pages are all the pages of the pool, each once. An allocation extends the tables
by free pages (`Layout.extend`), and the verify step cuts them back to the committed tokens
(`Layout.release`).

`paged_run_owned` follows for whole runs : as long as there are free pages every round
succeeds, each page is then free or holds committed positions of exactly one request, a
position has a slot of its own residue, and the lengths of the batch agree and are those that
the rounds committed (`of_run_ok`).
-/

namespace DraftOpd

/-- A request of the batch : its row, its length and its page table. -/
structure KvEntry where
  row : ℕ
  len : ℕ
  table : List ℕ

/-- The row holds the slots of the table. -/
structure KvEntry.Laid (pageSize : ℕ) (reqToToken : ReqToToken) (e : KvEntry) : Prop where
  length_table : e.table.length = pagesFor pageSize e.len
  slot_eq : ∀ p < e.len, reqToToken e.row p = slotOf pageSize e.table p

/-- The requests are laid out on the pages that are not free. -/
structure Layout (a : PagedAllocator) (reqToToken : ReqToToken) (es : List KvEntry) : Prop where
  page_size : 2 ≤ a.pageSize
  rows_nodup : (es.map KvEntry.row).Nodup
  laid : ∀ e ∈ es, e.Laid a.pageSize reqToToken
  pages_perm : (a.freePages ++ a.releasePages ++ es.flatMap KvEntry.table).Perm
    (List.range' 1 a.numPages)
  not_in_group : a.isNotInFreeGroup = true
  release_nil : a.needSort = false → a.releasePages = []

namespace Layout

variable {a : PagedAllocator} {reqToToken : ReqToToken} {es : List KvEntry}

/-- No page is free twice or in two tables. -/
theorem nodup (h : Layout a reqToToken es) :
    (a.freePages ++ a.releasePages ++ es.flatMap KvEntry.table).Nodup :=
  h.pages_perm.nodup_iff.mpr (List.nodup_range' ..)

theorem merge (h : Layout a reqToToken es) : Layout a.mergeAndSortFree reqToToken es ∧
    a.mergeAndSortFree.pageSize = a.pageSize ∧
    a.mergeAndSortFree.freePages.length = a.freePages.length + a.releasePages.length := by
  unfold PagedAllocator.mergeAndSortFree
  split_ifs with hpos
  · have hsort := List.perm_insertionSort (· ≤ ·) (a.freePages ++ a.releasePages)
    refine ⟨⟨h.page_size, h.rows_nodup, h.laid, ?_, h.not_in_group, fun _ => rfl⟩, rfl, ?_⟩
    · rw [List.append_nil]
      exact (hsort.append_right _).trans h.pages_perm
    · rw [List.length_insertionSort, List.length_append]
  · have hnil : a.releasePages.length = 0 := by omega
    exact ⟨h, rfl, by omega⟩

/-- A cleared pool and requests without tokens, from where a prefill is an extension. -/
theorem clear {rows : List ℕ} (hsize : 2 ≤ a.pageSize) (hrows : rows.Nodup) :
    Layout a.clear reqToToken (rows.map fun row => ⟨row, 0, []⟩) := by
  have hzero : pagesFor a.pageSize 0 = 0 :=
    Nat.le_zero.mp ((pagesFor_le_iff (by omega)).mpr (Nat.zero_le _))
  refine ⟨hsize, ?_, ?_, ?_, rfl, fun _ => rfl⟩
  · rw [List.map_map]
    exact (List.map_id rows).symm ▸ hrows
  · intro e he
    obtain ⟨row, -, rfl⟩ := List.mem_map.mp he
    exact ⟨hzero.symm, fun p hp => absurd hp (Nat.not_lt_zero p)⟩
  · have hnone : (rows.map fun row => (⟨row, 0, []⟩ : KvEntry)).flatMap KvEntry.table = [] :=
      List.flatMap_eq_nil_iff.mpr fun e he => by
        obtain ⟨row, -, rfl⟩ := List.mem_map.mp he
        rfl
    rw [hnone]
    simp [PagedAllocator.clear]

/-! ## Extension -/

/-- The last slot of a request, `-1` without one. -/
def lastLocOf (reqToToken : ReqToToken) (e : KvEntry) : ℤ :=
  if 0 < e.len then (reqToToken e.row (e.len - 1) : ℤ) else -1

theorem getLastLoc_eq (reqToToken : ReqToToken) (es : List KvEntry) :
    getLastLoc reqToToken (es.map KvEntry.row) (es.map KvEntry.len) =
      es.map (lastLocOf reqToToken) := by
  rw [getLastLoc, List.zipWith_map, List.zipWith_self]
  rfl

/-- The assertion of `alloc_extend` on the last slots. -/
theorem lastLoc_aligned {P : ℕ} {e : KvEntry} (h : e.Laid P reqToToken) :
    (lastLocOf reqToToken e + 1) % (P : ℤ) = ((e.len % P : ℕ) : ℤ) := by
  unfold lastLocOf
  split_ifs with hpos
  · have hmod : (slotOf P e.table (e.len - 1) + 1) % P = e.len % P := by
      rw [Nat.add_mod, slotOf_mod, ← Nat.add_mod, Nat.sub_add_cancel hpos]
    rw [h.slot_eq _ (by omega), ← hmod]
    push_cast
    rfl
  · have hzero : e.len = 0 := by omega
    rw [hzero]
    simp

section Extend

variable (target : KvEntry → ℕ)

/-- The pages a request needs to grow. -/
def need (P : ℕ) (e : KvEntry) : ℕ := PagedAllocator.numNewPages P e.len (target e)

/-- A request with the pages it was dealt. -/
def grown (x : KvEntry × List ℕ) : KvEntry := ⟨x.1.row, target x.1, x.1.table ++ x.2⟩

/-- The slots of its new positions. -/
def newSlots (P : ℕ) (x : KvEntry × List ℕ) : List ℕ :=
  slotsFrom P (x.1.table ++ x.2) x.1.len (target x.1)

/-- The kernel deals the free pages to the requests. -/
theorem allocExtendKernel_eq {P : ℕ} (hP : 0 < P) (freePages : List ℕ) :
    ∀ (es : List KvEntry) (start : ℕ), (∀ e ∈ es, e.Laid P reqToToken) →
      (∀ e ∈ es, e.len ≤ target e) →
      PagedAllocator.allocExtendKernel P freePages start
          (es.map fun e => (e.len, target e, lastLocOf reqToToken e)) =
        (deal (need target P) (freePages.drop start) es).flatMap (newSlots target P)
  | [], _, _, _ => rfl
  | e :: es, start, hlaid, hle => by
    have he := hlaid e List.mem_cons_self
    have hlast : 0 < e.len → lastLocOf reqToToken e = (slotOf P e.table (e.len - 1) : ℤ) := by
      intro hpos
      rw [lastLocOf, if_pos hpos, he.slot_eq _ (by omega)]
    rw [List.map_cons, PagedAllocator.allocExtendKernel,
      PagedAllocator.extendIndices_eq hP he.length_table (hle e List.mem_cons_self) hlast,
      allocExtendKernel_eq hP freePages es _ (fun e' he' => hlaid e' (List.mem_cons_of_mem _ he'))
        fun e' he' => hle e' (List.mem_cons_of_mem _ he'),
      deal, List.flatMap_cons, List.drop_drop]
    rfl

theorem getNumNewPages_eq (P : ℕ) (es : List KvEntry) :
    PagedAllocator.getNumNewPages (es.map target) P (es.map KvEntry.len) =
      (es.map (need target P)).sum := by
  rw [PagedAllocator.getNumNewPages, List.zipWith_map, List.zipWith_self]
  rfl

/-- The pages needed are fewer than the bound the allocator sorts for. -/
theorem sum_need_le {P : ℕ} (hP : 0 < P) : ∀ es : List KvEntry, (∀ e ∈ es, e.len ≤ target e) →
    (es.map (need target P)).sum ≤ (es.map fun e => target e - e.len).sum / P + es.length
  | [], _ => by simp
  | e :: es, hle => by
    have hrest := sum_need_le hP es fun e' he' => hle e' (List.mem_cons_of_mem _ he')
    have hmono : pagesFor P e.len ≤ pagesFor P (target e) :=
      pagesFor_mono (hle e List.mem_cons_self)
    have he := pagesFor_add_le hP e.len (target e - e.len)
    rw [Nat.add_sub_cancel' (hle e List.mem_cons_self)] at he
    have hdiv : (target e - e.len) / P + (es.map fun e => target e - e.len).sum / P ≤
        (target e - e.len + (es.map fun e => target e - e.len).sum) / P :=
      Nat.div_add_div_le_add_div
    simp only [List.map_cons, List.sum_cons, List.length_cons, need,
      PagedAllocator.numNewPages_eq]
    omega

/-- The call of `alloc_extend` for a batch. -/
def extendBatch (a : PagedAllocator) (reqToToken : ReqToToken) (es : List KvEntry) :
    Except KvError (PagedAllocator × Option (List ℕ)) :=
  a.allocExtend (es.map KvEntry.len) (es.map KvEntry.len) (es.map target) (es.map target)
    (getLastLoc reqToToken (es.map KvEntry.row) (es.map KvEntry.len))
    (es.map fun e => target e - e.len).sum

/-- The allocator that `alloc_extend` takes the pages from : all that is free, or more than
what is needed. -/
theorem merged_spec (h : Layout a reqToToken es) (hle : ∀ e ∈ es, e.len ≤ target e) :
    ∃ m : PagedAllocator, Layout m reqToToken es ∧ m.pageSize = a.pageSize ∧
      m = (if a.needSort ∧ a.freePages.length <
          (es.map fun e => target e - e.len).sum / a.pageSize + es.length + 1
        then a.mergeAndSortFree else a) ∧
      (m.freePages.length < (es.map (need target a.pageSize)).sum ↔
        a.freePages.length + a.releasePages.length < (es.map (need target a.pageSize)).sum) := by
  have hP := h.page_size
  have hneed := sum_need_le target (by omega : 0 < a.pageSize) es hle
  by_cases hsort : a.needSort ∧ a.freePages.length <
      (es.map fun e => target e - e.len).sum / a.pageSize + es.length + 1
  · obtain ⟨hm, hsize, hlen⟩ := h.merge
    exact ⟨a.mergeAndSortFree, hm, hsize, by rw [if_pos hsort], by rw [hlen]⟩
  · refine ⟨a, h, rfl, by rw [if_neg hsort], ?_⟩
    by_cases hns : a.needSort = true
    · have hmany : ¬a.freePages.length <
          (es.map fun e => target e - e.len).sum / a.pageSize + es.length + 1 :=
        fun hlt => hsort ⟨hns, hlt⟩
      omega
    · have hnil := h.release_nil (Bool.not_eq_true _ ▸ hns)
      rw [hnil, List.length_nil, Nat.add_zero]

/-- What the batch owns after it was dealt pages. -/
theorem grow {P : ℕ} {t' : ReqToToken} {m a' : PagedAllocator} {xs : List (KvEntry × List ℕ)}
    (h : Layout m reqToToken es) (hsize : m.pageSize = P) (hle : ∀ e ∈ es, e.len ≤ target e)
    (hxs : xs = deal (need target P) m.freePages es)
    (hmany : (es.map (need target P)).sum ≤ m.freePages.length)
    (ha : a' = { m with freePages := m.freePages.drop (es.map (need target P)).sum })
    (ht : t' = assignReqToTokenPool reqToToken
      (xs.map fun x => (x.1.row, x.1.len, x.1.len + (newSlots target P x).length))
      (xs.flatMap (newSlots target P))) :
    Layout a' t' (xs.map (grown target)) := by
  subst hsize
  have hP : 0 < m.pageSize := by have := h.page_size; omega
  have hfst : xs.map Prod.fst = es := by rw [hxs, map_fst_deal]
  have hmem : ∀ x ∈ xs, x.1 ∈ es := fun x hx => hfst ▸ List.mem_map_of_mem hx
  have hrows : xs.map (fun x => x.1.row) = es.map KvEntry.row := by
    rw [← hfst, List.map_map]
    rfl
  have hwrite := (assignReqToTokenPool_spec (fun x : KvEntry × List ℕ => x.1.row)
    (fun x => x.1.len) (newSlots target m.pageSize) xs reqToToken
    (hrows ▸ h.rows_nodup)).1
  subst ha ht
  refine ⟨h.page_size, ?_, ?_, ?_, h.not_in_group, h.release_nil⟩
  · rw [List.map_map]
    exact hrows ▸ h.rows_nodup
  · intro e he
    obtain ⟨x, hx, rfl⟩ := List.mem_map.mp he
    have hlaid := h.laid x.1 (hmem x hx)
    have hlex := hle x.1 (hmem x hx)
    have hlen : x.2.length = need target m.pageSize x.1 :=
      length_of_mem_deal _ hmany x (hxs ▸ hx)
    have hmono : pagesFor m.pageSize x.1.len ≤ pagesFor m.pageSize (target x.1) :=
      pagesFor_mono hlex
    refine ⟨?_, fun p hp => ?_⟩
    · simp only [grown, List.length_append, hlaid.length_table, hlen, need,
        PagedAllocator.numNewPages_eq]
      omega
    · simp only [grown] at hp ⊢
      rw [hwrite x hx p, newSlots, length_slotsFrom, Nat.add_sub_cancel' hlex]
      by_cases hnew : x.1.len ≤ p
      · rw [if_pos ⟨hnew, hp⟩, getD_slotsFrom _ hnew hp]
      · rw [if_neg fun hc => hnew hc.1, hlaid.slot_eq p (by omega), slotOf_append]
        rw [hlaid.length_table]
        exact div_lt_pagesFor hP (by omega)
  · have hdeal := perm_deal (need target m.pageSize) KvEntry.table m.freePages es
    have hflat : (xs.map (grown target)).flatMap KvEntry.table =
        xs.flatMap fun x => x.1.table ++ x.2 := List.flatMap_map ..
    rw [← hxs] at hdeal
    rw [hflat]
    refine List.Perm.trans ?_ h.pages_perm
    simp only [List.append_assoc]
    exact (List.perm_append_comm_assoc ..).trans
      ((hdeal.append_left _).trans (List.perm_append_comm_assoc ..))

/-- The slots of a batch that was dealt pages are distinct. -/
theorem nodup_newSlots {t' : ReqToToken} {a' : PagedAllocator} {xs : List (KvEntry × List ℕ)}
    (h : Layout a' t' (xs.map (grown target))) :
    (xs.flatMap (newSlots target a'.pageSize)).Nodup := by
  have hP : 0 < a'.pageSize := by have := h.page_size; omega
  have htables := (List.nodup_append.mp h.nodup).2.1
  rw [List.flatMap_map] at htables
  refine nodup_flatMap_slotsFrom hP htables fun x hx => ?_
  exact (h.laid _ (List.mem_map_of_mem hx)).length_table.ge

/-- With enough free pages `alloc_extend` lays out the longer requests. -/
theorem extend (h : Layout a reqToToken es) (hle : ∀ e ∈ es, e.len ≤ target e)
    (hmany : (es.map (need target a.pageSize)).sum ≤ a.freePages.length + a.releasePages.length) :
    ∃ (a' : PagedAllocator) (xs : List (KvEntry × List ℕ)),
      extendBatch target a reqToToken es =
        .ok (a', some (xs.flatMap (newSlots target a.pageSize))) ∧
      xs.map Prod.fst = es ∧ a'.pageSize = a.pageSize ∧ a'.numPages = a.numPages ∧
      Layout a' (assignReqToTokenPool reqToToken
        (xs.map fun x => (x.1.row, x.1.len, x.1.len + (newSlots target a.pageSize x).length))
        (xs.flatMap (newSlots target a.pageSize))) (xs.map (grown target)) := by
  obtain ⟨m, hm, hsize, hmeq, hfew⟩ := merged_spec target h hle
  have hP : 0 < a.pageSize := by have := h.page_size; omega
  have hnum : m.numPages = a.numPages := by
    rw [hmeq]
    unfold PagedAllocator.mergeAndSortFree
    split_ifs <;> rfl
  have hmany' : (es.map (need target a.pageSize)).sum ≤ m.freePages.length := by omega
  have hlay := grow target hm hsize hle rfl hmany' rfl rfl
  have hkernel : PagedAllocator.allocExtendKernel a.pageSize m.freePages 0
      ((es.map KvEntry.len).zip ((es.map target).zip (es.map (lastLocOf reqToToken)))) =
      (deal (need target a.pageSize) m.freePages es).flatMap (newSlots target a.pageSize) := by
    rw [List.zip_map', List.zip_map',
      allocExtendKernel_eq target hP m.freePages es 0 h.laid hle, List.drop_zero]
  have hlast : ¬∃ x ∈ (es.map (lastLocOf reqToToken)).zip (es.map KvEntry.len),
      (x.1 + 1) % (a.pageSize : ℤ) ≠ x.2 % a.pageSize := by
    rintro ⟨x, hx, hne⟩
    rw [List.zip_map'] at hx
    obtain ⟨e, he, rfl⟩ := List.mem_map.mp hx
    exact hne (lastLoc_aligned (h.laid e he))
  have hnodup := nodup_newSlots target hlay
  simp only [hsize] at hnodup
  refine ⟨{ m with freePages := m.freePages.drop (es.map (need target a.pageSize)).sum }, _, ?_,
    map_fst_deal .., hsize, hnum, hlay⟩
  simp only [extendBatch, PagedAllocator.allocExtend, getLastLoc_eq, List.length_map, ← hmeq,
    hkernel, getNumNewPages_eq]
  rw [if_neg fun hc => hlast hc.2, if_neg fun hc => hc.2 hnodup, if_neg (by omega)]

/-- Without enough of them it gives no slots. -/
theorem extend_fails (h : Layout a reqToToken es) (hle : ∀ e ∈ es, e.len ≤ target e)
    (hfew : a.freePages.length + a.releasePages.length < (es.map (need target a.pageSize)).sum) :
    (∃ a', extendBatch target a reqToToken es = .ok (a', none)) ∨
      ∃ err, extendBatch target a reqToToken es = .error err := by
  obtain ⟨m, -, -, hmeq, hiff⟩ := merged_spec target h hle
  simp only [extendBatch, PagedAllocator.allocExtend, getLastLoc_eq, List.length_map, ← hmeq,
    getNumNewPages_eq, if_pos (hiff.mpr hfew)]
  split_ifs
  · exact Or.inr ⟨_, rfl⟩
  · exact Or.inr ⟨_, rfl⟩
  · exact Or.inl ⟨_, rfl⟩

end Extend

/-! ## Release -/

section Release

/-- A request cut back to its committed tokens. -/
def cut (P : ℕ) (y : KvEntry × ℕ) : KvEntry := ⟨y.1.row, y.2, y.1.table.take (pagesFor P y.2)⟩

/-- The slots behind the last page it keeps. -/
def freedSlots (P : ℕ) (y : KvEntry × ℕ) : List ℕ :=
  slotsFrom P y.1.table (min (pagesFor P y.2 * P) y.1.len) y.1.len

variable {ys : List (KvEntry × ℕ)}

/-- The pages of the freed slots are the pages that the requests do not keep. -/
theorem freedPages_perm (h : Layout a reqToToken (ys.map Prod.fst)) :
    (sortedSet ((ys.flatMap (freedSlots a.pageSize)).map (· / a.pageSize))).Perm
      (ys.flatMap fun y => y.1.table.drop (pagesFor a.pageSize y.2)) := by
  have hP : 0 < a.pageSize := by have := h.page_size; omega
  have htables := (List.nodup_append.mp h.nodup).2.1
  rw [List.flatMap_map] at htables
  have hsub : (ys.flatMap fun y => y.1.table.drop (pagesFor a.pageSize y.2)).Sublist
      (ys.flatMap fun y => y.1.table) := by
    clear h htables
    induction ys with
    | nil => exact List.Sublist.refl _
    | cons y ys ih => exact (List.drop_sublist ..).append ih
  refine (List.perm_ext_iff_of_nodup (nodup_sortedSet _) (hsub.nodup htables)).mpr fun g => ?_
  rw [mem_sortedSet, List.map_flatMap, List.mem_flatMap, List.mem_flatMap]
  refine exists_congr fun y => and_congr_right fun hy => ?_
  exact mem_pages_slotsFrom hP (h.laid y.1 (List.mem_map_of_mem hy)).length_table _ g

/-- Freeing slots of pages that are not free. -/
theorem free_spec {freeIndex : List ℕ} (hgroup : a.isNotInFreeGroup = true)
    (hnodup : (sortedSet (freeIndex.map (· / a.pageSize)) ++ a.freePages).Nodup) :
    ∃ a', a.free freeIndex = .ok a' ∧ a'.pageSize = a.pageSize ∧ a'.numPages = a.numPages ∧
      a'.isNotInFreeGroup = true ∧ a'.needSort = a.needSort ∧
      (a.needSort = false → a'.releasePages = a.releasePages) ∧
      (a'.freePages ++ a'.releasePages).Perm
        (sortedSet (freeIndex.map (· / a.pageSize)) ++ (a.freePages ++ a.releasePages)) := by
  unfold PagedAllocator.free
  by_cases hnil : freeIndex = []
  · refine ⟨a, by rw [if_pos hnil], rfl, rfl, hgroup, rfl, fun _ => rfl, ?_⟩
    rw [hnil, List.map_nil, sortedSet_eq_nil.mpr rfl, List.nil_append]
  simp only [if_neg hnil, if_pos hgroup]
  by_cases hsort : a.needSort = true
  · simp only [if_pos hsort]
    rw [if_neg fun hc => hc.2 (List.nodup_append.mp hnodup).2.1]
    exact ⟨_, rfl, rfl, rfl, hgroup, rfl, fun hf => absurd hsort (by rw [hf]; decide),
      List.perm_append_comm_assoc ..⟩
  · simp only [if_neg hsort]
    rw [if_neg fun hc => hc.2 hnodup]
    exact ⟨_, rfl, rfl, rfl, hgroup, rfl, fun _ => rfl, by rw [List.append_assoc]⟩

/-- The pages past the committed tokens are given back, and no other. -/
theorem release (h : Layout a reqToToken (ys.map Prod.fst)) (hle : ∀ y ∈ ys, y.2 ≤ y.1.len) :
    ∃ a', a.free (ys.flatMap (freedSlots a.pageSize)) = .ok a' ∧ a'.pageSize = a.pageSize ∧
      a'.numPages = a.numPages ∧ Layout a' reqToToken (ys.map (cut a.pageSize)) := by
  have hP : 0 < a.pageSize := by have := h.page_size; omega
  have hfreed := freedPages_perm h
  -- a table is what the request gives back and what it keeps
  have hsplit : ((ys.flatMap fun y => y.1.table.drop (pagesFor a.pageSize y.2)) ++
      (ys.map (cut a.pageSize)).flatMap KvEntry.table).Perm
        ((ys.map Prod.fst).flatMap KvEntry.table) := by
    rw [List.flatMap_map, List.flatMap_map]
    refine List.perm_append_comm.trans ((List.flatMap_append_perm ..).trans ?_)
    refine List.Perm.of_eq (List.flatMap_congr fun y _ => ?_)
    exact List.take_append_drop ..
  have hpages : (sortedSet ((ys.flatMap (freedSlots a.pageSize)).map (· / a.pageSize)) ++
      (a.freePages ++ a.releasePages) ++ (ys.map (cut a.pageSize)).flatMap KvEntry.table).Perm
        (List.range' 1 a.numPages) := by
    refine List.Perm.trans ?_ h.pages_perm
    rw [List.append_assoc]
    refine (List.perm_append_comm_assoc ..).trans (List.Perm.append_left _ ?_)
    exact (hfreed.append_right _).trans hsplit
  have hnodup := hpages.nodup_iff.mpr (List.nodup_range' ..)
  rw [← List.append_assoc, List.append_assoc] at hnodup
  obtain ⟨a', hfree, hsize, hnum, hgroup, hsort, hrel, hperm⟩ :=
    free_spec h.not_in_group (List.nodup_append.mp hnodup).1
  refine ⟨a', hfree, hsize, hnum, hsize ▸ h.page_size, ?_, ?_, ?_, hgroup, ?_⟩
  · have hrows := h.rows_nodup
    rw [List.map_map] at hrows ⊢
    exact hrows
  · intro e he
    obtain ⟨y, hy, rfl⟩ := List.mem_map.mp he
    have hlaid := h.laid y.1 (List.mem_map_of_mem hy)
    have hmono : pagesFor a.pageSize y.2 ≤ pagesFor a.pageSize y.1.len := pagesFor_mono (hle y hy)
    rw [hsize]
    refine ⟨?_, fun p hp => ?_⟩
    · rw [cut, List.length_take, hlaid.length_table]
      exact min_eq_left hmono
    · have hcommit : p < y.2 := hp
      rw [cut, slotOf_take (div_lt_pagesFor hP hcommit)]
      exact hlaid.slot_eq p (hcommit.trans_le (hle y hy))
  · rw [hnum]
    exact (hperm.append_right _).trans hpages
  · intro hf
    rw [hsort] at hf
    rw [hrel hf]
    exact h.release_nil hf

end Release

/-- The layout only reads the rows up to the lengths. -/
theorem of_agree {t' : ReqToToken} (h : Layout a reqToToken es)
    (hagree : ∀ e ∈ es, ∀ p < e.len, t' e.row p = reqToToken e.row p) : Layout a t' es where
  page_size := h.page_size
  rows_nodup := h.rows_nodup
  laid e he := ⟨(h.laid e he).length_table, fun p hp => (hagree e he p hp).trans
    ((h.laid e he).slot_eq p hp)⟩
  pages_perm := h.pages_perm
  not_in_group := h.not_in_group
  release_nil := h.release_nil

end Layout

/-! ## Rounds -/

namespace KvBatch

open Layout

/-- The batch is laid out on the page tables of its requests. -/
structure PagedBy (b : KvBatch) (es : List KvEntry) : Prop where
  layout : Layout b.allocator b.reqToToken es
  rows : b.reqPoolIndices = es.map KvEntry.row
  seq_lens : b.seqLens = es.map KvEntry.len
  seq_lens_cpu : b.seqLensCpu = es.map KvEntry.len
  committed : b.reqs.map KvReq.kvCommittedLen = es.map KvEntry.len
  seq_lens_sum : b.seqLensSum = (es.map KvEntry.len).sum

/-- There are pages for a block of every request. -/
def CanExtend (b : KvBatch) (draftTokenNum : ℕ) : Prop :=
  PagedAllocator.getNumNewPages (b.seqLensCpu.map (· + draftTokenNum)) b.allocator.pageSize
    b.seqLensCpu ≤ b.allocator.freePages.length + b.allocator.releasePages.length

variable {b : KvBatch} {es : List KvEntry} {B : ℕ}

/-- The call of the allocator in `prepare_for_verify`. -/
theorem PagedBy.allocExtend_eq (h : b.PagedBy es) :
    b.allocator.allocExtend b.seqLens b.seqLensCpu (b.seqLens.map (· + B))
      (b.seqLensCpu.map (· + B)) (getLastLoc b.reqToToken b.reqPoolIndices b.seqLens)
      (b.seqLens.length * B) =
    extendBatch (fun e => e.len + B) b.allocator b.reqToToken es := by
  have hext : (es.map fun e => e.len + B - e.len).sum = es.length * B := by
    simp
  rw [extendBatch, hext, h.seq_lens, h.seq_lens_cpu, h.rows, List.map_map, List.length_map]
  rfl

theorem PagedBy.canExtend_iff (h : b.PagedBy es) : b.CanExtend B ↔
    (es.map (need (fun e => e.len + B) b.allocator.pageSize)).sum ≤
      b.allocator.freePages.length + b.allocator.releasePages.length := by
  have hcount := getNumNewPages_eq (fun e => e.len + B) b.allocator.pageSize es
  rw [CanExtend, h.seq_lens_cpu, List.map_map, ← hcount]
  rfl

/-- `prepare_for_verify` grows every request by a block. -/
theorem PagedBy.prepareForVerify (h : b.PagedBy es) (hcan : b.CanExtend B) :
    ∃ (a : PagedAllocator) (t : ReqToToken) (xs : List (KvEntry × List ℕ)),
      b.prepareForVerify B = .ok { b with
        allocator := a
        outCacheLoc := xs.flatMap (newSlots (fun e => e.len + B) a.pageSize)
        reqToToken := t } ∧
      xs.map Prod.fst = es ∧ a.numPages = b.allocator.numPages ∧
      a.pageSize = b.allocator.pageSize ∧ Layout a t (xs.map (grown fun e => e.len + B)) := by
  obtain ⟨a, xs, halloc, hfst, hsize, hnum, hlay⟩ := h.layout.extend (fun e => e.len + B)
    (fun e _ => Nat.le_add_right ..) (h.canExtend_iff.mp hcan)
  refine ⟨a, _, xs, ?_, hfst, hnum, hsize, hlay⟩
  have hzip : b.reqPoolIndices.zip (b.seqLens.zip (b.seqLens.map (· + B))) =
      xs.map fun x => (x.1.row, x.1.len,
        x.1.len + (newSlots (fun e => e.len + B) b.allocator.pageSize x).length) := by
    rw [h.rows, h.seq_lens, List.map_map, List.zip_map', List.zip_map', ← hfst, List.map_map]
    refine List.map_congr_left fun x _ => ?_
    simp [newSlots]
  simp only [KvBatch.prepareForVerify, h.allocExtend_eq, halloc, hzip, hsize]
  rfl

/-- Without the pages it raises. -/
theorem PagedBy.prepareForVerify_fails (h : b.PagedBy es) (hcan : ¬b.CanExtend B) :
    ∃ err, b.prepareForVerify B = .error err := by
  rw [h.canExtend_iff] at hcan
  rcases h.layout.extend_fails (fun e => e.len + B) (fun e _ => Nat.le_add_right ..)
    (by omega) with ⟨a, halloc⟩ | ⟨err, halloc⟩
  · refine ⟨.outOfMemory (b.seqLens.length * B), ?_⟩
    simp only [KvBatch.prepareForVerify, h.allocExtend_eq, halloc]
    rfl
  · refine ⟨err, ?_⟩
    simp only [KvBatch.prepareForVerify, h.allocExtend_eq, halloc]
    rfl

/-- The rows of a concatenation of blocks. -/
theorem viewRows_flatMap {α : Type*} {f : α → List ℕ} : ∀ {xs : List α},
    (∀ x ∈ xs, (f x).length = B) → viewRows xs.length B (xs.flatMap f) = xs.map f
  | [], _ => rfl
  | x :: xs, hlen => by
    have hx := hlen x List.mem_cons_self
    have hrest := viewRows_flatMap fun y hy => hlen y (List.mem_cons_of_mem _ hy)
    rw [List.map_cons, ← hrest, viewRows, List.length_cons, List.range_succ_eq_map,
      List.map_cons, List.map_map, List.flatMap_cons, Nat.zero_mul, List.drop_zero,
      List.take_left' hx]
    refine congrArg _ (List.map_congr_left fun i _ => ?_)
    simp only [Function.comp_apply, Nat.succ_mul]
    rw [Nat.add_comm, ← List.drop_drop, List.drop_left' hx]

/-- A grown request and the length it is cut to. -/
def committedTo (B : ℕ) (y : (KvEntry × List ℕ) × ℕ) : KvEntry × ℕ :=
  (grown (fun e => e.len + B) y.1, y.1.1.len + y.2)

/-- The slots a request gives back are those behind the last page it keeps. -/
theorem drop_keep_newSlots {P : ℕ} (hP : 0 < P) (y : (KvEntry × List ℕ) × ℕ) :
    (newSlots (fun e => e.len + B) P y.1).drop
      (min (min ((y.1.1.len + y.2 + P - 1) / P * P) (y.1.1.len + B) - y.1.1.len) B) =
      freedSlots P (committedTo B y) := by
  have hpages : y.1.1.len + y.2 ≤ (y.1.1.len + y.2 + P - 1) / P * P := le_pagesFor_mul hP _
  have hstart : y.1.1.len +
      min (min ((y.1.1.len + y.2 + P - 1) / P * P) (y.1.1.len + B) - y.1.1.len) B =
      min ((y.1.1.len + y.2 + P - 1) / P * P) (y.1.1.len + B) := by omega
  rw [newSlots, drop_slotsFrom, hstart]
  rfl

/-- The slots of the committed tokens. -/
def committedSlots (P : ℕ) (y : (KvEntry × List ℕ) × ℕ) : List ℕ :=
  slotsFrom P (y.1.1.table ++ y.1.2) y.1.1.len (y.1.1.len + y.2)

/-- Writing the committed slots again changes no committed position. -/
theorem layout_assign {ys : List ((KvEntry × List ℕ) × ℕ)} {a : PagedAllocator} {P : ℕ}
    {t : ReqToToken} (hsize : a.pageSize = P)
    (h : Layout a t (ys.map fun y => cut P (committedTo B y))) :
    Layout a (assignReqToTokenPool t
      (ys.map fun y => (y.1.1.row, y.1.1.len, y.1.1.len + (committedSlots P y).length))
      (ys.flatMap (committedSlots P))) (ys.map fun y => cut P (committedTo B y)) := by
  subst hsize
  have hP : 0 < a.pageSize := by have := h.page_size; omega
  have hrows := h.rows_nodup
  rw [List.map_map] at hrows
  have hwrite := (assignReqToTokenPool_spec (fun y : (KvEntry × List ℕ) × ℕ => y.1.1.row)
    (fun y => y.1.1.len) (committedSlots a.pageSize) ys t hrows).1
  refine h.of_agree fun e he p hp => ?_
  obtain ⟨y, hy, rfl⟩ := List.mem_map.mp he
  have hcommit : p < y.1.1.len + y.2 := hp
  refine (hwrite y hy p).trans ?_
  split_ifs with hin
  · rw [committedSlots, getD_slotsFrom _ hin.1 hcommit, (h.laid _ he).slot_eq p hp]
    exact (slotOf_take (div_lt_pagesFor hP hcommit)).symm
  · rfl

/-- `verify` cuts the grown requests back. -/
theorem verify_spec {ys : List ((KvEntry × List ℕ) × ℕ)} {a : PagedAllocator} {t : ReqToToken}
    (h : b.PagedBy (ys.map fun y => y.1.1))
    (hlay : Layout a t (ys.map fun y => grown (fun e => e.len + B) y.1))
    (hle : ∀ y ∈ ys, y.2 ≤ B) :
    ∃ b' : KvBatch, KvBatch.verify { b with
        allocator := a
        outCacheLoc := ys.flatMap fun y => newSlots (fun e => e.len + B) a.pageSize y.1
        reqToToken := t } B (ys.map Prod.snd) = .ok b' ∧
      b'.PagedBy (ys.map fun y => cut a.pageSize (committedTo B y)) ∧
      b'.allocator.numPages = a.numPages ∧ b'.allocator.pageSize = a.pageSize := by
  have hP := hlay.page_size
  have hpairs : Layout a t ((ys.map (committedTo B)).map Prod.fst) := by
    rw [List.map_map]
    exact hlay
  have hreqs : b.reqs.length = ys.length := by
    have := congrArg List.length h.committed
    simpa using this
  obtain ⟨a', hfree, hsize, hnum, hlay'⟩ := hpairs.release fun z hz => by
    obtain ⟨y, hy, rfl⟩ := List.mem_map.mp hz
    exact Nat.add_le_add_left (hle y hy) _
  rw [List.map_map] at hlay'
  -- the row operations of the batch, request by request
  have hview : viewRows b.reqs.length B
      (ys.flatMap fun y => newSlots (fun e => e.len + B) a.pageSize y.1) =
        ys.map fun y => newSlots (fun e => e.len + B) a.pageSize y.1 := by
    rw [hreqs]
    exact viewRows_flatMap fun y _ => by simp [newSlots]
  have hkeep : computePagedKeepSlots b.seqLens (ys.map Prod.snd) B a.pageSize =
      .ok (ys.map fun y => min (min ((y.1.1.len + y.2 + a.pageSize - 1) / a.pageSize * a.pageSize)
        (y.1.1.len + B) - y.1.1.len) B) := by
    rw [computePagedKeepSlots, if_neg (by omega), h.seq_lens, List.map_map, List.zipWith_map,
      List.zipWith_self]
    rfl
  have hfreed : (List.zipWith (fun (row : List ℕ) keep => row.drop keep)
      (ys.map fun y => newSlots (fun e => e.len + B) a.pageSize y.1)
      (ys.map fun y => min (min ((y.1.1.len + y.2 + a.pageSize - 1) / a.pageSize * a.pageSize)
        (y.1.1.len + B) - y.1.1.len) B)).flatten =
      (ys.map (committedTo B)).flatMap (freedSlots a.pageSize) := by
    rw [List.zipWith_map, List.zipWith_self, List.flatMap_map, List.flatMap]
    exact congrArg _ (List.map_congr_left fun y _ => drop_keep_newSlots (by omega) y)
  have hout : (List.zipWith (fun (row : List ℕ) commitLen => row.take commitLen)
      (ys.map fun y => newSlots (fun e => e.len + B) a.pageSize y.1) (ys.map Prod.snd)).flatten =
      ys.flatMap (committedSlots a.pageSize) := by
    rw [List.zipWith_map, List.zipWith_self, List.flatMap]
    exact congrArg _ (List.map_congr_left fun y hy =>
      take_slotsFrom _ (Nat.add_le_add_left (hle y hy) _))
  have hend : List.zipWith (· + ·) b.seqLens (ys.map Prod.snd) =
      ys.map fun y => y.1.1.len + y.2 := by
    rw [h.seq_lens, List.map_map, List.zipWith_map, List.zipWith_self]
    rfl
  have hzip : b.reqPoolIndices.zip (b.seqLens.zip (ys.map fun y => y.1.1.len + y.2)) =
      ys.map fun y => (y.1.1.row, y.1.1.len,
        y.1.1.len + (committedSlots a.pageSize y).length) := by
    rw [h.rows, h.seq_lens, List.map_map, List.map_map, List.zip_map', List.zip_map']
    refine List.map_congr_left fun y _ => ?_
    simp [committedSlots]
  have hcpu : List.zipWith (· + ·) b.seqLensCpu (ys.map Prod.snd) =
      ys.map fun y => y.1.1.len + y.2 := by
    rw [← hend, h.seq_lens, h.seq_lens_cpu]
  refine ⟨_, by
    simp only [KvBatch.verify, hview, hkeep, bind, Except.bind, hfreed, hfree, hout, hend, hzip,
      hcpu]
    rfl, ?_, hnum, hsize⟩
  refine ⟨layout_assign hsize hlay', ?_, ?_, ?_, ?_, ?_⟩
  · rw [h.rows, List.map_map, List.map_map]
    rfl
  · rw [List.map_map]
    rfl
  · rw [List.map_map]
    rfl
  · have hadd : List.zipWith (fun (req : KvReq) commitLen => req.kvCommittedLen + commitLen) b.reqs
        (ys.map Prod.snd) = ys.map fun y => y.1.1.len + y.2 := by
      rw [← hend, h.seq_lens, ← h.committed, List.zipWith_map_left]
    rw [List.map_zipWith, List.map_map]
    exact hadd
  · have hsum : (ys.map fun y => y.1.1.len + y.2).sum =
        (ys.map fun y => y.1.1.len).sum + (ys.map Prod.snd).sum := List.sum_map_add
    rw [h.seq_lens_sum, List.map_map, List.map_map]
    exact hsum.symm

/-- A round either gives a laid out batch or lacks the pages for the blocks. -/
theorem PagedBy.round (h : b.PagedBy es) {commitLens : List ℕ}
    (hlen : commitLens.length = es.length) (hle : ∀ c ∈ commitLens, c ≤ B) :
    (∃ b' es', b.round B commitLens = .ok b' ∧ b'.PagedBy es' ∧ es'.length = es.length ∧
      b'.allocator.numPages = b.allocator.numPages ∧
      b'.allocator.pageSize = b.allocator.pageSize) ∨
    (¬b.CanExtend B ∧ ∃ err, b.round B commitLens = .error err) := by
  by_cases hcan : b.CanExtend B
  · obtain ⟨a, t, xs, hprep, hfst, hnum, hsize, hlay⟩ := h.prepareForVerify hcan
    have hxs : xs.length = commitLens.length := by rw [hlen, ← hfst, List.length_map]
    obtain ⟨ys, rfl, rfl⟩ : ∃ ys : List ((KvEntry × List ℕ) × ℕ),
        ys.map Prod.fst = xs ∧ ys.map Prod.snd = commitLens :=
      ⟨xs.zip commitLens, List.map_fst_zip hxs.le, List.map_snd_zip hxs.ge⟩
    rw [List.map_map] at hfst hlay
    rw [List.flatMap_map] at hprep
    obtain ⟨b', hverify, hpaged, hnum', hsize'⟩ := verify_spec (hfst ▸ h) hlay
      fun y hy => hle y.2 (List.mem_map_of_mem hy)
    refine Or.inl ⟨b', _, ?_, hpaged, ?_, hnum'.trans hnum, hsize'.trans hsize⟩
    · rw [KvBatch.round, hprep]
      exact hverify
    · rw [← hfst, List.length_map, List.length_map]
  · obtain ⟨err, hprep⟩ := h.prepareForVerify_fails hcan
    exact Or.inr ⟨hcan, err, by rw [KvBatch.round, hprep]; rfl⟩

/-- A run gives a laid out batch or stops at a round that lacks the pages. -/
theorem PagedBy.run : ∀ (rounds : List (List ℕ)) {b : KvBatch} {es : List KvEntry}, b.PagedBy es →
    (∀ commitLens ∈ rounds, commitLens.length = es.length ∧ ∀ c ∈ commitLens, c ≤ B) →
    (∃ b' es', b.run B rounds = .ok b' ∧ b'.PagedBy es' ∧
      b'.allocator.numPages = b.allocator.numPages ∧
      b'.allocator.pageSize = b.allocator.pageSize) ∨
    ∃ k < rounds.length, ∃ b' es', b.run B (rounds.take k) = .ok b' ∧ b'.PagedBy es' ∧
      b'.allocator.numPages = b.allocator.numPages ∧
      b'.allocator.pageSize = b.allocator.pageSize ∧ ¬b'.CanExtend B ∧
      ∃ err, b.run B rounds = .error err
  | [], b, es, h, _ => Or.inl ⟨b, es, rfl, h, rfl, rfl⟩
  | commitLens :: rounds, b, es, h, hrounds => by
    obtain ⟨hlen, hle⟩ := hrounds commitLens List.mem_cons_self
    rcases h.round hlen hle with ⟨b₁, es₁, hround, h₁, hlen₁, hnum₁, hsize₁⟩ | ⟨hcan, err, hround⟩
    · have hrest : ∀ c ∈ rounds, c.length = es₁.length ∧ ∀ n ∈ c, n ≤ B := fun c hc =>
        hlen₁ ▸ hrounds c (List.mem_cons_of_mem _ hc)
      rcases PagedBy.run rounds h₁ hrest with ⟨b', es', hrun, h', hnum, hsize⟩ |
        ⟨k, hk, b', es', hrun, h', hnum, hsize, hcan, err, herr⟩
      · refine Or.inl ⟨b', es', ?_, h', hnum.trans hnum₁, hsize.trans hsize₁⟩
        rw [KvBatch.run, hround]
        exact hrun
      · refine Or.inr ⟨k + 1, Nat.succ_lt_succ hk, b', es', ?_, h', hnum.trans hnum₁,
          hsize.trans hsize₁, hcan, err, ?_⟩
        · rw [List.take_succ_cons, KvBatch.run, hround]
          exact hrun
        · rw [KvBatch.run, hround]
          exact herr
    · refine Or.inr ⟨0, Nat.succ_pos _, b, es, rfl, h, rfl, rfl, hcan, err, ?_⟩
      rw [KvBatch.run, hround]
      rfl

/-! ## What a round commits -/

theorem of_prepareForVerify_ok {b b' : KvBatch} (h : b.prepareForVerify B = .ok b') :
    b'.reqPoolIndices = b.reqPoolIndices ∧ b'.seqLens = b.seqLens := by
  obtain ⟨⟨allocator, outCacheLoc⟩, -, h⟩ := of_bind_ok h
  cases outCacheLoc with
  | none => cases h
  | some outCacheLoc =>
    obtain rfl := Except.ok.inj h
    exact ⟨rfl, rfl⟩

theorem of_verify_ok {b b' : KvBatch} {commitLens : List ℕ}
    (h : b.verify B commitLens = .ok b') : b'.reqPoolIndices = b.reqPoolIndices ∧
      b'.seqLens = List.zipWith (· + ·) b.seqLens commitLens := by
  obtain ⟨keepSlots, -, h⟩ := of_bind_ok h
  obtain ⟨allocator, -, h⟩ := of_bind_ok h
  obtain rfl := Except.ok.inj h
  exact ⟨rfl, rfl⟩

/-- A run keeps the rows and adds up what its rounds commit. -/
theorem of_run_ok : ∀ (rounds : List (List ℕ)) {b b' : KvBatch}, b.run B rounds = .ok b' →
    b'.reqPoolIndices = b.reqPoolIndices ∧
      b'.seqLens = rounds.foldl (List.zipWith (· + ·)) b.seqLens
  | [], b, b', h => by
    obtain rfl := Except.ok.inj h
    exact ⟨rfl, rfl⟩
  | commitLens :: rounds, b, b', h => by
    obtain ⟨b₂, hround, hrun⟩ := of_bind_ok h
    obtain ⟨b₁, hprep, hverify⟩ := of_bind_ok hround
    obtain ⟨hrows₁, hlens₁⟩ := of_prepareForVerify_ok hprep
    obtain ⟨hrows₂, hlens₂⟩ := of_verify_ok hverify
    obtain ⟨hrows, hlens⟩ := of_run_ok rounds hrun
    refine ⟨hrows.trans (hrows₂.trans hrows₁), ?_⟩
    rw [hlens, hlens₂, hlens₁, List.foldl_cons]

/-! ## Ownership -/

/-- Request `i` has a committed position on the page. -/
def Holds (b : KvBatch) (i page : ℕ) : Prop :=
  ∃ row ∈ b.reqPoolIndices[i]?, ∃ len ∈ b.seqLens[i]?, ∃ p < len,
    b.reqToToken row p / b.allocator.pageSize = page

/-- Every page is free or held by exactly one request, slots have the residue of their
position and the lengths agree. -/
structure Owned (b : KvBatch) : Prop where
  free_nodup : (b.allocator.freePages ++ b.allocator.releasePages).Nodup
  free_or_held : ∀ page, 1 ≤ page → page ≤ b.allocator.numPages →
    (page ∈ b.allocator.freePages ++ b.allocator.releasePages ∧ ∀ i, ¬b.Holds i page) ∨
    (page ∉ b.allocator.freePages ++ b.allocator.releasePages ∧ ∃! i, b.Holds i page)
  slot_mod : ∀ i : ℕ, ∀ row ∈ b.reqPoolIndices[i]?, ∀ len ∈ b.seqLens[i]?, ∀ p < len,
    b.reqToToken row p % b.allocator.pageSize = p % b.allocator.pageSize
  not_freed : ∀ i : ℕ, ∀ row ∈ b.reqPoolIndices[i]?, ∀ len ∈ b.seqLens[i]?, ∀ p < len,
    b.reqToToken row p / b.allocator.pageSize ∉
      b.allocator.freePages ++ b.allocator.releasePages
  seq_lens_cpu : b.seqLensCpu = b.seqLens
  committed : b.reqs.map KvReq.kvCommittedLen = b.seqLens
  seq_lens_sum : b.seqLensSum = b.seqLens.sum

/-- The rows and lengths of the batch are those of its requests. -/
theorem PagedBy.entry (h : b.PagedBy es) {i row len : ℕ} (hrow : row ∈ b.reqPoolIndices[i]?)
    (hlen : len ∈ b.seqLens[i]?) : ∃ e ∈ es[i]?, e.row = row ∧ e.len = len := by
  rw [h.rows, List.getElem?_map, Option.mem_map] at hrow
  rw [h.seq_lens, List.getElem?_map, Option.mem_map] at hlen
  obtain ⟨e, he, rfl⟩ := hrow
  obtain ⟨e', he', rfl⟩ := hlen
  obtain rfl := Option.mem_unique he he'
  exact ⟨e, he, rfl, rfl⟩

/-- The pages a request holds are those of its table. -/
theorem PagedBy.holds_iff (h : b.PagedBy es) {i page : ℕ} :
    b.Holds i page ↔ ∃ e ∈ es[i]?, page ∈ e.table := by
  have hP : 0 < b.allocator.pageSize := by have := h.layout.page_size; omega
  constructor
  · rintro ⟨row, hrow, len, hlen, p, hp, rfl⟩
    obtain ⟨e, he, rfl, rfl⟩ := h.entry hrow hlen
    have hlaid := h.layout.laid e (List.mem_of_getElem? he)
    refine ⟨e, he, ?_⟩
    rw [hlaid.slot_eq p hp]
    exact page_mem hP (hlaid.length_table ▸ div_lt_pagesFor hP hp)
  · rintro ⟨e, he, hpage⟩
    have hlaid := h.layout.laid e (List.mem_of_getElem? he)
    obtain ⟨j, hj, rfl⟩ := List.getElem_of_mem hpage
    have hpos : j * b.allocator.pageSize < e.len :=
      (lt_pagesFor_iff hP).mp (hlaid.length_table ▸ hj)
    refine ⟨e.row, ?_, e.len, ?_, j * b.allocator.pageSize, hpos, ?_⟩
    · rw [h.rows, List.getElem?_map, he]
      rfl
    · rw [h.seq_lens, List.getElem?_map, he]
      rfl
    · rw [hlaid.slot_eq _ hpos, slotOf_div hP, Nat.mul_div_cancel _ hP,
        List.getD_eq_getElem _ _ hj]

/-- A page is in the tables of at most one request. -/
theorem PagedBy.holder_unique (h : b.PagedBy es) {i j page : ℕ} (hi : b.Holds i page)
    (hj : b.Holds j page) : i = j := by
  rw [h.holds_iff] at hi hj
  obtain ⟨e, he, hpage⟩ := hi
  obtain ⟨e', he', hpage'⟩ := hj
  have hdisj := (List.nodup_flatMap.mp (List.nodup_append.mp h.layout.nodup).2.1).2
  rw [List.pairwise_iff_getElem] at hdisj
  obtain ⟨hi, rfl⟩ := List.getElem?_eq_some_iff.mp he
  obtain ⟨hj, rfl⟩ := List.getElem?_eq_some_iff.mp he'
  rcases Nat.lt_trichotomy i j with hlt | heq | hgt
  · exact absurd hpage' (hdisj i j hi hj hlt hpage)
  · exact heq
  · exact absurd hpage (hdisj j i hj hi hgt hpage')

theorem PagedBy.owned (h : b.PagedBy es) : b.Owned := by
  have hnodup := List.nodup_append.mp h.layout.nodup
  have hP : 0 < b.allocator.pageSize := by have := h.layout.page_size; omega
  have hheld : ∀ {i page}, b.Holds i page →
      page ∉ b.allocator.freePages ++ b.allocator.releasePages := by
    intro i page hi hfree
    obtain ⟨e, he, hpage⟩ := h.holds_iff.mp hi
    exact hnodup.2.2 page hfree page
      (List.mem_flatMap.mpr ⟨e, List.mem_of_getElem? he, hpage⟩) rfl
  refine ⟨hnodup.1, fun page hlo hhi => ?_, ?_, ?_, ?_, ?_, ?_⟩
  · have hmem := (h.layout.pages_perm.mem_iff (a := page)).mpr
      (List.mem_range'_1.mpr (by omega))
    rcases List.mem_append.mp hmem with hfree | htable
    · exact Or.inl ⟨hfree, fun i hi => hheld hi hfree⟩
    · obtain ⟨e, he, hpage⟩ := List.mem_flatMap.mp htable
      obtain ⟨i, hi⟩ := List.getElem?_of_mem he
      have hholds := h.holds_iff.mpr ⟨e, hi, hpage⟩
      exact Or.inr ⟨hheld hholds, i, hholds, fun j hj => h.holder_unique hj hholds⟩
  · intro i row hrow len hlen p hp
    obtain ⟨e, he, rfl, rfl⟩ := h.entry hrow hlen
    rw [(h.layout.laid e (List.mem_of_getElem? he)).slot_eq p hp, slotOf_mod]
  · intro i row hrow len hlen p hp
    exact hheld ⟨row, hrow, len, hlen, p, hp, rfl⟩
  · rw [h.seq_lens_cpu, h.seq_lens]
  · rw [h.committed, h.seq_lens]
  · rw [h.seq_lens_sum, h.seq_lens]

/-- Whatever the verify steps commit, each page is owned once after every round, the lengths are
those before and what was committed, and a round only fails when there are too few free pages for
the blocks. -/
theorem paged_run_owned (h : b.PagedBy es) (B : ℕ) (rounds : List (List ℕ))
    (hrounds : ∀ commitLens ∈ rounds, commitLens.length = es.length ∧
      ∀ c ∈ commitLens, 1 ≤ c ∧ c ≤ B) :
    (∃ b', b.run B rounds = .ok b' ∧ b'.Owned ∧
      b'.reqPoolIndices = b.reqPoolIndices ∧
      b'.seqLens = rounds.foldl (List.zipWith (· + ·)) b.seqLens ∧
      b'.allocator.numPages = b.allocator.numPages ∧
      b'.allocator.pageSize = b.allocator.pageSize) ∨
    ∃ k < rounds.length, ∃ b', b.run B (rounds.take k) = .ok b' ∧ b'.Owned ∧
      b'.seqLens = (rounds.take k).foldl (List.zipWith (· + ·)) b.seqLens ∧
      ¬b'.CanExtend B ∧ ∃ err, b.run B rounds = .error err := by
  rcases PagedBy.run rounds h fun c hc => ⟨(hrounds c hc).1, fun n hn => ((hrounds c hc).2 n hn).2⟩
    with ⟨b', es', hrun, h', hnum, hsize⟩ | ⟨k, hk, b', es', hrun, h', -, -, hcan, hfail⟩
  · obtain ⟨hrows, hlens⟩ := of_run_ok rounds hrun
    exact Or.inl ⟨b', hrun, h'.owned, hrows, hlens, hnum, hsize⟩
  · exact Or.inr ⟨k, hk, b', hrun, h'.owned, (of_run_ok _ hrun).2, hcan, hfail⟩

/-- Two requests of lengths `3` and `2` on pages of two slots, with three free pages. -/
def pagedPair : KvBatch where
  allocator := ⟨2, 6, true, true, [4, 5, 6], [], true, []⟩
  reqToToken row p := if row = 0 then [2, 3, 4].getD p 0 else [6, 7].getD p 0
  reqPoolIndices := [0, 1]
  reqs := [⟨3, 3⟩, ⟨2, 2⟩]
  seqLens := [3, 2]
  seqLensCpu := [3, 2]
  seqLensSum := 5
  outCacheLoc := []

theorem pagedBy_pagedPair : pagedPair.PagedBy [⟨0, 3, [1, 2]⟩, ⟨1, 2, [3]⟩] where
  layout := by
    refine ⟨by decide, by decide, ?_, by decide, rfl, by decide⟩
    intro e he
    simp only [List.mem_cons, List.not_mem_nil, or_false] at he
    rcases he with rfl | rfl
    · exact ⟨rfl, by decide⟩
    · exact ⟨rfl, by decide⟩
  rows := rfl
  seq_lens := rfl
  seq_lens_cpu := rfl
  committed := rfl
  seq_lens_sum := rfl

/-- A round of blocks of three tokens that commits two tokens of the first request and one of
the second. -/
theorem paged_run_owned_pair :
    ∃ b', pagedPair.run 3 [[2, 1]] = .ok b' ∧ b'.Owned ∧ b'.seqLens = [5, 3] := by
  have hrounds : ∀ commitLens ∈ [[2, 1]],
      commitLens.length = [(⟨0, 3, [1, 2]⟩ : KvEntry), ⟨1, 2, [3]⟩].length ∧
        ∀ c ∈ commitLens, 1 ≤ c ∧ c ≤ 3 := by decide
  rcases paged_run_owned pagedBy_pagedPair 3 [[2, 1]] hrounds with
    ⟨b', hrun, hown, -, hlens, -⟩ | ⟨k, hk, b', hrun, -, -, hcan, -⟩
  · exact ⟨b', hrun, hown, hlens⟩
  · have hzero : k = 0 := by simpa using hk
    subst hzero
    obtain rfl := Except.ok.inj hrun
    exact absurd (by unfold CanExtend; decide) hcan

end KvBatch

end DraftOpd
