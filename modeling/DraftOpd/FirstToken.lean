import DraftOpd.TeacherBranch
import DraftOpd.TvErrors

/-!
# The first rejected token of an anchor

With `first_token_only` the sampled-KL loss filters the metadata before the model
(`_filter_dflash_rejected_draft_first_tokens`), by a running minimum for each anchor, and the TV
loss selects from the sorted offsets of an anchor in the model (`_build_tv_position_plan`).

The filter keeps the first item of every anchor, in the order of the items
(`firstTokens_eq_filter`). On metadata that the TV plan accepts both select the same rejected
tokens (`firstToken_paths_agree`).
-/

namespace DraftOpd

/-! ## The filter -/

/-- The valid item of its anchor with the smallest offset, and the earliest of these. -/
def SelectedItem.IsFirst (items : List SelectedItem) (item : SelectedItem) : Prop :=
  item.valid = true ∧ ∀ other ∈ items, other.valid = true → other.anchor = item.anchor →
    item.offset < other.offset ∨ item.offset = other.offset ∧ item.itemIdx ≤ other.itemIdx

instance (items : List SelectedItem) (item : SelectedItem) : Decidable (item.IsFirst items) :=
  inferInstanceAs (Decidable (_ ∧ ∀ other ∈ items, _))

/-- What the loop holds for an anchor is its first item so far. -/
theorem isFirst_of_get?_foldl {items : List SelectedItem}
    (hidx : items.Pairwise fun x y => x.itemIdx < y.itemIdx) {k : ℤ} {item : SelectedItem}
    (h : (items.foldl selectFirst .empty).get? k = some item) :
    item ∈ items ∧ item.anchor = k ∧ item.IsFirst items := by
  have hfound : item ∈ items ∧ item.valid = true ∧ item.anchor = k :=
    (get?_foldl_selectFirst items .empty k item h).resolve_left fun hnone => (by cases hnone)
  refine ⟨hfound.1, hfound.2.2, hfound.2.1, ?_⟩
  -- The new item either comes before all of its anchor, or after the one that is held.
  induction items using List.reverseRecOn generalizing item with
  | nil => exact fun other hother => absurd hother List.not_mem_nil
  | append_singleton items x ih =>
    intro other hother hvalid hanchor
    obtain ⟨hitems, -, hlast⟩ := List.pairwise_append.mp hidx
    have hheld : ∀ {current}, (items.foldl selectFirst .empty).get? k = some current →
        current ∈ items ∧ current.valid = true ∧ current.anchor = k := fun hget =>
      (get?_foldl_selectFirst items .empty k _ hget).resolve_left fun hnone => (by cases hnone)
    rw [List.foldl_concat] at h
    by_cases hx : x.valid = true
    · rw [get?_selectFirst _ hx] at h
      split_ifs at h with hnew
      · obtain rfl := Option.some.inj h
        rcases List.mem_append.mp hother with hother | hother
        · have hkey : k ∈ (items.foldl selectFirst .empty).keys := by
            refine (mem_keys_foldl_selectFirst items .empty k).mpr (Or.inl ?_)
            rw [hnew.1, ← hanchor]
            exact List.mem_map_of_mem (List.mem_filter.mpr ⟨hother, hvalid⟩)
          obtain ⟨current, hcurrent⟩ := Option.ne_none_iff_exists'.mp (Dict.mem_keys_iff.mp hkey)
          have hle := ih hitems hcurrent (hheld hcurrent) other hother hvalid
            (by rw [hanchor, (hheld hcurrent).2.2, hnew.1])
          rw [hcurrent, Option.all_some, decide_eq_true_eq] at hnew
          omega
        · rw [List.mem_singleton.mp hother]
          omega
      · obtain ⟨hmem, -, hk⟩ := hheld h
        rcases List.mem_append.mp hother with hother | hother
        · exact ih hitems h (hheld h) other hother hvalid hanchor
        · have hlt := hlast item hmem x (List.mem_singleton_self _)
          rw [List.mem_singleton.mp hother] at hanchor ⊢
          have hge : ¬x.offset < item.offset := fun hlt =>
            hnew ⟨by rw [← hk, hanchor], by rw [h]; simpa using hlt⟩
          omega
    · rw [selectFirst_of_not_valid (by simpa using hx)] at h
      rcases List.mem_append.mp hother with hother | hother
      · exact ih hitems h (hheld h) other hother hvalid hanchor
      · rw [List.mem_singleton.mp hother] at hvalid
        exact absurd hvalid hx

/-- An anchor with a valid item has a first one. -/
theorem exists_isFirst {items : List SelectedItem}
    (hidx : items.Pairwise fun x y => x.itemIdx < y.itemIdx) {item : SelectedItem}
    (hmem : item ∈ items) (hvalid : item.valid = true) :
    ∃ first, (items.foldl selectFirst .empty).get? item.anchor = some first ∧ first ∈ items ∧
      first.anchor = item.anchor ∧ first.IsFirst items := by
  have hkey : item.anchor ∈ (items.foldl selectFirst .empty).keys :=
    (mem_keys_foldl_selectFirst items .empty _).mpr
      (Or.inl (List.mem_map_of_mem (List.mem_filter.mpr ⟨hmem, hvalid⟩)))
  obtain ⟨first, hfirst⟩ := Option.ne_none_iff_exists'.mp (Dict.mem_keys_iff.mp hkey)
  exact ⟨first, hfirst, isFirst_of_get?_foldl hidx hfirst⟩

theorem get?_foldl_of_isFirst {items : List SelectedItem}
    (hidx : items.Pairwise fun x y => x.itemIdx < y.itemIdx) {item : SelectedItem}
    (hmem : item ∈ items) (hfirst : item.IsFirst items) :
    (items.foldl selectFirst .empty).get? item.anchor = some item := by
  obtain ⟨first, hget, hfirstMem, hanchor, hfirst'⟩ := exists_isFirst hidx hmem hfirst.1
  have h₁ := hfirst.2 first hfirstMem hfirst'.1 hanchor
  have h₂ := hfirst'.2 item hmem hfirst.1 hanchor.symm
  have hkeys : (items.map SelectedItem.itemIdx).Nodup :=
    List.pairwise_map.mpr (hidx.imp fun h => ne_of_lt h)
  rw [hget, List.inj_on_of_nodup_map hkeys hfirstMem hmem (by omega)]

/-- The filter keeps the first item of every anchor, in the order of the items. -/
theorem firstTokens_eq_filter {items : List SelectedItem}
    (hidx : items.Pairwise fun x y => x.itemIdx < y.itemIdx) :
    firstTokens items = items.filter fun item => decide (item.IsFirst items) := by
  have hanchors : ∀ e ∈ (items.foldl selectFirst .empty).entries, e.2.anchor = e.1 :=
    fun e he => (isFirst_of_get?_foldl hidx (Dict.mem_entries_iff.mp he)).2.1
  have hvalues : ((items.foldl selectFirst .empty).entries.map Prod.snd).Nodup := by
    refine List.Nodup.of_map SelectedItem.anchor ?_
    have hkeys := List.map_congr_left hanchors
    rw [List.map_map]
    exact hkeys ▸ Dict.nodup_keys _
  have hitems : items.Nodup := hidx.imp fun {x y} h => by
    rintro rfl
    exact lt_irrefl _ h
  refine insertionSort_key_eq ((List.perm_ext_iff_of_nodup hvalues (hitems.filter _)).mpr
    fun item => ?_) (hidx.filter _)
  rw [List.mem_map, List.mem_filter, decide_eq_true_eq]
  constructor
  · rintro ⟨e, he, rfl⟩
    obtain ⟨hmem, -, hfirst⟩ := isFirst_of_get?_foldl hidx (Dict.mem_entries_iff.mp he)
    exact ⟨hmem, hfirst⟩
  · rintro ⟨hmem, hfirst⟩
    exact ⟨(item.anchor, item), Dict.mem_entries_iff.mpr (get?_foldl_of_isFirst hidx hmem hfirst),
      rfl⟩

/-- The items of a sample are numbered in order. -/
theorem pairwise_sampleItems (anchors offsets tokenIds : List ℤ)
    (teacherLogprobs : Option (List LogProb)) :
    (sampleItems anchors offsets tokenIds teacherLogprobs).Pairwise
      fun x y => x.itemIdx < y.itemIdx := by
  rw [List.pairwise_iff_getElem]
  intro i j hi hj hlt
  simpa [sampleItems] using hlt

/-- The items of sample `i` of a batch. -/
def batchItems (anchors offsets tokenIds : List (List ℤ))
    (teacherLogprobs : Option (List (List LogProb))) (i : ℕ) : List SelectedItem :=
  sampleItems (anchors.getD i []) (offsets.getD i []) (tokenIds.getD i [])
    (teacherLogprobs.map fun ts => ts.getD i [])

/-- The lists of every sample have one length. -/
def SameLengths (anchors offsets tokenIds : List (List ℤ))
    (teacherLogprobs : Option (List (List LogProb))) : Prop :=
  ∀ i < tokenIds.length, (anchors.getD i []).length = (offsets.getD i []).length ∧
    (offsets.getD i []).length = (tokenIds.getD i []).length ∧
    ∀ ts ∈ teacherLogprobs, (tokenIds.getD i []).length = (ts.getD i []).length

section Filter

variable {anchors offsets tokenIds : List (List ℤ)} {teacherLogprobs : Option (List (List LogProb))}

theorem filter_lengths_iff {i : ℕ} :
    (((teacherLogprobs.map fun ts => ts.getD i []).all fun ts =>
      (tokenIds.getD i []).length == ts.length) = true) ↔
    ∀ ts ∈ teacherLogprobs, (tokenIds.getD i []).length = (ts.getD i []).length := by
  cases teacherLogprobs <;> simp

/-- The filter accepts lists of one length, and then keeps the first items of every sample. -/
theorem filterDflashRejectedDraftFirstTokens_eq_ok {rows : List (List SelectedItem)} :
    filterDflashRejectedDraftFirstTokens anchors offsets tokenIds teacherLogprobs = .ok rows ↔
      SameLengths anchors offsets tokenIds teacherLogprobs ∧
      rows = (List.range tokenIds.length).map fun i =>
        (batchItems anchors offsets tokenIds teacherLogprobs i).filter fun item =>
          decide (item.IsFirst (batchItems anchors offsets tokenIds teacherLogprobs i)) := by
  have hfirst : ∀ i, firstTokens (batchItems anchors offsets tokenIds teacherLogprobs i) =
      (batchItems anchors offsets tokenIds teacherLogprobs i).filter fun item =>
        decide (item.IsFirst (batchItems anchors offsets tokenIds teacherLogprobs i)) :=
    fun i => firstTokens_eq_filter (pairwise_sampleItems ..)
  simp only [← hfirst]
  unfold filterDflashRejectedDraftFirstTokens
  simp only [filter_lengths_iff]
  constructor
  · intro h
    obtain ⟨hlen, hrows⟩ := of_forRange_ok h []
    have hrow : ∀ i < tokenIds.length, ((anchors.getD i []).length = (offsets.getD i []).length ∧
        (offsets.getD i []).length = (tokenIds.getD i []).length ∧
        ∀ ts ∈ teacherLogprobs, (tokenIds.getD i []).length = (ts.getD i []).length) ∧
        rows.getD i [] = firstTokens (batchItems anchors offsets tokenIds teacherLogprobs i) := by
      intro i hi
      have hi := hrows i hi
      split_ifs at hi with heven
      exact ⟨heven, (Except.ok.inj hi).symm⟩
    refine ⟨fun i hi => (hrow i hi).1, ?_⟩
    rw [← List.map_id rows, ← map_range_getD rows [] id, hlen]
    exact List.map_congr_left fun i hi => (hrow i (List.mem_range.mp hi)).2
  · rintro ⟨heven, rfl⟩
    exact forRange_eq_ok fun i hi => if_pos (heven i hi)

end Filter

/-! ## The items and the cells -/

namespace Sample

/-- The items of a sample and its cells have the same anchors, offsets and tokens. -/
theorem exists_item_iff {s : Sample} (h : s.Even) (width : ℕ)
    (teacherLogprobs : Option (List LogProb)) (a o t : ℤ) :
    (∃ item ∈ sampleItems s.anchors s.offsets s.tokenIds teacherLogprobs,
      item.anchor = a ∧ item.offset = o ∧ item.tokenId = t) ↔
    ∃ cell ∈ padRow width .pad (s.kept false), cell.mask = true ∧ cell.anchor = a ∧
      cell.offset = o ∧ cell.tokenId = t := by
  have h₁ := h.length_offsets
  have h₂ := h.length_tokenIds
  have h₃ := h.length_teacherLogprobs
  have hitems : (sampleItems s.anchors s.offsets s.tokenIds teacherLogprobs).map (fun item =>
      (item.anchor, item.offset, item.tokenId)) = s.anchors.zip (s.offsets.zip s.tokenIds) := by
    refine List.ext_getElem (by simp [sampleItems]) fun i hi₁ hi₂ => ?_
    simp [sampleItems]
  have hcells : (s.kept false).map (fun cell => (cell.anchor, cell.offset, cell.tokenId)) =
      s.anchors.zip (s.offsets.zip s.tokenIds) := by
    refine List.ext_getElem (by simp [kept, rejectedCells]; omega) fun i hi₁ hi₂ => ?_
    simp [kept, rejectedCells]
  have hmask : ∀ cell ∈ s.kept false, cell.mask = true := by
    intro cell hcell
    exact (mem_of_mem_rejectedCells hcell).2.2.2
  constructor
  · rintro ⟨item, hitem, rfl, rfl, rfl⟩
    have hmem := List.mem_map_of_mem (f := fun item : SelectedItem =>
      (item.anchor, item.offset, item.tokenId)) hitem
    rw [hitems, ← hcells] at hmem
    obtain ⟨cell, hcell, heq⟩ := List.mem_map.mp hmem
    simp only [Prod.mk.injEq] at heq
    exact ⟨cell, List.mem_append_left _ hcell, hmask cell hcell, heq⟩
  · rintro ⟨cell, hcell, hm, rfl, rfl, rfl⟩
    rcases List.mem_append.mp hcell with hcell | hcell
    · have hmem := List.mem_map_of_mem (f := fun cell : RejectedCell =>
        (cell.anchor, cell.offset, cell.tokenId)) hcell
      rw [hcells, ← hitems] at hmem
      obtain ⟨item, hitem, heq⟩ := List.mem_map.mp hmem
      simp only [Prod.mk.injEq] at heq
      exact ⟨item, hitem, heq⟩
    · rw [List.eq_of_mem_replicate hcell] at hm
      cases hm

/-- A rejected token of the metadata at an offset before all others of its anchor. -/
def IsFirstReject (s : Sample) (cells : List RejectedCell) (a o t : ℤ) : Prop :=
  s.rejectedToken cells a o = some t ∧ ∀ o' < o, ¬s.HasReject cells a o'

variable {s : Sample} {draftBlockSize batchIdx : ℕ} {planRow : List AnchorCell}
  {cells : List RejectedCell} {index : RejectedIndex}

theorem PlanOk.rejectedToken_of_cell {firstTokenOnly : Bool}
    (h : s.PlanOk draftBlockSize batchIdx firstTokenOnly planRow cells index) {cell : RejectedCell}
    (hcell : cell ∈ cells) (hmask : cell.mask = true) :
    s.rejectedToken cells (s.fullAnchor cell.anchor) cell.offset = some cell.tokenId := by
  rw [h.rejectedToken_eq]
  exact (lookup_of_indexCells_ok h.indexed).2 cell hcell hmask

/-- The first items of a sample are its first rejected tokens. -/
theorem PlanOk.exists_isFirst_iff {firstTokenOnly : Bool} {width : ℕ} (heven : s.Even)
    (hanchors : ∀ a ∈ s.anchors, -1 ≤ a)
    (h : s.PlanOk draftBlockSize batchIdx firstTokenOnly planRow
      (padRow width .pad (s.kept false)) index)
    (teacherLogprobs : Option (List LogProb)) (a o t : ℤ) :
    (∃ item ∈ sampleItems s.anchors s.offsets s.tokenIds teacherLogprobs,
      item.IsFirst (sampleItems s.anchors s.offsets s.tokenIds teacherLogprobs) ∧
      item.anchor = a ∧ item.offset = o ∧ item.tokenId = t) ↔
    s.IsFirstReject (padRow width .pad (s.kept false)) (s.promptLen + a) o t := by
  have hitems := exists_item_iff heven width teacherLogprobs
  have hindexed := indexed_of_ok h.indexed
  have hcells : ∀ cell ∈ padRow width .pad (s.kept false), cell.mask = true →
      s.fullAnchor cell.anchor = s.promptLen + cell.anchor := by
    intro cell hcell hmask
    obtain ⟨item, hitem, ha, -⟩ := (hitems cell.anchor cell.offset cell.tokenId).mpr
      ⟨cell, hcell, hmask, rfl, rfl, rfl⟩
    exact s.fullAnchor_eq (hanchors _ (ha ▸ (mem_of_mem_sampleItems hitem).1))
  have htoken : ∀ item ∈ sampleItems s.anchors s.offsets s.tokenIds teacherLogprobs,
      item.valid = true ∧ s.rejectedToken (padRow width .pad (s.kept false))
        (s.promptLen + item.anchor) item.offset = some item.tokenId := by
    intro item hitem
    obtain ⟨cell, hcell, hmask, ha, ho, ht⟩ := (hitems _ _ _).mp ⟨item, hitem, rfl, rfl, rfl⟩
    have hok := hindexed.2 cell hcell hmask
    have hlookup := h.rejectedToken_of_cell hcell hmask
    rw [hcells cell hcell hmask, ha, ho, ht] at hlookup
    exact ⟨decide_eq_true ⟨ht ▸ hok.token_nonneg, ho ▸ hok.offset_pos⟩, hlookup⟩
  have hreject : ∀ a o, s.HasReject (padRow width .pad (s.kept false)) (s.promptLen + a) o →
      ∃ item ∈ sampleItems s.anchors s.offsets s.tokenIds teacherLogprobs,
        item.anchor = a ∧ item.offset = o := by
    rintro a o ⟨cell, hcell, hmask, ha, rfl⟩
    rw [hcells cell hcell hmask] at ha
    obtain ⟨item, hitem, ha', ho, -⟩ := (hitems _ _ _).mpr ⟨cell, hcell, hmask, rfl, rfl, rfl⟩
    exact ⟨item, hitem, by omega, ho⟩
  constructor
  · rintro ⟨item, hitem, hfirst, rfl, rfl, rfl⟩
    refine ⟨(htoken item hitem).2, fun o' hlt ho' => ?_⟩
    obtain ⟨other, hother, hanchor, rfl⟩ := hreject _ _ ho'
    have := hfirst.2 other hother (htoken other hother).1 hanchor
    omega
  · rintro ⟨hsome, hleast⟩
    have hlookup := hsome
    rw [h.rejectedToken_eq] at hlookup
    obtain ⟨cell, hcell, hmask, ha, ho, -⟩ := hindexed.1.stored _ _ _ hlookup
    obtain ⟨item, hitem, rfl, rfl⟩ := hreject a o ⟨cell, hcell, hmask, ha, ho⟩
    obtain ⟨first, -, hmem, hanchor, hfirst⟩ := exists_isFirst (pairwise_sampleItems ..) hitem
      (htoken item hitem).1
    have hle := hfirst.2 item hitem (htoken item hitem).1 hanchor.symm
    obtain ⟨cell', hcell', hmask', ha', ho', -⟩ := (hitems _ _ _).mp ⟨first, hmem, rfl, rfl, rfl⟩
    have hge : ¬first.offset < item.offset := fun hlt => hleast _ hlt
      ⟨cell', hcell', hmask', by rw [hcells cell' hcell' hmask', ha', hanchor], ho'⟩
    have hoffset : first.offset = item.offset := by omega
    have htoken' := (htoken first hmem).2
    rw [hanchor, hoffset, hsome] at htoken'
    exact ⟨first, hmem, hfirst, hanchor, hoffset, (Option.some.inj htoken').symm⟩

/-- With `first_token_only`, a block goes up to the first rejected token of its anchor. -/
theorem PlanOk.selected_first (h : s.PlanOk draftBlockSize batchIdx true planRow cells index)
    {a o t : ℤ} (htoken : s.rejectedToken cells a o = some t) (segmentLen : ℤ) :
    o ∈ selectedOffsets (index.get? a) segmentLen true ↔ ∀ o' < o, ¬s.HasReject cells a o' := by
  obtain ⟨hindexed, -⟩ := indexed_of_ok h.indexed
  rw [h.rejectedToken_eq] at htoken
  obtain ⟨cell, hcell, hmask, ha, ho, -⟩ := hindexed.stored a o t htoken
  have hreject : s.HasReject cells a o := ⟨cell, hcell, hmask, ha, ho⟩
  obtain ⟨byOffset, hget⟩ := hindexed.exists_get? hreject
  obtain ⟨first, last, hrange, -⟩ := h.suffixOk hget
  have hle := hrange.first_le
  have hpos := hrange.first_pos
  have hkey := hrange.mem_keys.mp ((hindexed.mem_keys hget).mpr hreject)
  rw [hget, hrange.selectedOffsets_eq, if_pos rfl, mem_intRange]
  constructor
  · intro hmem o' hlt ho'
    have := hrange.mem_keys.mp ((hindexed.mem_keys hget).mpr ho')
    omega
  · intro hleast
    have hfirst := (hindexed.mem_keys hget).mp (hrange.mem_keys.mpr ⟨le_rfl, hle⟩)
    have : ¬first < o := fun hlt => hleast first hlt hfirst
    omega

end Sample

/-! ## Both paths -/

/-- The anchors, offsets and tokens of the items. -/
def keptTokens (items : List SelectedItem) : Set (ℤ × ℤ × ℤ) :=
  {x | ∃ item ∈ items, (item.anchor, item.offset, item.tokenId) = x}

/-- The anchors, offsets and tokens of the rejected drafts of sample `i` that have a position in the
plan. -/
def Sample.plannedTokens (s : Sample) (draftBlockSize : ℕ) (planRows : List (List AnchorCell))
    (plan : TvPlan) (i : ℕ) (cells : List RejectedCell) : Set (ℤ × ℤ × ℤ) :=
  {x | (∃ k, PositionAt draftBlockSize planRows plan k i (s.promptLen + x.1) x.2.1) ∧
    s.rejectedToken cells (s.promptLen + x.1) x.2.1 = some x.2.2}

section Plan

variable {draftBlockSize : ℕ} {samples : List Sample} {planRows : List (List AnchorCell)}
  {rows : List (List RejectedCell)} {plan : TvPlan}

/-- The rejected tokens of a plan with `first_token_only` are the first ones. -/
theorem positionAt_firstToken_iff
    (h : buildTvPositionPlan draftBlockSize true samples planRows (some rows) = .ok plan) {i : ℕ}
    (hi : i < samples.length) {a o t : ℤ} :
    ((∃ k, PositionAt draftBlockSize planRows plan k i a o) ∧
      (samples.getD i default).rejectedToken (rows.getD i []) a o = some t) ↔
    (samples.getD i default).IsFirstReject (rows.getD i []) a o t := by
  obtain ⟨blocks, indices, rfl, hok, hblocks, -⟩ := of_buildTvPositionPlan_ok h
  simp only [Option.getD_some] at hok
  have hshaped : ∀ block ∈ blocks, TvShaped (samples.getD block.sampleIdx default) draftBlockSize
      block.sampleIdx (planRows.getD block.sampleIdx []) block := by
    intro block hblock
    obtain ⟨hlt, hmem⟩ := (hblocks block).mp hblock
    exact (hok _ hlt).shaped hmem
  rw [Sample.IsFirstReject, and_comm]
  refine and_congr_right fun htoken => ?_
  have hlookup := htoken
  rw [(hok i hi).rejectedToken_eq] at hlookup
  obtain ⟨hindexed, hcells⟩ := Sample.indexed_of_ok (hok i hi).indexed
  obtain ⟨cell, hcell, hmask, ha, ho, -⟩ := hindexed.stored _ _ _ hlookup
  have hcellOk := hcells cell hcell hmask
  constructor
  · rintro ⟨k, hk⟩
    have hsize : 0 < draftBlockSize := by
      have h₁ := hcellOk.offset_pos
      have h₂ := hcellOk.offset_lt
      omega
    obtain ⟨block, p, hget, rfl, rfl, rfl⟩ := flatPositions_of_positionAt hsize hshaped hk
    obtain ⟨hblock, hp⟩ := mem_flatPositions.mp (List.mem_of_getElem? hget)
    obtain ⟨-, hselected⟩ := of_mem_tvBlocks ((hblocks block).mp hblock).2
    obtain ⟨-, segmentLen, hmem⟩ := hselected p hp
    exact ((hok _ hi).selected_first htoken segmentLen).mp hmem
  · intro hleast
    have hkey : a ∈ (indices i).keys := by
      rw [Dict.mem_keys_iff]
      intro hnone
      rw [Sample.lookup, hnone] at hlookup
      cases hlookup
    obtain ⟨x, hx, rfl⟩ := List.mem_map.mp ((hok i hi).planned a hkey)
    have hmem := ((hok i hi).selected_first htoken x.1.segmentLen).mpr hleast
    obtain ⟨p, hp, rfl⟩ : ∃ p ∈ (tvBlock (indices i) draftBlockSize i x.2 true x.1).positions,
        p.offset = o := ⟨_, List.mem_map_of_mem hmem, rfl⟩
    have hblock : tvBlock (indices i) draftBlockSize i x.2 true x.1 ∈ blocks := by
      refine (hblocks _).mpr ⟨hi, List.mem_filter.mpr ⟨List.mem_map_of_mem hx, ?_⟩⟩
      simpa [TvBlock.hasPosition] using List.ne_nil_of_mem hp
    obtain ⟨k, hk⟩ := List.mem_iff_getElem?.mp (mem_flatPositions (x := (_, p)).mpr ⟨hblock, hp⟩)
    exact ⟨k, positionAt_of_flatPositions hk (hshaped _ hblock)⟩

end Plan

/-- Every batch of metadata : the filter accepts lists of one length, and then keeps of every
sample the first items, those that are valid and have the smallest offset of their anchor, the
earliest of equal ones, in their order. And for all metadata, with anchors from `-1` on, that the
position plan accepts, the tokens that the filter keeps are the rejected tokens of the plan with
`first_token_only`. -/
theorem firstToken_paths_agree :
    (∀ (anchors offsets tokenIds : List (List ℤ)) (teacherLogprobs : Option (List (List LogProb)))
      (rows : List (List SelectedItem)),
      filterDflashRejectedDraftFirstTokens anchors offsets tokenIds teacherLogprobs = .ok rows ↔
        SameLengths anchors offsets tokenIds teacherLogprobs ∧
        rows = (List.range tokenIds.length).map fun i =>
          (batchItems anchors offsets tokenIds teacherLogprobs i).filter fun item =>
            decide (item.IsFirst (batchItems anchors offsets tokenIds teacherLogprobs i))) ∧
    ∀ (draftBlockSize : ℕ) (samples : List Sample) (planRows : List (List AnchorCell))
      (tensors : List (List RejectedCell)) (plan : TvPlan),
      (∀ s ∈ samples, ∀ a ∈ s.anchors, -1 ≤ a) →
      buildDflashRejectedDraftTensors (.ofSamples samples) samples.length true true =
        .ok tensors →
      buildTvPositionPlan draftBlockSize true samples planRows (some tensors) = .ok plan →
      ∃ rows, filterDflashRejectedDraftFirstTokens (samples.map Sample.anchors)
          (samples.map Sample.offsets) (samples.map Sample.tokenIds)
          (some (samples.map Sample.teacherLogprobs)) = .ok rows ∧
        ∀ i < samples.length, keptTokens (rows.getD i []) =
          (samples.getD i default).plannedTokens draftBlockSize planRows plan i
            (tensors.getD i []) := by
  refine ⟨fun _ _ _ _ _ => filterDflashRejectedDraftFirstTokens_eq_ok, ?_⟩
  intro draftBlockSize samples planRows tensors plan hanchors htensors hplan
  obtain ⟨heven, width, rfl⟩ := of_tvTensors_ok htensors
  have hcolumns : ∀ i, batchItems (samples.map Sample.anchors) (samples.map Sample.offsets)
      (samples.map Sample.tokenIds) (some (samples.map Sample.teacherLogprobs)) i =
      sampleItems (samples.getD i default).anchors (samples.getD i default).offsets
        (samples.getD i default).tokenIds (some (samples.getD i default).teacherLogprobs) := by
    intro i
    rw [batchItems, getD_column samples rfl, getD_column samples rfl, getD_column samples rfl,
      Option.map_some, getD_column samples rfl]
  have hlengths : SameLengths (samples.map Sample.anchors) (samples.map Sample.offsets)
      (samples.map Sample.tokenIds) (some (samples.map Sample.teacherLogprobs)) := by
    intro i hi
    have hs := heven _ (getD_mem (by simpa using hi) default)
    rw [getD_column samples rfl, getD_column samples rfl, getD_column samples rfl]
    refine ⟨hs.length_offsets, hs.length_tokenIds, ?_⟩
    rintro _ ⟨⟩
    rw [getD_column samples rfl]
    exact hs.length_teacherLogprobs
  refine ⟨_, filterDflashRejectedDraftFirstTokens_eq_ok.mpr ⟨hlengths, rfl⟩, fun i hi => ?_⟩
  have hmem := getD_mem hi default
  obtain ⟨-, indices, -, hok, -⟩ := of_buildTvPositionPlan_ok hplan
  have hokᵢ := hok i hi
  have htensor := getD_map_of_lt (fun s : Sample => padRow width .pad (s.kept false)) hi default
    ([] : List RejectedCell)
  rw [Option.getD_some, htensor] at hokᵢ
  rw [getD_map_range _ (by simpa using hi), hcolumns]
  ext ⟨a, o, t⟩
  have hplanned := positionAt_firstToken_iff hplan hi (a := (samples.getD i default).promptLen + a)
    (o := o) (t := t)
  have hfirst := hokᵢ.exists_isFirst_iff (heven _ hmem) (hanchors _ hmem)
    (some (samples.getD i default).teacherLogprobs) a o t
  rw [htensor] at hplanned ⊢
  simp only [keptTokens, Sample.plannedTokens, Set.mem_ofPred_eq, List.mem_filter,
    decide_eq_true_eq, Prod.mk.injEq, and_assoc]
  exact hfirst.trans hplanned.symm

/-- Two anchors with their rejected drafts out of order, one of them twice. -/
def shuffledSample : Sample :=
  { suffixSample with
    anchors := [0, 2, 0, 0]
    offsets := [3, 1, 2, 2]
    tokenIds := [102, 103, 101, 101]
    teacherLogprobs := [⊥, ⊥, ⊥, ⊥] }

theorem firstToken_paths_shuffledSample : ∃ tensors plan rows,
    buildDflashRejectedDraftTensors (.ofSamples [shuffledSample]) 1 true true = .ok tensors ∧
    buildTvPositionPlan 6 true [shuffledSample] [[⟨2, 2, 2, true⟩, ⟨4, 2, 4, true⟩]]
      (some tensors) = .ok plan ∧
    filterDflashRejectedDraftFirstTokens [[0, 2, 0, 0]] [[3, 1, 2, 2]] [[102, 103, 101, 101]]
      (some [[⊥, ⊥, ⊥, ⊥]]) = .ok rows ∧
    (rows.map fun row => row.map fun item => (item.itemIdx, item.anchor, item.offset)) =
      [[(1, 2, 1), (2, 0, 2)]] ∧
    (0, 2, 101) ∈ shuffledSample.plannedTokens 6 [[⟨2, 2, 2, true⟩, ⟨4, 2, 4, true⟩]] plan 0
      (tensors.getD 0 []) := by
  have htensors : buildDflashRejectedDraftTensors (.ofSamples [shuffledSample]) 1 true true =
    .ok [shuffledSample.kept false] := rfl
  have hplan : buildTvPositionPlan 6 true [shuffledSample] [[⟨2, 2, 2, true⟩, ⟨4, 2, 4, true⟩]]
    (some [shuffledSample.kept false]) = .ok _ := rfl
  obtain ⟨rows, hrows, hsets⟩ := firstToken_paths_agree.2 6 [shuffledSample] _ _ _
    (by simp [shuffledSample]) htensors hplan
  have hrows' : rows = [[⟨1, 2, 1, 103, some ⊥⟩, ⟨2, 0, 2, 101, some ⊥⟩]] :=
    (Except.ok.inj hrows).symm
  refine ⟨_, _, rows, htensors, hplan, hrows, by rw [hrows']; rfl, ?_⟩
  have hmem : (0, 2, 101) ∈ keptTokens (rows.getD 0 []) := by
    rw [hrows']
    exact ⟨_, List.mem_cons_of_mem _ List.mem_cons_self, rfl⟩
  rw [hsets 0 Nat.one_pos] at hmem
  exact hmem

end DraftOpd
