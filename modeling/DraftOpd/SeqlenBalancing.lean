import DraftOpd.KarmarkarKarp

/-!
# Balanced partitions

`get_seqlen_balanced_partitions` splits the indices of a list of workloads into `k` parts by the
largest differencing method and checks the result. On workloads its checks never fail : it returns
exactly when there are enough items, and then the parts are non-empty, hold every index once and,
if asked for, have the same length (`getSeqlenBalancedPartitions_isPartition`). No two parts are
further apart than the largest workload, or than `k` neighbours of the sorted workloads when the
parts have the same length (`getSeqlenBalancedPartitions_load_sub_le`).

`greedy_partition` gives each index to the lightest part so far. The bias it adds to equal-size
parts makes the lightest part a shortest one, so that the lengths never differ by more than one
(`greedyPartition_spec`).
-/

namespace DraftOpd

/-! ## `karmarkar_karp` -/

/-- `sorted([(seqlen, i) for i, seqlen in enumerate(seqlen_list)])`. -/
def sortedSeqlenList (seqlens : List ℤ) : List (ℤ × ℕ) :=
  seqlens.zipIdx.insertionSort fun a b => toLex a ≤ toLex b

/-- The items of the initial states : `k` consecutive ones each for equal sizes, else one. -/
def initialItems (seqlens : List ℤ) (k : ℕ) (equalSize : Bool) : List (List (ℕ × ℤ)) :=
  let items := (sortedSeqlenList seqlens).map Prod.swap
  if equalSize then chunks k items else items.map fun item => [item]

/-- The states pushed before the loop, with the assertion on equal sizes. -/
def initialStates (seqlens : List ℤ) (k : ℕ) (equalSize : Bool) :
    Except BalanceError (List (KkState k)) :=
  if equalSize ∧ k = 0 then .error .zeroDivision
  else if equalSize ∧ seqlens.length % k ≠ 0 then .error (.notDivisible seqlens.length k)
  else (initialItems seqlens k equalSize).mapM (KkState.new k)

/-- `assert len(partition) * k_partitions == len(seqlen_list)` for one partition. -/
def checkSize (length k : ℕ) (partition : List ℕ) : Except BalanceError Unit :=
  if partition.length * k = length then .ok () else .error (.unequalSize partition.length k length)

/-- `karmarkar_karp` (`seqlen_balancing.py:49-172`). -/
def karmarkarKarp (seqlens : List ℤ) (k : ℕ) (equalSize : Bool) :
    Except BalanceError (List (List ℕ)) := do
  let states ← initialStates seqlens k equalSize
  match mergeHeap KkState.lt KkState.merge (states.foldl heappush []) with
  | [] => .error .indexOutOfRange
  | finalState :: _ =>
    let partitions := finalState.getPartitions
    let _ ← if equalSize then partitions.mapM (checkSize seqlens.length k) else .ok []
    .ok partitions

/-- `_check_and_sort_partitions` (`seqlen_balancing.py:241-251`). -/
def checkAndSortPartitions (length k : ℕ) (partitions : List (List ℕ)) :
    Except BalanceError (List (List ℕ)) := do
  if partitions.length ≠ k then .error (.partitionCount partitions.length k)
  let sortedPartitions ← partitions.zipIdx.mapM fun p =>
    if 0 < p.1.length then .ok (p.1.insertionSort (· ≤ ·)) else .error (.emptyPartition p.2)
  if (∀ idx ∈ partitions.flatten, idx < length) ∧ ∀ idx < length, idx ∈ partitions.flatten then
    .ok sortedPartitions
  else .error .notCovered

/-- `get_seqlen_balanced_partitions` (`seqlen_balancing.py:213-254`). -/
def getSeqlenBalancedPartitions (seqlens : List ℤ) (k : ℕ) (equalSize : Bool) :
    Except BalanceError (List (List ℕ)) := do
  if seqlens.length < k then .error (.tooFewItems seqlens.length k)
  let partitions ← karmarkarKarp seqlens k equalSize
  checkAndSortPartitions seqlens.length k partitions

/-! ## The final state -/

section FinalState

variable {seqlens : List ℤ} {k : ℕ} {equalSize : Bool}

theorem sortedSeqlenList_perm (seqlens : List ℤ) :
    (sortedSeqlenList seqlens).Perm seqlens.zipIdx := List.perm_insertionSort _ _

theorem initialItems_flatten (hk : 0 < k) (seqlens : List ℤ) (equalSize : Bool) :
    (initialItems seqlens k equalSize).flatten = (sortedSeqlenList seqlens).map Prod.swap := by
  unfold initialItems
  cases equalSize with
  | false =>
    rw [if_neg Bool.false_ne_true, ← List.flatMap_def]
    simp [List.flatMap_singleton']
  | true => rw [if_pos rfl, flatten_chunks hk]

theorem length_of_mem_chunks {α : Type*} {size : ℕ} {xs chunk : List α} (hsize : 0 < size)
    (hdvd : xs.length % size = 0) (hchunk : chunk ∈ chunks size xs) : chunk.length = size := by
  obtain ⟨i, hi, rfl⟩ := List.mem_map.mp hchunk
  obtain ⟨m, hm⟩ := Nat.dvd_of_mod_eq_zero hdvd
  have hlast : (xs.length + size - 1) / size = m := by
    rw [hm, Nat.add_sub_assoc hsize, Nat.mul_add_div hsize, Nat.div_eq_of_lt (by omega),
      Nat.add_zero]
  rw [List.mem_range, hlast] at hi
  have hle : (i + 1) * size ≤ size * m := by
    rw [Nat.mul_comm size m]
    exact Nat.mul_le_mul_right size hi
  rw [Nat.add_mul, Nat.one_mul] at hle
  rw [List.length_take, List.length_drop]
  omega

/-- Every initial state gets one item, or `k` of them for equal sizes. -/
theorem length_of_mem_initialItems (hk : 0 < k)
    (hdvd : equalSize = true → seqlens.length % k = 0) {items : List (ℕ × ℤ)}
    (hitems : items ∈ initialItems seqlens k equalSize) :
    items.length = if equalSize then k else 1 := by
  unfold initialItems at hitems
  cases equalSize with
  | false =>
    obtain ⟨item, -, rfl⟩ := List.mem_map.mp hitems
    rfl
  | true =>
    refine length_of_mem_chunks hk ?_ hitems
    rw [List.length_map, (sortedSeqlenList_perm seqlens).length_eq, List.length_zipIdx]
    exact hdvd rfl

theorem mem_zipIdx_of_mem_initialItems (hk : 0 < k) {items : List (ℕ × ℤ)} {item : ℕ × ℤ}
    (hitems : items ∈ initialItems seqlens k equalSize) (hitem : item ∈ items) :
    item.2 ∈ seqlens := by
  have hmem : item ∈ (sortedSeqlenList seqlens).map Prod.swap := by
    rw [← initialItems_flatten hk seqlens equalSize]
    exact List.mem_flatten_of_mem hitems hitem
  obtain ⟨p, hp, rfl⟩ := List.mem_map.mp hmem
  exact List.fst_mem_of_mem_zipIdx ((sortedSeqlenList_perm seqlens).subset hp)

/-- A state made by `State(items, k)`. -/
def IsInit (items : List (ℕ × ℤ)) (s : KkState k) : Prop :=
  ∃ h, s = KkState.ofSets (KkState.initSets k items) h

theorem initialStates_eq_ok (hk : 0 < k) (hdvd : equalSize = true → seqlens.length % k = 0) :
    ∃ states, initialStates seqlens k equalSize = .ok states ∧
      List.Forall₂ IsInit (initialItems seqlens k equalSize) states := by
  have hnew : ∀ items ∈ initialItems seqlens k equalSize, ∃ s, KkState.new k items = .ok s ∧
      IsInit items s := by
    intro items hitems
    have hlength := length_of_mem_initialItems hk hdvd hitems
    have hle : items.length ≤ k := by rw [hlength]; split_ifs <;> omega
    refine ⟨_, KkState.new_eq_ok ?_ hle, _, rfl⟩
    rw [hlength]
    cases equalSize <;> simp
  unfold initialStates
  rw [if_neg (by rintro ⟨-, rfl⟩; exact absurd hk (lt_irrefl 0)),
    if_neg (by rintro ⟨he, hne⟩; exact hne (hdvd he))]
  cases hstates : (initialItems seqlens k equalSize).mapM (KkState.new k) with
  | error e =>
    obtain ⟨items, hitems, he⟩ := exists_of_mapM_error hstates
    obtain ⟨s, hs, -⟩ := hnew items hitems
    rw [he] at hs
    cases hs
  | ok states =>
    refine ⟨states, rfl, (List.forall₂_iff_get.mpr ?_)⟩
    have hall := of_mapM_ok hstates
    refine ⟨hall.length_eq, fun i hi hi' => ?_⟩
    obtain ⟨s, hs, hinit⟩ := hnew _ (List.get_mem _ ⟨i, hi⟩)
    have hget := hall.get hi hi'
    rw [hs] at hget
    exact Except.ok.inj hget ▸ hinit

theorem flatMap_allItems_perm : ∀ {groups : List (List (ℕ × ℤ))} {states : List (KkState k)},
    List.Forall₂ IsInit groups states → (states.flatMap KkState.allItems).Perm groups.flatten
  | [], [], .nil => .refl _
  | items :: groups, _ :: states, .cons ⟨_, hs⟩ htail => by
    rw [hs, List.flatMap_cons, List.flatten_cons]
    exact KkState.allItems_init_perm.append (flatMap_allItems_perm htail)

/-- What a bound on the distance of two parts is taken from : the range of the items of an initial
state for equal sizes, else the largest item. -/
def GapBound (seqlens : List ℤ) (k : ℕ) (equalSize : Bool) (B : ℤ) : Prop :=
  ∀ items ∈ initialItems seqlens k equalSize,
    if equalSize then ∀ a ∈ items, ∀ b ∈ items, a.2 - b.2 ≤ B else ∀ a ∈ items, a.2 ≤ B

/-- What is known of the state that is left. -/
structure IsFinal (seqlens : List ℤ) (equalSize : Bool) (s : KkState k) : Prop where
  items_perm : s.allItems.Perm (seqlens.zipIdx.map Prod.swap)
  filled : (∀ x ∈ seqlens, 0 ≤ x) → s.Filled
  even : equalSize = true → s.Even
  within : (∀ x ∈ seqlens, 0 ≤ x) → ∀ B, GapBound seqlens k equalSize B → s.Within B

theorem within_of_isInit (hk : 0 < k) (hdvd : equalSize = true → seqlens.length % k = 0) {B : ℤ}
    (hnonneg : ∀ x ∈ seqlens, 0 ≤ x) (hB : GapBound seqlens k equalSize B) {items : List (ℕ × ℤ)}
    (hitems : items ∈ initialItems seqlens k equalSize) {s : KkState k} (hs : IsInit items s) :
    s.Within B := by
  obtain ⟨_, rfl⟩ := hs
  have hlength := length_of_mem_initialItems hk hdvd hitems
  replace hB := hB items hitems
  cases equalSize with
  | false =>
    rw [if_neg Bool.false_ne_true] at hB hlength
    obtain ⟨item, rfl⟩ := List.length_eq_one_iff.mp hlength
    have hitem := List.mem_singleton_self item
    have h0 := hnonneg _ (mem_zipIdx_of_mem_initialItems hk hitems hitem)
    have hle := hB _ hitem
    refine KkState.within_init (fun a ha b hb => ?_) (fun _ a ha => ?_) (h0.trans hle)
    · rw [List.mem_singleton.mp ha, List.mem_singleton.mp hb, sub_self]
      exact h0.trans hle
    · rw [List.mem_singleton.mp ha]
      exact ⟨h0, hle⟩
  | true =>
    rw [if_pos rfl] at hB hlength
    obtain ⟨item, hitem⟩ := List.exists_mem_of_length_pos (hlength ▸ hk)
    have h0 : 0 ≤ B := by
      have := hB item hitem item hitem
      rwa [sub_self] at this
    exact KkState.within_init hB (fun hlt => absurd hlength hlt.ne) h0

/-- The loop leaves one state, with what the initial states have. -/
theorem exists_isFinal (hk : 0 < k) (hne : seqlens ≠ [])
    (hdvd : equalSize = true → seqlens.length % k = 0) :
    ∃ states s, initialStates seqlens k equalSize = .ok states ∧
      mergeHeap KkState.lt KkState.merge (states.foldl heappush []) = [s] ∧
      IsFinal seqlens equalSize s := by
  obtain ⟨states, hstates, hinit⟩ := initialStates_eq_ok hk hdvd
  have hheap : (states.foldl heappush []) = states.reverse := by
    rw [foldl_heappush, List.append_nil]
  have hitems : (states.flatMap KkState.allItems).Perm (seqlens.zipIdx.map Prod.swap) := by
    refine (flatMap_allItems_perm hinit).trans ?_
    rw [initialItems_flatten hk]
    exact (sortedSeqlenList_perm seqlens).map _
  have hstates_ne : states.reverse ≠ [] := by
    rw [Ne, List.reverse_eq_nil_iff]
    rintro rfl
    have hlength := hitems.length_eq
    simp only [List.flatMap_nil, List.length_nil, List.length_map, List.length_zipIdx] at hlength
    exact hne (List.length_eq_zero_iff.mp hlength.symm)
  have hgroup : ∀ s ∈ states.reverse, ∃ items ∈ initialItems seqlens k equalSize,
      IsInit items s := by
    intro s hs
    obtain ⟨i, hi, rfl⟩ := List.mem_iff_getElem.mp (List.mem_reverse.mp hs)
    have hi' : i < (initialItems seqlens k equalSize).length := hinit.length_eq ▸ hi
    exact ⟨_, List.get_mem _ ⟨i, hi'⟩, hinit.get hi' hi⟩
  obtain ⟨s, hs⟩ := @mergeHeap_eq_singleton _ KkState.lt KkState.merge _ hstates_ne
  have hmem : s ∈ mergeHeap KkState.lt KkState.merge states.reverse := by rw [hs]; simp
  refine ⟨states, s, hstates, hheap ▸ hs, ?_, fun hnonneg => ?_, fun heq => ?_,
    fun hnonneg B hB => ?_⟩
  · have hkept := @mergeHeap_flatMap_perm _ _ KkState.lt _ _ KkState.merge_allItems_perm
      states.reverse
    rw [hs, List.flatMap_singleton] at hkept
    exact hkept.trans (((List.reverse_perm states).flatMap_right _).trans hitems)
  · refine mergeHeap_forall (fun x y => KkState.Filled.merge) (fun x hx => ?_) s hmem
    obtain ⟨items, hitems', _, rfl⟩ := hgroup x hx
    exact KkState.filled_init fun item hitem =>
      hnonneg _ (mem_zipIdx_of_mem_initialItems hk hitems' hitem)
  · refine mergeHeap_forall (fun x y => KkState.Even.merge) (fun x hx => ?_) s hmem
    obtain ⟨items, hitems', _, rfl⟩ := hgroup x hx
    refine KkState.even_init ?_
    rw [length_of_mem_initialItems hk hdvd hitems', if_pos heq]
  · refine mergeHeap_forall (fun x y => KkState.Within.merge) (fun x hx => ?_) s hmem
    obtain ⟨items, hitems', hinit'⟩ := hgroup x hx
    exact within_of_isInit hk hdvd hnonneg hB hitems' hinit'

/-! ## The partitions -/

/-- The workload of a part. -/
def load (seqlens : List ℤ) (partition : List ℕ) : ℤ :=
  (partition.map fun idx => seqlens.getD idx 0).sum

/-- Non-empty parts that hold every index once. -/
structure IsPartition (length k : ℕ) (partitions : List (List ℕ)) : Prop where
  length_eq : partitions.length = k
  perm : partitions.flatten.Perm (List.range length)
  ne_nil : ∀ p ∈ partitions, p ≠ []

theorem getPartitions_flatten (s : KkState k) :
    s.getPartitions.flatten = s.allItems.map Prod.fst := by
  unfold KkState.getPartitions KkState.allItems
  rw [← List.flatMap_def, List.map_flatMap]

namespace IsFinal

variable {s : KkState k} (h : IsFinal seqlens equalSize s)

include h

theorem flatten_perm : s.getPartitions.flatten.Perm (List.range seqlens.length) := by
  rw [getPartitions_flatten]
  refine (h.items_perm.map _).trans ?_
  rw [List.map_map, show Prod.fst ∘ Prod.swap = (Prod.snd : ℤ × ℕ → ℕ) from rfl,
    List.zipIdx_map_snd, List.range_eq_range']

theorem length_allItems : s.allItems.length = seqlens.length := by
  rw [h.items_perm.length_eq, List.length_map, List.length_zipIdx]

theorem ne_nil_of_mem (hnonneg : ∀ x ∈ seqlens, 0 ≤ x) (hk : k ≤ seqlens.length) :
    ∀ p ∈ s.getPartitions, p ≠ [] := by
  intro p hp
  obtain ⟨set, hset, rfl⟩ := List.mem_map.mp hp
  have hcount : s.emptyCount = 0 := by
    have hle := (h.filled hnonneg).emptyCount_le
    rw [h.length_allItems] at hle
    omega
  have hfilled := List.countP_eq_zero.mp hcount set hset
  simpa using hfilled

theorem length_mul_of_mem (heq : equalSize = true) :
    ∀ p ∈ s.getPartitions, p.length * k = seqlens.length := by
  obtain ⟨m, hm⟩ := h.even heq
  have htotal : s.allItems.length = k * m := by
    unfold KkState.allItems
    rw [List.length_flatMap, List.map_congr_left hm, List.map_const', List.sum_replicate_nat,
      s.length_sets]
  intro p hp
  obtain ⟨set, hset, rfl⟩ := List.mem_map.mp hp
  rw [List.length_map, hm set hset, ← h.length_allItems, htotal, Nat.mul_comm]

theorem load_eq_sum {set : KkSet} (hset : set ∈ s.sets) :
    load seqlens (set.items.map Prod.fst) = set.sum := by
  unfold load
  rw [set.sum_eq, List.map_map]
  refine congrArg List.sum (List.map_congr_left fun item hitem => ?_)
  have hmem : item ∈ seqlens.zipIdx.map Prod.swap :=
    h.items_perm.subset (List.mem_flatMap.mpr ⟨set, hset, hitem⟩)
  obtain ⟨p, hp, rfl⟩ := List.mem_map.mp hmem
  have hget := List.mem_zipIdx_iff_getElem?.mp hp
  simp [List.getD_eq_getElem?_getD, hget]

/-- The distance of two sorted parts is that of two sets. -/
theorem load_sub_le (hnonneg : ∀ x ∈ seqlens, 0 ≤ x) {B : ℤ}
    (hB : GapBound seqlens k equalSize B) :
    ∀ p ∈ s.getPartitions.map fun p => p.insertionSort (· ≤ ·),
      ∀ q ∈ s.getPartitions.map fun p => p.insertionSort (· ≤ ·),
        load seqlens p - load seqlens q ≤ B := by
  have hset : ∀ p ∈ s.getPartitions.map fun p => p.insertionSort (· ≤ ·),
      ∃ set ∈ s.sets, load seqlens p = set.sum := by
    simp only [KkState.getPartitions, List.map_map, List.forall_mem_map]
    intro set hset
    refine ⟨set, hset, ?_⟩
    rw [← h.load_eq_sum hset]
    exact ((List.perm_insertionSort _ _).map _).sum_eq
  intro p hp q hq
  obtain ⟨x, hx, hxp⟩ := hset p hp
  obtain ⟨y, hy, hyq⟩ := hset q hq
  rw [hxp, hyq]
  exact h.within hnonneg B hB x hx y hy

end IsFinal

/-- The method never fails where it is defined. -/
theorem karmarkarKarp_eq_ok (hk : 0 < k) (hne : seqlens ≠ [])
    (hdvd : equalSize = true → seqlens.length % k = 0) :
    ∃ s : KkState k, karmarkarKarp seqlens k equalSize = .ok s.getPartitions ∧
      IsFinal seqlens equalSize s := by
  obtain ⟨states, s, hstates, hmerge, hfinal⟩ := exists_isFinal hk hne hdvd
  refine ⟨s, ?_, hfinal⟩
  unfold karmarkarKarp
  rw [hstates, ok_bind, hmerge]
  cases heq : equalSize with
  | false => rfl
  | true =>
    have hchecks : s.getPartitions.mapM (checkSize seqlens.length k)
        = .ok (s.getPartitions.map fun _ => ()) :=
      mapM_eq_ok fun p hp => by
        rw [checkSize, if_pos (hfinal.length_mul_of_mem heq p hp)]
    simp only [hchecks, ok_bind, if_pos]

theorem checkAndSortPartitions_eq_ok {length : ℕ} {partitions : List (List ℕ)}
    (h : IsPartition length k partitions) : checkAndSortPartitions length k partitions
      = .ok (partitions.map fun p => p.insertionSort (· ≤ ·)) := by
  have hsort : (partitions.zipIdx.mapM fun p => if 0 < p.1.length then
      Except.ok (p.1.insertionSort (· ≤ ·)) else .error (BalanceError.emptyPartition p.2))
      = .ok (partitions.map fun p => p.insertionSort (· ≤ ·)) := by
    conv_rhs => rw [← List.zipIdx_map_fst 0 partitions, List.map_map]
    refine mapM_eq_ok fun p hp => if_pos (List.length_pos_iff.mpr ?_)
    exact h.ne_nil _ (List.fst_mem_of_mem_zipIdx hp)
  have hcover : (∀ idx ∈ partitions.flatten, idx < length) ∧
      ∀ idx < length, idx ∈ partitions.flatten := by
    simp only [h.perm.mem_iff, List.mem_range]
    exact ⟨fun _ => id, fun _ => id⟩
  unfold checkAndSortPartitions
  rw [if_neg (not_not.mpr h.length_eq), hsort]
  simp only [ok_bind]
  rw [if_pos hcover]

/-- No item can be added to a state without sets, and there is no state without items. -/
theorem karmarkarKarp_ne_ok_zero (seqlens : List ℤ) (equalSize : Bool)
    (partitions : List (List ℕ)) :
    karmarkarKarp seqlens 0 equalSize ≠ .ok partitions := by
  intro h
  obtain ⟨states, hstates, h⟩ := of_bind_ok h
  unfold initialStates at hstates
  cases equalSize with
  | true => simp at hstates
  | false =>
    rw [if_neg (by simp), if_neg (by simp)] at hstates
    cases hitems : initialItems seqlens 0 false with
    | nil =>
      rw [hitems] at hstates
      obtain rfl := Except.ok.inj hstates
      simp [mergeHeap, heappop] at h
    | cons items rest =>
      have hmem : items ∈ initialItems seqlens 0 false := by rw [hitems]; exact List.mem_cons_self
      obtain ⟨s, hs⟩ := exists_ok_of_mapM_ok hstates hmem
      obtain ⟨item, -, rfl⟩ := List.mem_map.mp hmem
      simp [KkState.new] at hs

section Main

/-- What `get_seqlen_balanced_partitions` requires. -/
def Splittable (length k : ℕ) (equalSize : Bool) : Prop :=
  0 < k ∧ k ≤ length ∧ (equalSize = true → length % k = 0)

/-- Where the method is defined its result passes all checks. -/
theorem getSeqlenBalancedPartitions_eq_ok (hnonneg : ∀ x ∈ seqlens, 0 ≤ x)
    (h : Splittable seqlens.length k equalSize) :
    ∃ s : KkState k, getSeqlenBalancedPartitions seqlens k equalSize
        = .ok (s.getPartitions.map fun p => p.insertionSort (· ≤ ·)) ∧
      IsFinal seqlens equalSize s := by
  obtain ⟨hk, hle, hdvd⟩ := h
  have hne : seqlens ≠ [] := List.length_pos_iff.mp (hk.trans_le hle)
  obtain ⟨s, hs, hfinal⟩ := karmarkarKarp_eq_ok hk hne hdvd
  refine ⟨s, ?_, hfinal⟩
  have hpartition : IsPartition seqlens.length k s.getPartitions :=
    ⟨by rw [KkState.getPartitions, List.length_map, s.length_sets], hfinal.flatten_perm,
      hfinal.ne_nil_of_mem hnonneg hle⟩
  unfold getSeqlenBalancedPartitions
  rw [if_neg (not_lt.mpr hle), hs]
  exact checkAndSortPartitions_eq_ok hpartition

theorem splittable_of_ok {partitions : List (List ℕ)}
    (h : getSeqlenBalancedPartitions seqlens k equalSize = .ok partitions) :
    Splittable seqlens.length k equalSize := by
  unfold getSeqlenBalancedPartitions at h
  split_ifs at h with hlt
  · cases h
  obtain ⟨parts, hparts, -⟩ := of_bind_ok h
  have hk : 0 < k := by
    refine Nat.pos_of_ne_zero ?_
    rintro rfl
    exact karmarkarKarp_ne_ok_zero _ _ _ hparts
  refine ⟨hk, not_lt.mp hlt, fun heq => ?_⟩
  obtain ⟨states, hstates, -⟩ := of_bind_ok hparts
  unfold initialStates at hstates
  by_contra hmod
  rw [if_neg (by omega), if_pos ⟨heq, hmod⟩] at hstates
  cases hstates

variable (hnonneg : ∀ x ∈ seqlens, 0 ≤ x)

include hnonneg

/-- The result is the final state's sets, sorted. -/
theorem exists_isFinal_of_ok {partitions : List (List ℕ)}
    (hok : getSeqlenBalancedPartitions seqlens k equalSize = .ok partitions) :
    ∃ s : KkState k, IsFinal seqlens equalSize s ∧
      partitions = s.getPartitions.map fun p => p.insertionSort (· ≤ ·) := by
  obtain ⟨s, hs, hfinal⟩ := getSeqlenBalancedPartitions_eq_ok hnonneg (splittable_of_ok hok)
  exact ⟨s, hfinal, Except.ok.inj (hok.symm.trans hs)⟩

theorem ok_iff_splittable (k : ℕ) (equalSize : Bool) :
    (∃ partitions, getSeqlenBalancedPartitions seqlens k equalSize = .ok partitions) ↔
      Splittable seqlens.length k equalSize := by
  refine ⟨fun ⟨_, h⟩ => splittable_of_ok h, fun h => ?_⟩
  obtain ⟨s, hs, -⟩ := getSeqlenBalancedPartitions_eq_ok hnonneg h
  exact ⟨_, hs⟩

theorem isPartition_of_ok {partitions : List (List ℕ)}
    (hok : getSeqlenBalancedPartitions seqlens k equalSize = .ok partitions) :
    IsPartition seqlens.length k partitions := by
  obtain ⟨s, hfinal, rfl⟩ := exists_isFinal_of_ok hnonneg hok
  refine ⟨?_, ?_, ?_⟩
  · rw [List.length_map, KkState.getPartitions, List.length_map, s.length_sets]
  · refine List.Perm.trans ?_ hfinal.flatten_perm
    rw [← List.flatMap_def]
    exact (List.Perm.flatMap_left _ fun p _ => List.perm_insertionSort _ p).trans (by
      rw [List.flatMap_id'])
  · simp only [List.forall_mem_map]
    intro p hp hnil
    refine hfinal.ne_nil_of_mem hnonneg (splittable_of_ok hok).2.1 p hp ?_
    rw [← List.length_eq_zero_iff, ← List.length_insertionSort (· ≤ ·) p, hnil, List.length_nil]

theorem length_mul_of_ok {partitions : List (List ℕ)}
    (hok : getSeqlenBalancedPartitions seqlens k true = .ok partitions) :
    ∀ p ∈ partitions, p.length * k = seqlens.length := by
  obtain ⟨s, hfinal, rfl⟩ := exists_isFinal_of_ok hnonneg hok
  simp only [List.forall_mem_map, List.length_insertionSort]
  exact hfinal.length_mul_of_mem rfl

/-- On workloads the result is a partition of the indices, and there is one exactly when there are
`k` items to start with. -/
theorem getSeqlenBalancedPartitions_isPartition (k : ℕ) (equalSize : Bool) :
    ((∃ partitions, getSeqlenBalancedPartitions seqlens k equalSize = .ok partitions) ↔
      Splittable seqlens.length k equalSize) ∧
    ∀ partitions, getSeqlenBalancedPartitions seqlens k equalSize = .ok partitions →
      IsPartition seqlens.length k partitions ∧ (∀ p ∈ partitions, p.Pairwise (· < ·)) ∧
        (equalSize = true → ∀ p ∈ partitions, p.length * k = seqlens.length) := by
  refine ⟨ok_iff_splittable hnonneg k equalSize, fun partitions hok => ?_⟩
  refine ⟨isPartition_of_ok hnonneg hok, fun p hp => ?_, fun heq => ?_⟩
  · obtain ⟨s, hfinal, rfl⟩ := exists_isFinal_of_ok hnonneg hok
    obtain ⟨q, hq, rfl⟩ := List.mem_map.mp hp
    have hnodup : q.Nodup := (List.nodup_flatten.mp
      (hfinal.flatten_perm.nodup_iff.mpr List.nodup_range)).1 q hq
    have hsorted := List.pairwise_insertionSort (· ≤ ·) q
    refine (hsorted.and ((List.perm_insertionSort (· ≤ ·) q).nodup_iff.mpr hnodup)).imp ?_
    exact fun h => lt_of_le_of_ne h.1 h.2
  · subst heq
    exact length_mul_of_ok hnonneg hok

/-- No two parts are further apart than the largest workload, or than `k` neighbours of the sorted
workloads when the parts have the same length. -/
theorem getSeqlenBalancedPartitions_load_sub_le {B : ℤ} (hB : GapBound seqlens k equalSize B)
    {partitions : List (List ℕ)}
    (hok : getSeqlenBalancedPartitions seqlens k equalSize = .ok partitions) {p q : List ℕ}
    (hp : p ∈ partitions) (hq : q ∈ partitions) : load seqlens p - load seqlens q ≤ B := by
  obtain ⟨s, hfinal, rfl⟩ := exists_isFinal_of_ok hnonneg hok
  exact hfinal.load_sub_le hnonneg hB p hp q hq

end Main

/-- Six workloads for two ranks. -/
theorem isPartition_six_two :
    getSeqlenBalancedPartitions [8, 7, 6, 5, 4, 1] 2 true = .ok [[1, 3, 4], [0, 2, 5]] ∧
      IsPartition 6 2 [[1, 3, 4], [0, 2, 5]] ∧
      (∀ p ∈ [[1, 3, 4], [0, 2, 5]], p.Pairwise (· < ·)) ∧
      (true = true → ∀ p ∈ [[1, 3, 4], [0, 2, 5]], p.length * 2 = 6) := by
  have hok : getSeqlenBalancedPartitions [8, 7, 6, 5, 4, 1] 2 true
      = .ok [[1, 3, 4], [0, 2, 5]] := by decide +kernel
  exact ⟨hok, (getSeqlenBalancedPartitions_isPartition (by decide) 2 true).2 _ hok⟩

/-- The two smallest are the pair that is furthest apart. -/
theorem load_sub_le_six_two : ∃ partitions,
    getSeqlenBalancedPartitions [8, 7, 6, 5, 4, 1] 2 true = .ok partitions ∧
      ∀ p ∈ partitions, ∀ q ∈ partitions,
        load [8, 7, 6, 5, 4, 1] p - load [8, 7, 6, 5, 4, 1] q ≤ 3 := by
  have hok : getSeqlenBalancedPartitions [8, 7, 6, 5, 4, 1] 2 true
      = .ok [[1, 3, 4], [0, 2, 5]] := by decide +kernel
  refine ⟨_, hok, fun p hp q hq => ?_⟩
  exact getSeqlenBalancedPartitions_load_sub_le (by decide) (by unfold GapBound; decide) hok hp hq

end FinalState

/-! ## `greedy_partition` -/

/-- `for j in range(k_partitions)` : the first part of the least sum. -/
def minIdx (sums : List ℤ) : Option ℕ :=
  (List.range sums.length).foldl (fun min? j =>
    match min? with
    | none => some j
    | some i => if sums.getD j 0 < sums.getD i 0 then some j else some i) none

/-- One item of the loop, on the parts with their sums. -/
def greedyStep (sets : List KkSet) (item : ℤ × ℕ) : Except BalanceError (List KkSet) :=
  match minIdx (sets.map KkSet.sum) with
  | none => .error .indexNone
  | some i => .ok (sets.modify i fun set => set.add item.2 item.1)

/-- `greedy_partition` (`seqlen_balancing.py:175-210`), each entry of `partitions` next to its entry
of `partition_sums`. -/
def greedyPartition (seqlens : List ℤ) (k : ℕ) (equalSize : Bool) :
    Except BalanceError (List (List ℕ)) := do
  let bias := if equalSize then seqlens.sum + 1 else 0
  let sortedSeqlen := seqlens.zipIdx.map fun p => (p.1 + bias, p.2)
  let sets ← sortedSeqlen.foldlM greedyStep (List.replicate k KkSet.empty)
  let partitions := sets.map fun set => set.items.map Prod.fst
  let _ ← if equalSize then partitions.mapM (checkSize seqlens.length k) else .ok []
  .ok partitions

section Greedy

/-- The scan ends at a least entry. -/
theorem minIdx_spec {sums : List ℤ} (hne : sums ≠ []) : ∃ i, minIdx sums = some i ∧
    i < sums.length ∧ ∀ j < sums.length, sums.getD i 0 ≤ sums.getD j 0 := by
  -- After `n` steps the index held is a least one of the first `n`.
  have hscan : ∀ n : ℕ, ∃ i, (List.range (n + 1)).foldl (fun min? j =>
      match min? with
      | none => some j
      | some i => if sums.getD j 0 < sums.getD i 0 then some j else some i) none = some i ∧
      i < n + 1 ∧ ∀ j < n + 1, sums.getD i 0 ≤ sums.getD j 0 := by
    intro n
    induction n with
    | zero => exact ⟨0, rfl, by omega, fun j hj => by rw [Nat.lt_one_iff.mp hj]⟩
    | succ n ih =>
      obtain ⟨i, hi, hlt, hmin⟩ := ih
      rw [List.range_succ, List.foldl_concat, hi]
      by_cases hless : sums.getD (n + 1) 0 < sums.getD i 0
      · refine ⟨n + 1, if_pos hless, by omega, fun j hj => ?_⟩
        rcases Nat.lt_succ_iff_lt_or_eq.mp hj with hj | rfl
        · exact hless.le.trans (hmin j hj)
        · exact le_rfl
      · refine ⟨i, if_neg hless, by omega, fun j hj => ?_⟩
        rcases Nat.lt_succ_iff_lt_or_eq.mp hj with hj | rfl
        · exact hmin j hj
        · exact not_lt.mp hless
  obtain ⟨n, hn⟩ := Nat.exists_eq_succ_of_ne_zero (List.length_pos_iff.mpr hne).ne'
  obtain ⟨i, hi, hlt, hmin⟩ := hscan n
  unfold minIdx
  rw [hn]
  exact ⟨i, hi, hlt, hmin⟩

/-- The item goes to a part of least sum, the other parts stay. -/
theorem greedyStep_eq_ok {sets : List KkSet} (hne : sets ≠ []) (item : ℤ × ℕ) :
    ∃ front set back, sets = front ++ set :: back ∧ (∀ x ∈ sets, set.sum ≤ x.sum) ∧
      greedyStep sets item = .ok (front ++ set.add item.2 item.1 :: back) := by
  obtain ⟨i, hi, hlt, hmin⟩ := @minIdx_spec (sets.map KkSet.sum) (by simpa using hne)
  rw [List.length_map] at hlt
  have hget : ∀ j, (hj : j < sets.length) → (sets.map KkSet.sum).getD j 0 = (sets[j]).sum := by
    intro j hj
    rw [List.getD_eq_getElem _ _ (by simpa using hj), List.getElem_map]
  refine ⟨sets.take i, sets[i], sets.drop (i + 1), ?_, fun x hx => ?_, ?_⟩
  · rw [← List.drop_eq_getElem_cons hlt, List.take_append_drop]
  · obtain ⟨j, hj, rfl⟩ := List.mem_iff_getElem.mp hx
    rw [← hget i hlt, ← hget j hj]
    exact hmin j (by simpa using hj)
  · unfold greedyStep
    rw [hi]
    exact congrArg Except.ok (List.modify_eq_take_cons_drop hlt)

variable {front back sets : List KkSet} {set : KkSet} {item : ℤ × ℕ}

/-- The parts after a step that adds an item to one of least sum. -/
structure IsStep (sets : List KkSet) (item : ℤ × ℕ) (front : List KkSet) (set : KkSet)
    (back : List KkSet) : Prop where
  eq : sets = front ++ set :: back
  least : ∀ x ∈ sets, set.sum ≤ x.sum

namespace IsStep

variable (h : IsStep sets item front set back)

include h

theorem mem_self : set ∈ sets := by rw [h.eq]; simp

/-- A part after the step is the one with the item or was there before. -/
theorem forall_mem {P : KkSet → Prop} (hset : P (set.add item.2 item.1)) (hsets : ∀ x ∈ sets, P x) :
    ∀ x ∈ front ++ set.add item.2 item.1 :: back, P x := by
  intro x hx
  have hmem : ∀ y, y ∈ front ∨ y ∈ back → P y := by
    rintro y hy
    refine hsets y ?_
    rw [h.eq]
    rcases hy with hy | hy <;> simp [hy]
  rcases List.mem_append.mp hx with hx | hx
  · exact hmem x (.inl hx)
  · rcases List.mem_cons.mp hx with rfl | hx
    · exact hset
    · exact hmem x (.inr hx)

theorem flatMap_items_perm : ((front ++ set.add item.2 item.1 :: back).flatMap KkSet.items).Perm
    (sets.flatMap KkSet.items ++ [item.swap]) := by
  rw [h.eq]
  simp only [List.flatMap_append, List.flatMap_cons, KkSet.add_items, List.append_assoc]
  refine List.Perm.append_left _ (List.Perm.append_left _ ?_)
  exact List.perm_append_comm

/-- Adding to the lightest part never widens the distance of two parts. -/
theorem sum_sub_le {B : ℤ} (hitem : 0 ≤ item.1 ∧ item.1 ≤ B)
    (hB : ∀ x ∈ sets, ∀ y ∈ sets, x.sum - y.sum ≤ B) :
    ∀ x ∈ front ++ set.add item.2 item.1 :: back, ∀ y ∈ front ++ set.add item.2 item.1 :: back,
      x.sum - y.sum ≤ B := by
  refine h.forall_mem (h.forall_mem ?_ fun y hy => ?_) fun x hx => h.forall_mem ?_ fun y hy => ?_
  · rw [sub_self]
    exact hitem.1.trans hitem.2
  · have hle := h.least y hy
    rw [KkSet.add_sum]
    linarith
  · have hle := hB x hx set h.mem_self
    rw [KkSet.add_sum]
    linarith
  · exact hB x hx y hy

end IsStep

/-- The bias dominates : a sum tells the number of items, and these differ by at most one. -/
structure Biased (bias total : ℤ) (sets : List KkSet) : Prop where
  le_sum : ∀ x ∈ sets, x.items.length * bias ≤ x.sum
  sum_le : ∀ x ∈ sets, x.sum ≤ x.items.length * bias + total
  length_le : ∀ x ∈ sets, ∀ y ∈ sets, x.items.length ≤ y.items.length + 1

theorem IsStep.biased {bias total : ℤ} (h : IsStep sets item front set back)
    (hb : Biased bias total sets) (htotal : total < bias) (hitem : bias ≤ item.1) :
    Biased bias (total + (item.1 - bias)) (front ++ set.add item.2 item.1 :: back) := by
  have hlen : (set.add item.2 item.1).items.length = set.items.length + 1 := by simp
  have hshort : ∀ y ∈ sets, set.items.length ≤ y.items.length := by
    intro y hy
    have hchain : (set.items.length : ℤ) * bias < (y.items.length + 1) * bias := by
      have h1 := hb.le_sum set h.mem_self
      have h2 := h.least y hy
      have h3 := hb.sum_le y hy
      linarith
    have hbias : 0 < bias := by
      by_contra hneg
      have h1 := hb.le_sum y hy
      have h2 := hb.sum_le y hy
      linarith
    have := lt_of_mul_lt_mul_right hchain hbias.le
    omega
  constructor
  · refine h.forall_mem ?_ hb.le_sum
    have h1 := hb.le_sum set h.mem_self
    rw [hlen, KkSet.add_sum]
    push_cast
    linarith
  · refine h.forall_mem ?_ fun x hx => ?_
    · have h1 := hb.sum_le set h.mem_self
      rw [hlen, KkSet.add_sum]
      push_cast
      linarith
    · linarith [hb.sum_le x hx]
  · refine h.forall_mem (h.forall_mem ?_ fun y hy => ?_) fun x hx => h.forall_mem ?_ fun y hy => ?_
    · omega
    · have := hshort y hy
      omega
    · have := hb.length_le x hx set h.mem_self
      omega
    · exact hb.length_le x hx y hy

/-- What the loop keeps of the items read so far. -/
structure GreedyInv (k : ℕ) (done : List (ℤ × ℕ)) (sets : List KkSet) : Prop where
  length_eq : sets.length = k
  items_perm : (sets.flatMap KkSet.items).Perm (done.map Prod.swap)

/-- The loop returns, and keeps what each step keeps. -/
theorem greedy_run {k : ℕ} {items : List (ℤ × ℕ)} (hk : items ≠ [] → 0 < k)
    (motive : List (ℤ × ℕ) → List KkSet → Prop) (hinit : motive [] (List.replicate k KkSet.empty))
    (hstep : ∀ done item rest sets front set back, items = done ++ item :: rest → motive done sets →
      IsStep sets item front set back →
        motive (done ++ [item]) (front ++ set.add item.2 item.1 :: back)) :
    ∃ sets, items.foldlM greedyStep (List.replicate k KkSet.empty) = .ok sets ∧
      GreedyInv k items sets ∧ motive items sets := by
  refine foldlM_eq_ok (fun done sets => GreedyInv k done sets ∧ motive done sets)
    (fun done item rest sets hitems ⟨hinv, hmotive⟩ => ?_) ⟨⟨by simp, ?_⟩, hinit⟩
  · have hne : sets ≠ [] := List.length_pos_iff.mp (hinv.length_eq ▸ hk (by simp [hitems]))
    obtain ⟨front, set, back, hsets, hleast, hok⟩ := greedyStep_eq_ok hne item
    have h : IsStep sets item front set back := ⟨hsets, hleast⟩
    refine ⟨_, hok, ⟨?_, ?_⟩, hstep done item rest sets front set back hitems hmotive h⟩
    · rw [← hinv.length_eq, hsets]
      simp
    · rw [List.map_append]
      exact h.flatMap_items_perm.trans (hinv.items_perm.append_right _)
  · rw [List.flatMap_replicate, KkSet.empty_items]
    simp

/-- Numbers at most one apart with a sum that is a multiple of their number are equal. -/
theorem eq_of_sum_eq_mul {lengths : List ℕ} {q : ℕ}
    (hclose : ∀ x ∈ lengths, ∀ y ∈ lengths, x ≤ y + 1) (hsum : lengths.sum = lengths.length * q) :
    ∀ x ∈ lengths, x = q := by
  intro x hx
  rcases lt_trichotomy x q with hlt | heq | hgt
  · have hle : ∀ y ∈ lengths, y ≤ q := fun y hy => by have := hclose y hy x hx; omega
    have hsmall := List.sum_lt_sum id (fun _ => q) hle ⟨x, hx, hlt⟩
    rw [List.map_id, List.map_const', List.sum_replicate_nat, hsum] at hsmall
    exact absurd hsmall (lt_irrefl _)
  · exact heq
  · have hge : ∀ y ∈ lengths, q ≤ y := fun y hy => by have := hclose x hx y hy; omega
    have hlarge := List.sum_lt_sum (fun _ => q) id hge ⟨x, hx, hgt⟩
    rw [List.map_id, List.map_const', List.sum_replicate_nat, hsum] at hlarge
    exact absurd hlarge (lt_irrefl _)

variable {seqlens : List ℤ} {k : ℕ}

/-- The items with their biased values. -/
def biasedItems (seqlens : List ℤ) (bias : ℤ) : List (ℤ × ℕ) :=
  seqlens.zipIdx.map fun p => (p.1 + bias, p.2)

theorem map_snd_biasedItems (seqlens : List ℤ) (bias : ℤ) :
    (biasedItems seqlens bias).map Prod.snd = List.range seqlens.length := by
  unfold biasedItems
  rw [List.map_map, show (Prod.snd ∘ fun p : ℤ × ℕ => (p.1 + bias, p.2)) = Prod.snd from rfl,
    List.zipIdx_map_snd, List.range_eq_range']

theorem sum_biasedItems (seqlens : List ℤ) (bias : ℤ) :
    ((biasedItems seqlens bias).map fun item => item.1 - bias).sum = seqlens.sum := by
  unfold biasedItems
  rw [List.map_map]
  conv_rhs => rw [← List.zipIdx_map_fst 0 seqlens]
  exact congrArg List.sum (List.map_congr_left fun p _ => add_sub_cancel_right p.1 bias)

theorem mem_of_mem_biasedItems {bias : ℤ} {item : ℤ × ℕ} (h : item ∈ biasedItems seqlens bias) :
    item.1 - bias ∈ seqlens ∧ seqlens.getD item.2 0 = item.1 - bias := by
  obtain ⟨p, hp, rfl⟩ := List.mem_map.mp h
  rw [add_sub_cancel_right]
  refine ⟨List.fst_mem_of_mem_zipIdx hp, ?_⟩
  rw [List.getD_eq_getElem?_getD, List.mem_zipIdx_iff_getElem?.mp hp]
  rfl

/-- The parts hold every index once. -/
theorem GreedyInv.flatten_perm {bias : ℤ} {sets : List KkSet}
    (h : GreedyInv k (biasedItems seqlens bias) sets) :
    (sets.map fun set => set.items.map Prod.fst).flatten.Perm (List.range seqlens.length) := by
  rw [← List.flatMap_def, ← List.map_flatMap, ← map_snd_biasedItems seqlens bias]
  refine (h.items_perm.map _).trans ?_
  rw [List.map_map]
  exact .refl _

/-- With the bias, no part is more than one item longer than another. -/
theorem greedy_run_biased (hnonneg : ∀ x ∈ seqlens, 0 ≤ x) (hk : seqlens ≠ [] → 0 < k) :
    ∃ sets, (biasedItems seqlens (seqlens.sum + 1)).foldlM greedyStep
        (List.replicate k KkSet.empty) = .ok sets ∧
      GreedyInv k (biasedItems seqlens (seqlens.sum + 1)) sets ∧
      ∀ x ∈ sets, ∀ y ∈ sets, x.items.length ≤ y.items.length + 1 := by
  set bias := seqlens.sum + 1 with hbias
  have hvalue : ∀ item ∈ biasedItems seqlens bias, 0 ≤ item.1 - bias := fun item hitem =>
    hnonneg _ (mem_of_mem_biasedItems hitem).1
  have hrun := @greedy_run k (biasedItems seqlens bias)
    (fun hne => hk (by rintro rfl; exact hne rfl))
    (fun done sets => Biased bias (done.map fun item => item.1 - bias).sum sets)
  obtain ⟨sets, hsets, hinv, hbiased⟩ := hrun (by
    have hempty : ∀ x ∈ List.replicate k KkSet.empty, x = KkSet.empty :=
      fun x hx => List.eq_of_mem_replicate hx
    constructor
    · exact fun x hx => by simp [hempty x hx]
    · exact fun x hx => by simp [hempty x hx]
    · exact fun x hx y hy => by simp [hempty x hx]) (by
    intro done item rest sets front set back hitems hb hstep
    have hsum := sum_biasedItems seqlens bias
    rw [hitems, List.map_append, List.map_cons, List.sum_append, List.sum_cons] at hsum
    have hitem : 0 ≤ item.1 - bias := hvalue item (by rw [hitems]; simp)
    have hrest : 0 ≤ (rest.map fun item => item.1 - bias).sum := by
      refine List.sum_nonneg fun v hv => ?_
      obtain ⟨x, hx, rfl⟩ := List.mem_map.mp hv
      exact hvalue x (by rw [hitems]; simp [hx])
    rw [List.map_append, List.sum_append, List.map_singleton, List.sum_singleton]
    exact hstep.biased hb (by linarith) (by linarith))
  exact ⟨sets, hsets, hinv, hbiased.length_le⟩

/-- Without a bias, no part is further above another than one item. -/
theorem greedy_run_plain (hnonneg : ∀ x ∈ seqlens, 0 ≤ x) (hk : seqlens ≠ [] → 0 < k) :
    ∃ sets, (biasedItems seqlens 0).foldlM greedyStep (List.replicate k KkSet.empty) = .ok sets ∧
      GreedyInv k (biasedItems seqlens 0) sets ∧
      ∀ B, 0 ≤ B → (∀ x ∈ seqlens, x ≤ B) → ∀ x ∈ sets, ∀ y ∈ sets, x.sum - y.sum ≤ B := by
  refine greedy_run (fun hne => hk (by rintro rfl; exact hne rfl))
    (fun _ sets => ∀ B, 0 ≤ B → (∀ x ∈ seqlens, x ≤ B) → ∀ x ∈ sets, ∀ y ∈ sets, x.sum - y.sum ≤ B)
    ?_ ?_
  · intro B hB _ x hx y hy
    rw [List.eq_of_mem_replicate hx, List.eq_of_mem_replicate hy, sub_self]
    exact hB
  · intro done item rest sets front set back hitems hb hstep B hB hle
    have hmem : item ∈ biasedItems seqlens 0 := by rw [hitems]; simp
    have hvalue := (mem_of_mem_biasedItems hmem).1
    rw [sub_zero] at hvalue
    exact hstep.sum_sub_le ⟨hnonneg _ hvalue, hle _ hvalue⟩ (hb B hB hle)

theorem GreedyInv.load_eq {sets : List KkSet} (h : GreedyInv k (biasedItems seqlens 0) sets)
    {set : KkSet} (hset : set ∈ sets) : load seqlens (set.items.map Prod.fst) = set.sum := by
  unfold load
  rw [set.sum_eq, List.map_map]
  refine congrArg List.sum (List.map_congr_left fun item hitem => ?_)
  have hmem := h.items_perm.subset (List.mem_flatMap.mpr ⟨set, hset, hitem⟩)
  obtain ⟨p, hp, rfl⟩ := List.mem_map.mp hmem
  have hget := (mem_of_mem_biasedItems hp).2
  rwa [sub_zero] at hget

theorem GreedyInv.length_mul_eq {sets : List KkSet} {items : List (ℤ × ℕ)}
    (h : GreedyInv k items sets)
    (hclose : ∀ x ∈ sets, ∀ y ∈ sets, x.items.length ≤ y.items.length + 1)
    (hdvd : items.length % k = 0) : ∀ x ∈ sets, x.items.length * k = items.length := by
  obtain ⟨q, hq⟩ := Nat.dvd_of_mod_eq_zero hdvd
  have hsum : (sets.map fun x => x.items.length).sum
      = (sets.map fun x => x.items.length).length * q := by
    have hlength := h.items_perm.length_eq
    rwa [List.length_flatMap, List.length_map, hq, ← h.length_eq,
      ← List.length_map (fun x : KkSet => x.items.length)] at hlength
  intro x hx
  have heq := eq_of_sum_eq_mul (by simpa using hclose) hsum _ (List.mem_map_of_mem hx)
  rw [heq, hq, Nat.mul_comm]

theorem greedyPartition_zero (hne : seqlens ≠ []) (equalSize : Bool) :
    greedyPartition seqlens 0 equalSize = .error .indexNone := by
  obtain ⟨x, xs, rfl⟩ := List.exists_cons_of_ne_nil hne
  rfl

/-- The indices of the parts. -/
def partitionsOf (sets : List KkSet) : List (List ℕ) := sets.map fun set => set.items.map Prod.fst

theorem GreedyInv.length_partitionsOf {items : List (ℤ × ℕ)} {sets : List KkSet}
    (h : GreedyInv k items sets) : (partitionsOf sets).length = k := by
  rw [partitionsOf, List.length_map, h.length_eq]

/-- Equal sizes : the loop returns, and its assertion holds exactly when `k` divides the number of
items. -/
theorem greedyPartition_true (hnonneg : ∀ x ∈ seqlens, 0 ≤ x) (hk : seqlens ≠ [] → 0 < k) :
    ∃ sets, GreedyInv k (biasedItems seqlens (seqlens.sum + 1)) sets ∧
      (seqlens.length % k = 0 ↔ ∀ p ∈ partitionsOf sets, p.length * k = seqlens.length) ∧
      ∀ partitions, greedyPartition seqlens k true = .ok partitions ↔
        seqlens.length % k = 0 ∧ partitions = partitionsOf sets := by
  obtain ⟨sets, hsets, hinv, hclose⟩ := greedy_run_biased hnonneg hk
  have hitems : (biasedItems seqlens (seqlens.sum + 1)).length = seqlens.length := by
    simp [biasedItems]
  have hdvd : seqlens.length % k = 0 ↔
      ∀ p ∈ partitionsOf sets, p.length * k = seqlens.length := by
    constructor
    · intro hmod p hp
      obtain ⟨set, hset, rfl⟩ := List.mem_map.mp hp
      rw [List.length_map, ← hitems]
      exact hinv.length_mul_eq hclose (hitems ▸ hmod) set hset
    · intro hall
      rcases Nat.eq_zero_or_pos k with rfl | hpos
      · rcases eq_or_ne seqlens [] with rfl | hne
        · rfl
        · exact absurd (hk hne) (lt_irrefl 0)
      · obtain ⟨p, hp⟩ := List.exists_mem_of_length_pos (hinv.length_partitionsOf ▸ hpos)
        rw [← hall p hp, Nat.mul_mod_left]
  have hrun : greedyPartition seqlens k true
      = (partitionsOf sets).mapM (checkSize seqlens.length k)
        >>= fun _ => .ok (partitionsOf sets) := by
    change (biasedItems seqlens (seqlens.sum + 1)).foldlM greedyStep (List.replicate k KkSet.empty)
      >>= _ = _
    rw [hsets]
    rfl
  refine ⟨sets, hinv, hdvd, fun partitions => ⟨fun h => ?_, fun ⟨hmod, heq⟩ => ?_⟩⟩
  · rw [hrun] at h
    obtain ⟨checks, hchecks, h⟩ := of_bind_ok h
    refine ⟨hdvd.mpr fun p hp => ?_, (Except.ok.inj h).symm⟩
    have hp' := mapM_checks_ok.mp ⟨checks, hchecks⟩ p hp
    unfold checkSize at hp'
    split_ifs at hp' with hsize
    exact hsize
  · have hchecks : (partitionsOf sets).mapM (checkSize seqlens.length k)
        = .ok ((partitionsOf sets).map fun _ => ()) :=
      mapM_eq_ok fun p hp => if_pos (hdvd.mp hmod p hp)
    rw [hrun, hchecks, heq]
    rfl

/-- Any sizes : the loop's result is returned as it is. -/
theorem greedyPartition_false (hnonneg : ∀ x ∈ seqlens, 0 ≤ x) (hk : seqlens ≠ [] → 0 < k) :
    ∃ sets, GreedyInv k (biasedItems seqlens 0) sets ∧
      greedyPartition seqlens k false = .ok (partitionsOf sets) ∧
      ∀ B, 0 ≤ B → (∀ x ∈ seqlens, x ≤ B) → ∀ x ∈ sets, ∀ y ∈ sets, x.sum - y.sum ≤ B := by
  obtain ⟨sets, hsets, hinv, hgap⟩ := greedy_run_plain hnonneg hk
  refine ⟨sets, hinv, ?_, hgap⟩
  change (biasedItems seqlens 0).foldlM greedyStep (List.replicate k KkSet.empty) >>= _ = _
  rw [hsets]
  rfl

/-- The greedy parts hold every index once. Equal sizes never fail when `k` divides the number of
items; without them no two parts are further apart than the largest workload. -/
theorem greedyPartition_spec (hnonneg : ∀ x ∈ seqlens, 0 ≤ x) (k : ℕ) (equalSize : Bool) :
    ((∃ partitions, greedyPartition seqlens k equalSize = .ok partitions) ↔
      (seqlens ≠ [] → 0 < k) ∧ (equalSize = true → seqlens.length % k = 0)) ∧
    ∀ partitions, greedyPartition seqlens k equalSize = .ok partitions →
      partitions.length = k ∧ partitions.flatten.Perm (List.range seqlens.length) ∧
      (equalSize = true → ∀ p ∈ partitions, p.length * k = seqlens.length) ∧
      (equalSize = false → ∀ B, 0 ≤ B → (∀ x ∈ seqlens, x ≤ B) → ∀ p ∈ partitions,
        ∀ q ∈ partitions, load seqlens p - load seqlens q ≤ B) := by
  by_cases hk : seqlens ≠ [] → 0 < k
  swap
  · obtain ⟨hne, hzero⟩ := Classical.not_imp.mp hk
    obtain rfl : k = 0 := Nat.eq_zero_of_not_pos hzero
    rw [greedyPartition_zero hne]
    simp [hne]
  cases equalSize with
  | true =>
    obtain ⟨sets, hinv, hdvd, hok⟩ := greedyPartition_true hnonneg hk
    refine ⟨⟨fun ⟨_, h⟩ => ⟨hk, fun _ => ((hok _).mp h).1⟩,
      fun h => ⟨_, (hok _).mpr ⟨h.2 rfl, rfl⟩⟩⟩, fun partitions h => ?_⟩
    obtain ⟨hmod, rfl⟩ := (hok partitions).mp h
    exact ⟨hinv.length_partitionsOf, hinv.flatten_perm, fun _ => hdvd.mp hmod, by simp⟩
  | false =>
    obtain ⟨sets, hinv, hok, hgap⟩ := greedyPartition_false hnonneg hk
    rw [hok]
    refine ⟨⟨fun _ => ⟨hk, by simp⟩, fun _ => ⟨_, rfl⟩⟩, ?_⟩
    rintro _ ⟨⟩
    refine ⟨hinv.length_partitionsOf, hinv.flatten_perm, by simp, fun _ B hB hle => ?_⟩
    simp only [partitionsOf, List.forall_mem_map]
    intro x hx y hy
    rw [hinv.load_eq hx, hinv.load_eq hy]
    exact hgap B hB hle x hx y hy

theorem greedyPartition_spec_six_two :
    greedyPartition [8, 7, 6, 5, 4, 1] 2 false = .ok [[0, 3, 4], [1, 2, 5]] ∧
      [[0, 3, 4], [1, 2, 5]].length = 2 ∧
      [[0, 3, 4], [1, 2, 5]].flatten.Perm (List.range 6) ∧
      (false = true → ∀ p ∈ [[0, 3, 4], [1, 2, 5]], p.length * 2 = 6) ∧
      (false = false → ∀ B, 0 ≤ B → (∀ x ∈ [8, 7, 6, 5, 4, 1], x ≤ B) →
        ∀ p ∈ [[0, 3, 4], [1, 2, 5]], ∀ q ∈ [[0, 3, 4], [1, 2, 5]],
          load [8, 7, 6, 5, 4, 1] p - load [8, 7, 6, 5, 4, 1] q ≤ B) := by
  have hok : greedyPartition [8, 7, 6, 5, 4, 1] 2 false = .ok [[0, 3, 4], [1, 2, 5]] := by decide
  exact ⟨hok, (greedyPartition_spec (by decide) 2 false).2 _ hok⟩

end Greedy

end DraftOpd
