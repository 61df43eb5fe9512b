import DraftOpd.Heapq
import DraftOpd.SortedSet
import DraftOpd.TensorOps
import Mathlib.Data.List.Lex
import Mathlib.Data.Prod.Lex
import Mathlib.Tactic.Linarith

/-!
# The largest differencing method

`karmarkar_karp` splits the indices of a list of workloads into `k` sets. A `KkState` holds `k`
sets by decreasing sum. The loop merges the two states with the largest spread, the heaviest set
of one with the lightest of the other, until one state is left.

Each thing the loop keeps is a fact about one merge :

* the items of the merged state are those of the two (`KkState.merge_allItems_perm`);
* two sets of the merged state are no further apart than two sets of one of the parts
  (`KkState.Within.merge`);
* empty sets of one part meet filled ones of the other, so that a state of `m` items has at least
  `min m k` filled sets (`KkState.Filled.merge`);
* equally long sets stay equally long (`KkState.Even.merge`).
-/

namespace DraftOpd

/-! ## The classes `Set` and `State` -/

/-- The errors of `seqlen_balancing.py`. -/
inductive BalanceError where
  /-- `assert len(items) in [1, k]` -/
  | itemsNotIn (items k : ℕ)
  /-- `assert len(seqlen_list) % k_partitions == 0` -/
  | notDivisible (length k : ℕ)
  /-- `assert len(partition) * k_partitions == len(seqlen_list)` -/
  | unequalSize (partition k length : ℕ)
  /-- `assert len(seqlen_list) >= k_partitions` -/
  | tooFewItems (length k : ℕ)
  /-- `assert len(partitions) == k_partitions` -/
  | partitionCount (partitions k : ℕ)
  /-- `assert len(partition) > 0` -/
  | emptyPartition (i : ℕ)
  /-- `assert seen_idx == set(range(len(seqlen_list)))` -/
  | notCovered
  /-- `ZeroDivisionError` -/
  | zeroDivision
  /-- `IndexError` -/
  | indexOutOfRange
  /-- `TypeError` of the list index `None` -/
  | indexNone
deriving DecidableEq, Repr

/-- `Set` : pairs of an index and its value, and the sum of the values
(`seqlen_balancing.py:73-92`). -/
structure KkSet where
  items : List (ℕ × ℤ)
  sum : ℤ
  sum_eq : sum = (items.map Prod.snd).sum
deriving DecidableEq

namespace KkSet

/-- `Set()`. -/
def empty : KkSet := ⟨[], 0, rfl⟩

/-- `Set.add`. -/
def add (s : KkSet) (idx : ℕ) (val : ℤ) : KkSet where
  items := s.items ++ [(idx, val)]
  sum := s.sum + val
  sum_eq := by rw [List.map_append, List.sum_append, ← s.sum_eq]; simp

/-- `Set.merge`. -/
def merge (s other : KkSet) : KkSet :=
  other.items.foldl (fun s item => s.add item.1 item.2) s

/-- `Set.__lt__`. -/
def lt (a b : KkSet) : Bool :=
  if a.sum ≠ b.sum then decide (a.sum < b.sum)
  else if a.items.length ≠ b.items.length then decide (a.items.length < b.items.length)
  else decide (a.items.map toLex < b.items.map toLex)

@[simp] theorem empty_items : empty.items = [] := rfl

@[simp] theorem empty_sum : empty.sum = 0 := rfl

@[simp] theorem add_items (s : KkSet) (idx : ℕ) (val : ℤ) :
    (s.add idx val).items = s.items ++ [(idx, val)] := rfl

@[simp] theorem add_sum (s : KkSet) (idx : ℕ) (val : ℤ) : (s.add idx val).sum = s.sum + val := rfl

@[simp] theorem merge_items (s other : KkSet) : (s.merge other).items = s.items ++ other.items := by
  unfold merge
  induction other.items generalizing s with
  | nil => simp
  | cons item items ih => rw [List.foldl_cons, ih, add_items, List.append_assoc]; rfl

@[simp] theorem merge_sum (s other : KkSet) : (s.merge other).sum = s.sum + other.sum := by
  rw [(s.merge other).sum_eq, merge_items, List.map_append, List.sum_append, ← s.sum_eq,
    ← other.sum_eq]

/-- What `Set.__lt__` compares, in this order. -/
def key (s : KkSet) : ℤ ×ₗ (ℕ ×ₗ List (ℕ ×ₗ ℤ)) :=
  toLex (s.sum, toLex (s.items.length, s.items.map toLex))

theorem lt_iff (a b : KkSet) : a.lt b = true ↔ a.key < b.key := by
  unfold lt key
  rw [Prod.Lex.toLex_lt_toLex, Prod.Lex.toLex_lt_toLex]
  split_ifs with hsum hlen
  · simp [hsum]
  · simp [not_not.mp hsum, hlen]
  · simp [not_not.mp hsum, not_not.mp hlen]

theorem lt_eq_false_iff (a b : KkSet) : a.lt b = false ↔ b.key ≤ a.key := by
  rw [← not_lt, ← lt_iff, Bool.not_eq_true]

/-- Along a descending list the sums go down. -/
theorem sum_le_of_lt_eq_false {a b : KkSet} (h : a.lt b = false) : b.sum ≤ a.sum := by
  rcases Prod.Lex.le_iff.mp ((lt_eq_false_iff a b).mp h) with h | h
  · exact h.le
  · exact h.1.le

theorem length_le_of_lt_eq_false {a b : KkSet} (h : a.lt b = false) (hsum : a.sum = b.sum) :
    b.items.length ≤ a.items.length := by
  rcases Prod.Lex.le_iff.mp ((lt_eq_false_iff a b).mp h) with h | h
  · exact absurd hsum (ne_of_gt h)
  · rcases Prod.Lex.le_iff.mp h.2 with h | h
    · exact h.le
    · exact h.1.le

/-- All values of the items are workloads. -/
def Nonneg (s : KkSet) : Prop := ∀ item ∈ s.items, 0 ≤ item.2

theorem Nonneg.sum_nonneg {s : KkSet} (h : s.Nonneg) : 0 ≤ s.sum := by
  rw [s.sum_eq]
  refine List.sum_nonneg fun v hv => ?_
  obtain ⟨item, hitem, rfl⟩ := List.mem_map.mp hv
  exact h item hitem

theorem Nonneg.merge {s other : KkSet} (hs : s.Nonneg) (hother : other.Nonneg) :
    (s.merge other).Nonneg := by
  intro item hitem
  rw [merge_items, List.mem_append] at hitem
  exact hitem.elim (hs item) (hother item)

/-- An empty set is the last one : what comes after it is empty. -/
theorem items_eq_nil_of_lt_eq_false {a b : KkSet} (h : a.lt b = false) (ha : a.items = [])
    (hb : b.Nonneg) : b.items = [] := by
  have ha0 : a.sum = 0 := by rw [a.sum_eq, ha]; rfl
  have hle := sum_le_of_lt_eq_false h
  have hlen := length_le_of_lt_eq_false h (by linarith [hb.sum_nonneg])
  rw [ha] at hlen
  exact List.length_eq_zero_iff.mp (Nat.le_zero.mp hlen)

/-- The comparison `sorted(…, reverse=True)` sorts by. -/
instance : Std.Total fun a b : KkSet => a.lt b = false :=
  ⟨fun a b => by simpa only [lt_eq_false_iff] using le_total b.key a.key⟩

instance : IsTrans KkSet fun a b => a.lt b = false :=
  ⟨fun a b c => by simpa only [lt_eq_false_iff] using fun hab hbc => le_trans hbc hab⟩

end KkSet

/-- `State` : `k` sets in decreasing order (`seqlen_balancing.py:94-141`). -/
structure KkState (k : ℕ) where
  sets : List KkSet
  length_sets : sets.length = k
  sorted : sets.Pairwise fun a b => a.lt b = false

namespace KkState

variable {k : ℕ}

/-- `sorted(sets, reverse=True)`. -/
def ofSets (sets : List KkSet) (hlength : sets.length = k) : KkState k where
  sets := sets.insertionSort fun a b => a.lt b = false
  length_sets := by rw [List.length_insertionSort, hlength]
  sorted := List.pairwise_insertionSort _ sets

/-- The sets of `State.__init__`, before they are sorted : the first get one item each, the others
stay empty. -/
def initSets (k : ℕ) (items : List (ℕ × ℤ)) : List KkSet :=
  items.map (fun item => KkSet.empty.add item.1 item.2) ++
    List.replicate (k - items.length) KkSet.empty

theorem length_initSets {items : List (ℕ × ℤ)} (h : items.length ≤ k) :
    (initSets k items).length = k := by
  simp [initSets, h]

/-- `State.__init__`. -/
def new (k : ℕ) (items : List (ℕ × ℤ)) : Except BalanceError (KkState k) :=
  if items.length ≠ 1 ∧ items.length ≠ k then .error (.itemsNotIn items.length k)
  else if h : items.length ≤ k then .ok (ofSets (initSets k items) (length_initSets h))
  else .error .indexOutOfRange

/-- `State.get_partitions`. -/
def getPartitions (s : KkState k) : List (List ℕ) :=
  s.sets.map fun set => set.items.map Prod.fst

/-- `State.merge` : `sets[i]` takes the items of `other.sets[k - 1 - i]`. -/
def merge (s other : KkState k) : KkState k :=
  ofSets (List.zipWith KkSet.merge s.sets other.sets.reverse)
    (by simp [s.length_sets, other.length_sets])

/-- `State.spread`. -/
def spread (s : KkState k) : ℤ :=
  (s.sets.headD KkSet.empty).sum - (s.sets.getLastD KkSet.empty).sum

/-- `State.__lt__` : the state with the largest spread is the least. -/
def lt (a b : KkState k) : Bool :=
  if a.spread ≠ b.spread then decide (b.spread < a.spread)
  else (b.sets.headD KkSet.empty).lt (a.sets.headD KkSet.empty)

theorem ofSets_sets_perm (sets : List KkSet) (hlength : sets.length = k) :
    (ofSets sets hlength).sets.Perm sets := List.perm_insertionSort _ sets

@[simp] theorem mem_ofSets {sets : List KkSet} {hlength : sets.length = k} {x : KkSet} :
    x ∈ (ofSets sets hlength).sets ↔ x ∈ sets := (ofSets_sets_perm sets hlength).mem_iff

/-- The items of all sets. -/
def allItems (s : KkState k) : List (ℕ × ℤ) := s.sets.flatMap KkSet.items

/-- The sets of a merged state, before they are sorted. -/
theorem exists_getElem_of_mem_merge {s other : KkState k} {x : KkSet}
    (hx : x ∈ (s.merge other).sets) :
    ∃ (i : ℕ) (hi : i < s.sets.length) (hi' : i < other.sets.reverse.length),
      x = (s.sets[i]).merge (other.sets.reverse[i]) := by
  obtain ⟨i, hi, rfl⟩ := List.mem_iff_getElem.mp (mem_ofSets.mp hx)
  rw [List.length_zipWith] at hi
  exact ⟨i, by omega, by omega, List.getElem_zipWith⟩

theorem forall_mem_merge {P : KkSet → Prop} {s other : KkState k}
    (h : ∀ x ∈ s.sets, ∀ y ∈ other.sets, P (x.merge y)) : ∀ x ∈ (s.merge other).sets, P x := by
  intro x hx
  obtain ⟨i, hi, hi', rfl⟩ := exists_getElem_of_mem_merge hx
  exact h _ (List.getElem_mem hi) _ (List.mem_reverse.mp (List.getElem_mem hi'))

theorem flatMap_zipWith_merge_perm : ∀ {xs ys : List KkSet}, xs.length = ys.length →
    ((List.zipWith KkSet.merge xs ys).flatMap KkSet.items).Perm
      (xs.flatMap KkSet.items ++ ys.flatMap KkSet.items)
  | [], [], _ => by simp
  | x :: xs, y :: ys, h => by
    have ih := flatMap_zipWith_merge_perm (Nat.succ.inj h)
    simp only [List.zipWith_cons_cons, List.flatMap_cons, KkSet.merge_items, List.append_assoc]
    refine List.Perm.append_left x.items ?_
    refine (ih.append_left y.items).trans ?_
    rw [← List.append_assoc, ← List.append_assoc]
    exact List.perm_append_comm.append_right _

/-- The merged state has the items of both. -/
theorem merge_allItems_perm (s other : KkState k) :
    (s.merge other).allItems.Perm (s.allItems ++ other.allItems) := by
  have hlength : s.sets.length = other.sets.reverse.length := by
    rw [List.length_reverse, s.length_sets, other.length_sets]
  calc (s.merge other).allItems.Perm
        ((List.zipWith KkSet.merge s.sets other.sets.reverse).flatMap KkSet.items) :=
        (ofSets_sets_perm _ _).flatMap_right _
    _ |>.Perm (s.sets.flatMap KkSet.items ++ other.sets.reverse.flatMap KkSet.items) :=
        flatMap_zipWith_merge_perm hlength
    _ |>.Perm (s.allItems ++ other.allItems) :=
        ((List.reverse_perm other.sets).flatMap_right _).append_left _

/-! ## The sums of the sets -/

/-- No two sets are further apart than `B`. -/
def Within (B : ℤ) (s : KkState k) : Prop := ∀ x ∈ s.sets, ∀ y ∈ s.sets, x.sum - y.sum ≤ B

theorem sum_antitone (s : KkState k) {i j : ℕ} (hi : i < s.sets.length) (hj : j < s.sets.length)
    (hij : i ≤ j) : (s.sets[j]).sum ≤ (s.sets[i]).sum := by
  rcases hij.eq_or_lt with rfl | hlt
  · exact le_rfl
  · exact KkSet.sum_le_of_lt_eq_false (List.pairwise_iff_getElem.mp s.sorted i j hi hj hlt)

/-- The heaviest set of one part meets the lightest of the other, so a merge never widens the
distance of two sets. -/
theorem Within.merge {B : ℤ} {s other : KkState k} (hs : s.Within B) (hother : other.Within B) :
    (s.merge other).Within B := by
  intro x hx y hy
  obtain ⟨i, hi, hi', rfl⟩ := exists_getElem_of_mem_merge hx
  obtain ⟨j, hj, hj', rfl⟩ := exists_getElem_of_mem_merge hy
  rw [List.length_reverse] at hi' hj'
  simp only [KkSet.merge_sum, List.getElem_reverse]
  have hs' := hs _ (List.getElem_mem hi) _ (List.getElem_mem hj)
  have hother' := hother _ (List.getElem_mem (show other.sets.length - 1 - i < _ by omega))
    _ (List.getElem_mem (show other.sets.length - 1 - j < _ by omega))
  rcases le_total i j with hij | hij
  · have hle := other.sum_antitone (show other.sets.length - 1 - j < _ by omega)
      (show other.sets.length - 1 - i < _ by omega) (by omega)
    linarith
  · have hle := s.sum_antitone hj hi hij
    linarith

/-! ## Filled sets -/

/-- Entries in front of `a` and from `b` on do not count. -/
theorem countP_le_window {α : Type*} {p : α → Bool} {xs : List α} {a b : ℕ}
    (hlow : ∀ (i : ℕ) (h : i < xs.length), i < a → p xs[i] = false)
    (hhigh : ∀ (i : ℕ) (h : i < xs.length), b ≤ i → p xs[i] = false) : xs.countP p ≤ b - a := by
  have hfront : (xs.take a).countP p = 0 := by
    refine List.countP_eq_zero.mpr fun x hx => ?_
    obtain ⟨i, hi, rfl⟩ := List.mem_iff_getElem.mp hx
    rw [List.length_take] at hi
    rw [List.getElem_take, hlow i (by omega) (by omega)]
    exact Bool.false_ne_true
  have hback : ((xs.drop a).drop (b - a)).countP p = 0 := by
    refine List.countP_eq_zero.mpr fun x hx => ?_
    obtain ⟨i, hi, rfl⟩ := List.mem_iff_getElem.mp hx
    rw [List.length_drop, List.length_drop] at hi
    rw [List.getElem_drop, List.getElem_drop, hhigh _ (by omega) (by omega)]
    exact Bool.false_ne_true
  calc xs.countP p
      = (xs.take a).countP p + (((xs.drop a).take (b - a)).countP p
          + ((xs.drop a).drop (b - a)).countP p) := by
        rw [← List.countP_append, ← List.countP_append, List.take_append_drop,
          List.take_append_drop]
    _ = ((xs.drop a).take (b - a)).countP p := by rw [hfront, hback, Nat.zero_add, Nat.add_zero]
    _ ≤ b - a := List.countP_le_length.trans (List.length_take_le _ _)

/-- The number of empty sets. -/
def emptyCount (s : KkState k) : ℕ := s.sets.countP fun x => x.items.isEmpty

/-- The values are workloads, and no set is empty that another item could have filled. -/
structure Filled (s : KkState k) : Prop where
  nonneg : ∀ x ∈ s.sets, x.Nonneg
  emptyCount_le : s.emptyCount ≤ k - s.allItems.length

/-- The empty sets are the last ones. -/
theorem isEmpty_eq_false {s : KkState k} (hnonneg : ∀ x ∈ s.sets, x.Nonneg) {i : ℕ}
    (hi : i < s.sets.length) (hcount : i + s.emptyCount < k) :
    (s.sets[i]).items.isEmpty = false := by
  by_contra hempty
  rw [Bool.not_eq_false, List.isEmpty_iff] at hempty
  have hall : ∀ x ∈ s.sets.drop i, x.items.isEmpty = true := by
    intro x hx
    obtain ⟨j, hj, rfl⟩ := List.mem_iff_getElem.mp hx
    rw [List.length_drop] at hj
    rw [List.getElem_drop, List.isEmpty_iff]
    rcases Nat.eq_zero_or_pos j with rfl | hpos
    · exact hempty
    · have hsorted := List.pairwise_iff_getElem.mp s.sorted i (i + j) hi (by omega) (by omega)
      exact KkSet.items_eq_nil_of_lt_eq_false hsorted hempty (hnonneg _ (List.getElem_mem _))
  have hdrop : (s.sets.drop i).countP (fun x => x.items.isEmpty) = k - i := by
    rw [List.countP_eq_length.mpr hall, List.length_drop, s.length_sets]
  have hle : (s.sets.drop i).countP (fun x => x.items.isEmpty) ≤ s.emptyCount :=
    (List.drop_sublist i s.sets).countP_le
  rw [s.length_sets] at hi
  omega

/-- An empty set of one part meets a filled set of the other, as far as there are filled ones. -/
theorem Filled.merge {s other : KkState k} (hs : s.Filled) (hother : other.Filled) :
    (s.merge other).Filled := by
  refine ⟨forall_mem_merge fun x hx y hy => (hs.nonneg x hx).merge (hother.nonneg y hy), ?_⟩
  have hitems : (s.merge other).allItems.length = s.allItems.length + other.allItems.length := by
    rw [(s.merge_allItems_perm other).length_eq, List.length_append]
  have hcount : (s.merge other).emptyCount ≤ other.emptyCount - (k - s.emptyCount) := by
    unfold emptyCount KkState.merge
    rw [(ofSets_sets_perm _ _).countP_eq]
    refine countP_le_window (fun i hi hlow => ?_) fun i hi hhigh => ?_
    · rw [List.length_zipWith, s.length_sets] at hi
      have hfilled := isEmpty_eq_false hs.nonneg (show i < s.sets.length by
        rw [s.length_sets]; omega) (by unfold emptyCount; omega)
      rw [List.isEmpty_eq_false_iff] at hfilled ⊢
      rw [List.getElem_zipWith, KkSet.merge_items]
      exact List.append_ne_nil_of_left_ne_nil hfilled _
    · rw [List.length_zipWith, List.length_reverse, other.length_sets] at hi
      have hfilled := isEmpty_eq_false hother.nonneg
        (show other.sets.length - 1 - i < other.sets.length by rw [other.length_sets]; omega)
        (by rw [other.length_sets]; unfold emptyCount; omega)
      rw [List.isEmpty_eq_false_iff] at hfilled ⊢
      rw [List.getElem_zipWith, KkSet.merge_items, List.getElem_reverse]
      exact List.append_ne_nil_of_right_ne_nil _ hfilled
  have hs' := hs.emptyCount_le
  have hother' := hother.emptyCount_le
  omega

/-- All sets have the same number of items. -/
def Even (s : KkState k) : Prop := ∃ m, ∀ x ∈ s.sets, x.items.length = m

theorem Even.merge {s other : KkState k} (hs : s.Even) (hother : other.Even) :
    (s.merge other).Even := by
  obtain ⟨m, hm⟩ := hs
  obtain ⟨m', hm'⟩ := hother
  refine ⟨m + m', forall_mem_merge fun x hx y hy => ?_⟩
  rw [KkSet.merge_items, List.length_append, hm x hx, hm' y hy]

/-! ## New states -/

theorem new_eq_ok {items : List (ℕ × ℤ)} (hassert : items.length = 1 ∨ items.length = k)
    (h : items.length ≤ k) : new k items = .ok (ofSets (initSets k items) (length_initSets h)) := by
  unfold new
  rw [if_neg (by tauto), dif_pos h]

theorem mem_initSets {items : List (ℕ × ℤ)} {x : KkSet} (hx : x ∈ initSets k items) :
    (∃ item ∈ items, x = KkSet.empty.add item.1 item.2) ∨ (items.length < k ∧ x = KkSet.empty) := by
  rcases List.mem_append.mp hx with hx | hx
  · obtain ⟨item, hitem, rfl⟩ := List.mem_map.mp hx
    exact .inl ⟨item, hitem, rfl⟩
  · obtain ⟨hne, rfl⟩ := List.mem_replicate.mp hx
    exact .inr ⟨by omega, rfl⟩

variable {items : List (ℕ × ℤ)} {h : (initSets k items).length = k}

theorem allItems_init_perm : (ofSets (initSets k items) h).allItems.Perm items := by
  refine ((ofSets_sets_perm _ _).flatMap_right _).trans ?_
  unfold initSets
  rw [List.flatMap_append, List.flatMap_map]
  simp [List.flatMap_replicate, KkSet.empty_items]

theorem filled_init (hnonneg : ∀ item ∈ items, 0 ≤ item.2) :
    (ofSets (initSets k items) h).Filled := by
  constructor
  · intro x hx
    rcases mem_initSets (mem_ofSets.mp hx) with ⟨item, hitem, rfl⟩ | ⟨-, rfl⟩
    · intro v hv
      obtain rfl : v = item := by simpa using hv
      exact hnonneg _ hitem
    · intro v hv
      simp at hv
  · rw [allItems_init_perm.length_eq, emptyCount, (ofSets_sets_perm _ _).countP_eq, initSets,
      List.countP_append, List.countP_map]
    have hfront : items.countP ((fun x : KkSet => x.items.isEmpty) ∘
        fun item => KkSet.empty.add item.1 item.2) = 0 := List.countP_eq_zero.mpr (by simp)
    rw [hfront, Nat.zero_add]
    exact List.countP_le_length.trans (by simp)

theorem even_init (hlength : items.length = k) : (ofSets (initSets k items) h).Even := by
  refine ⟨1, fun x hx => ?_⟩
  rcases mem_initSets (mem_ofSets.mp hx) with ⟨item, hitem, rfl⟩ | ⟨hlt, -⟩
  · rfl
  · exact absurd hlength hlt.ne

theorem within_init {B : ℤ} (hitems : ∀ a ∈ items, ∀ b ∈ items, a.2 - b.2 ≤ B)
    (hempty : items.length < k → ∀ a ∈ items, 0 ≤ a.2 ∧ a.2 ≤ B) (hB : 0 ≤ B) :
    (ofSets (initSets k items) h).Within B := by
  intro x hx y hy
  rcases mem_initSets (mem_ofSets.mp hx) with ⟨a, ha, rfl⟩ | ⟨hlt, rfl⟩ <;>
    rcases mem_initSets (mem_ofSets.mp hy) with ⟨b, hb, rfl⟩ | ⟨hlt', rfl⟩
  · simpa using hitems a ha b hb
  · simpa using (hempty hlt' a ha).2
  · have hb' := (hempty hlt b hb).1
    simp only [KkSet.empty_sum, KkSet.add_sum]
    linarith
  · simpa using hB

end KkState

end DraftOpd
