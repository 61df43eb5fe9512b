import DraftOpd.StopFold
import Mathlib.Algebra.GroupWithZero.Nat
import Mathlib.Algebra.Ring.Int.Defs
import Mathlib.Data.List.Sort
import Mathlib.Data.List.GetD
import Mathlib.Data.Finset.Dedup
import Mathlib.Algebra.Order.BigOperators.Group.List

/-!
# Sorted sets, gaps, ranges, and loops that may fail

`sortedSet` is the list of the distinct values of a list in increasing order. A strictly
increasing list with the same members is that list (`sortedSet_eq`).

`pairs a l` are the consecutive pairs of `a :: l`. Of an increasing list each pair has a
positive gap (`lt_of_mem_pairs`) and the gaps add up to the distance of the ends
(`sum_gaps`).

`intRange a b` are the integers from `a` up to `b`.

`forRange n body` collects what a body that may fail returns for each index below `n`.
-/

namespace DraftOpd

section Ends

variable {α : Type*}

theorem headD_mem {xs : List α} (h : xs ≠ []) (d : α) : xs.headD d ∈ xs := by
  obtain ⟨x, rest, rfl⟩ := List.exists_cons_of_ne_nil h
  exact List.mem_cons_self

theorem getLastD_mem {xs : List α} (h : xs ≠ []) (d : α) : xs.getLastD d ∈ xs := by
  rw [List.getLastD_eq_getLast?, List.getLast?_eq_some_getLast h]
  exact List.getLast_mem h

end Ends

section SortedSet

variable {α : Type*} [LinearOrder α]

/-- `sorted(set(xs))`. -/
def sortedSet (xs : List α) : List α := xs.dedup.insertionSort (· ≤ ·)

@[simp] theorem mem_sortedSet {x : α} {xs : List α} : x ∈ sortedSet xs ↔ x ∈ xs := by
  unfold sortedSet
  rw [List.mem_insertionSort, List.mem_dedup]

theorem nodup_sortedSet (xs : List α) : (sortedSet xs).Nodup :=
  (List.perm_insertionSort _ _).nodup_iff.mpr (List.nodup_dedup xs)

theorem pairwise_sortedSet (xs : List α) : (sortedSet xs).Pairwise (· < ·) := by
  have hle : (sortedSet xs).Pairwise (· ≤ ·) := List.pairwise_insertionSort _ _
  exact (hle.and (nodup_sortedSet xs)).imp fun h => lt_of_le_of_ne h.1 h.2

/-- The sorted set is the only increasing list with the members. -/
theorem sortedSet_eq {xs ys : List α} (hys : ys.Pairwise (· < ·))
    (hmem : ∀ x, x ∈ xs ↔ x ∈ ys) : sortedSet xs = ys := by
  have hnodup : ys.Nodup := hys.imp fun h => ne_of_lt h
  have hperm : (sortedSet xs).Perm ys :=
    (List.perm_ext_iff_of_nodup (nodup_sortedSet xs) hnodup).mpr fun x => by
      rw [mem_sortedSet, hmem]
  exact List.Perm.eq_of_pairwise' ((pairwise_sortedSet xs).imp le_of_lt) (hys.imp le_of_lt) hperm

theorem sortedSet_eq_nil {xs : List α} : sortedSet xs = [] ↔ xs = [] := by
  simp only [List.eq_nil_iff_forall_not_mem, mem_sortedSet]

/-- The head of an increasing list is its least member. -/
theorem headD_le_of_pairwise {xs : List α} (h : xs.Pairwise (· < ·)) {x : α} (hx : x ∈ xs) (d : α) :
    xs.headD d ≤ x := by
  cases h with
  | nil => simp at hx
  | cons hlt _ =>
    rcases List.mem_cons.mp hx with rfl | hmem
    · exact le_rfl
    · exact (hlt x hmem).le

/-- The last of an increasing list is its greatest member. -/
theorem le_getLastD_of_pairwise {xs : List α} (h : xs.Pairwise (· < ·)) {x : α} (hx : x ∈ xs)
    (d : α) : x ≤ xs.getLastD d := by
  have hne := List.ne_nil_of_mem hx
  rw [List.getLastD_eq_getLast?, List.getLast?_eq_some_getLast hne, Option.getD_some]
  rw [← List.dropLast_append_getLast hne] at h hx
  rcases List.mem_append.mp hx with hx | hx
  · exact ((List.pairwise_append.mp h).2.2 x hx _ (List.mem_singleton_self _)).le
  · exact (List.mem_singleton.mp hx).le

/-- Sorting by a key gives the only list of the members in which the key increases. -/
theorem insertionSort_key_eq {β : Type*} {key : β → α} {xs ys : List β} (hperm : xs.Perm ys)
    (hys : ys.Pairwise fun a b => key a < key b) :
    xs.insertionSort (fun a b => key a ≤ key b) = ys := by
  have htotal : Std.Total fun a b : β => key a ≤ key b := ⟨fun a b => le_total (key a) (key b)⟩
  have htrans : IsTrans β fun a b => key a ≤ key b := ⟨fun _ _ _ => le_trans⟩
  have hkeys : (ys.map key).Nodup := List.pairwise_map.mpr (hys.imp fun h => ne_of_lt h)
  have hsort := List.perm_insertionSort (fun a b => key a ≤ key b) xs
  refine List.Perm.eq_of_pairwise (fun a b ha hb hab hba => ?_)
    (List.pairwise_insertionSort _ xs) (hys.imp le_of_lt) (hsort.trans hperm)
  exact List.inj_on_of_nodup_map hkeys (hperm.subset (hsort.subset ha)) hb (le_antisymm hab hba)

end SortedSet

section Pairs

variable {α : Type*}

/-- The consecutive pairs of `a :: l`. -/
def pairs (a : α) (l : List α) : List (α × α) := (a :: l).zip l

@[simp] theorem pairs_nil (a : α) : pairs a [] = [] := rfl

@[simp] theorem pairs_cons (a b : α) (l : List α) : pairs a (b :: l) = (a, b) :: pairs b l := rfl

theorem map_fst_pairs : ∀ (a : α) (l : List α), (pairs a l).map Prod.fst = (a :: l).dropLast
  | _, [] => rfl
  | a, b :: l => by
    rw [pairs_cons, List.map_cons, map_fst_pairs b l]
    rfl

theorem map_snd_pairs : ∀ (a : α) (l : List α), (pairs a l).map Prod.snd = l
  | _, [] => rfl
  | _, b :: l => by rw [pairs_cons, List.map_cons, map_snd_pairs b l]

theorem lt_of_mem_pairs [Preorder α] : ∀ {a : α} {l : List α}, (a :: l).Pairwise (· < ·) →
    ∀ {p : α × α}, p ∈ pairs a l → p.1 < p.2
  | a, b :: l, h, p, hp => by
    rcases List.mem_cons.mp hp with rfl | hp
    · exact List.rel_of_pairwise_cons h List.mem_cons_self
    · exact lt_of_mem_pairs h.of_cons hp

/-- The pairs of an increasing list lie one after the other. -/
theorem pairwise_pairs [Preorder α] : ∀ {a : α} {l : List α}, (a :: l).Pairwise (· < ·) →
    (pairs a l).Pairwise fun p q => p.2 ≤ q.1
  | _, [], _ => List.Pairwise.nil
  | a, b :: l, h => by
    refine List.pairwise_cons.mpr ⟨fun q hq => ?_, pairwise_pairs h.of_cons⟩
    have hmem : q.1 ∈ (b :: l).dropLast := by
      rw [← map_fst_pairs]
      exact List.mem_map_of_mem hq
    rcases List.mem_cons.mp (List.dropLast_subset _ hmem) with heq | hlt
    · exact heq.ge
    · exact (List.rel_of_pairwise_cons h.of_cons hlt).le

/-- The gaps of a list add up to the distance of its ends. -/
theorem sum_gaps : ∀ (a : ℤ) (l : List ℤ),
    ((pairs a l).map fun p => p.2 - p.1).sum = l.getLastD a - a
  | a, [] => by simp
  | a, b :: l => by
    rw [pairs_cons, List.map_cons, List.sum_cons, sum_gaps b l, List.getLastD_cons]
    omega

end Pairs

section Ranges

/-- `list(range(a, b))`. -/
def intRange (a b : ℤ) : List ℤ := (List.range (b - a).toNat).map fun i : ℕ => a + (i : ℤ)

theorem mem_intRange {a b x : ℤ} : x ∈ intRange a b ↔ a ≤ x ∧ x < b := by
  simp only [intRange, List.mem_map, List.mem_range]
  constructor
  · rintro ⟨i, hi, rfl⟩
    omega
  · intro h
    exact ⟨(x - a).toNat, by omega, by omega⟩

theorem pairwise_intRange (a b : ℤ) : (intRange a b).Pairwise (· < ·) :=
  List.pairwise_map.mpr (List.pairwise_lt_range.imp fun h => by omega)

theorem intRange_append {a b c : ℤ} (hab : a ≤ b) (hbc : b ≤ c) :
    intRange a b ++ intRange b c = intRange a c := by
  have hlen : (c - a).toNat = (b - a).toNat + (c - b).toNat := by omega
  simp only [intRange, hlen, List.range_add, List.map_append, List.map_map]
  refine congrArg _ (List.map_congr_left fun i _ => ?_)
  simp only [Function.comp_apply]
  omega

theorem intRange_eq_cons {a b : ℤ} (h : a < b) : intRange a b = a :: intRange (a + 1) b := by
  have hone : intRange a (a + 1) = [a] := by simp [intRange]
  rw [← intRange_append (by omega : a ≤ a + 1) (by omega), hone]
  rfl

theorem intRange_eq_concat {a b : ℤ} (h : a < b) :
    intRange a b = intRange a (b - 1) ++ [b - 1] := by
  have hone : intRange (b - 1) b = [b - 1] := by
    simp [intRange]
  rw [← intRange_append (by omega : a ≤ b - 1) (by omega), hone]

end Ranges

section Loops

variable {ε β : Type*}

/-- What a body that may fail returns for every index below `n`. -/
def forRange (n : ℕ) (body : ℕ → Except ε β) : Except ε (List β) := (List.range n).mapM body

theorem mapM_eq_ok {α : Type*} {f : α → Except ε β} {g : α → β} :
    ∀ {xs : List α}, (∀ x ∈ xs, f x = .ok (g x)) → xs.mapM f = .ok (xs.map g)
  | [], _ => rfl
  | x :: xs, h => by
    rw [List.mapM_cons, h x List.mem_cons_self,
      mapM_eq_ok fun y hy => h y (List.mem_cons_of_mem _ hy)]
    rfl

theorem forRange_eq_ok {n : ℕ} {body : ℕ → Except ε β} {g : ℕ → β}
    (h : ∀ i < n, body i = .ok (g i)) : forRange n body = .ok ((List.range n).map g) :=
  mapM_eq_ok fun i hi => h i (List.mem_range.mp hi)

theorem of_mapM_ok {α : Type*} {f : α → Except ε β} :
    ∀ {xs : List α} {ys : List β}, xs.mapM f = .ok ys → List.Forall₂ (fun x y => f x = .ok y) xs ys
  | [], ys, h => by
    obtain rfl := Except.ok.inj h
    exact .nil
  | x :: xs, ys, h => by
    rw [List.mapM_cons] at h
    obtain ⟨y, hx, h⟩ := of_bind_ok h
    obtain ⟨zs, hxs, h⟩ := of_bind_ok h
    obtain rfl := Except.ok.inj h
    exact .cons hx (of_mapM_ok hxs)

theorem exists_ok_of_mapM_ok {α : Type*} {f : α → Except ε β} {xs : List α} {ys : List β}
    (h : xs.mapM f = .ok ys) {x : α} (hx : x ∈ xs) : ∃ y, f x = .ok y := by
  obtain ⟨i, hi, rfl⟩ := List.getElem_of_mem hx
  have hall := of_mapM_ok h
  exact ⟨_, hall.get hi (hall.length_eq ▸ hi)⟩

/-- What each result is known to have, all results have. -/
theorem map_of_mapM_ok {α γ : Type*} {f : α → Except ε β} {xs : List α} {ys : List β}
    {g : α → γ} {k : β → γ} (h : xs.mapM f = .ok ys)
    (hg : ∀ x ∈ xs, ∀ y, f x = .ok y → k y = g x) : ys.map k = xs.map g := by
  have hall := of_mapM_ok h
  refine List.ext_getElem (by simp [hall.length_eq]) fun i hi₁ hi₂ => ?_
  rw [List.getElem_map, List.getElem_map]
  exact hg _ (List.getElem_mem _) _ (hall.get (by simpa using hi₂) (by simpa using hi₁))

theorem of_forRange_ok {n : ℕ} {body : ℕ → Except ε β} {ys : List β}
    (h : forRange n body = .ok ys) (d : β) :
    ys.length = n ∧ ∀ i < n, body i = .ok (ys.getD i d) := by
  have hall := of_mapM_ok h
  have hlen : ys.length = n := by rw [← hall.length_eq, List.length_range]
  refine ⟨hlen, fun i hi => ?_⟩
  have hget := hall.get (i := i) (by simpa using hi) (by omega)
  rw [List.getD_eq_getElem _ _ (by omega)]
  simpa using hget

/-- A list of checks passes when each of them does. -/
theorem mapM_checks_ok {α : Type*} {f : α → Except ε Unit} {xs : List α} :
    (∃ ys, xs.mapM f = .ok ys) ↔ ∀ x ∈ xs, f x = .ok () := by
  constructor
  · rintro ⟨ys, h⟩ x hx
    obtain ⟨y, hy⟩ := exists_ok_of_mapM_ok h hx
    exact hy
  · exact fun h => ⟨_, mapM_eq_ok h⟩

/-- An error of a loop is the error of one of its steps. -/
theorem exists_of_mapM_error {α : Type*} {f : α → Except ε β} {e : ε} :
    ∀ {xs : List α}, xs.mapM f = .error e → ∃ x ∈ xs, f x = .error e
  | [], h => by cases h
  | x :: xs, h => by
    rw [List.mapM_cons] at h
    cases hx : f x with
    | error e' =>
      rw [hx] at h
      obtain rfl : e' = e := Except.error.inj h
      exact ⟨x, List.mem_cons_self, hx⟩
    | ok y =>
      rw [hx] at h
      cases hxs : xs.mapM f with
      | error e' =>
        rw [hxs] at h
        obtain rfl : e' = e := Except.error.inj h
        obtain ⟨z, hz, he⟩ := exists_of_mapM_error hxs
        exact ⟨z, List.mem_cons_of_mem _ hz, he⟩
      | ok ys =>
        rw [hxs] at h
        cases h

theorem exists_of_foldlM_error {α : Type*} {f : β → α → Except ε β} {e : ε} :
    ∀ {xs : List α} {acc : β}, xs.foldlM f acc = .error e → ∃ acc', ∃ x ∈ xs, f acc' x = .error e
  | [], acc, h => by cases h
  | x :: xs, acc, h => by
    rw [List.foldlM_cons] at h
    cases hx : f acc x with
    | error e' =>
      rw [hx] at h
      exact ⟨acc, x, List.mem_cons_self, hx.trans h⟩
    | ok acc' =>
      rw [hx] at h
      obtain ⟨acc'', z, hz, he⟩ := exists_of_foldlM_error h
      exact ⟨acc'', z, List.mem_cons_of_mem _ hz, he⟩

/-- A loop whose step keeps an invariant of what it has read returns with it. -/
theorem foldlM_eq_ok {α : Type*} {f : β → α → Except ε β} (motive : List α → β → Prop)
    {xs : List α} (hstep : ∀ done x rest acc, xs = done ++ x :: rest → motive done acc →
      ∃ acc', f acc x = .ok acc' ∧ motive (done ++ [x]) acc') {acc : β} (hinit : motive [] acc) :
    ∃ acc', xs.foldlM f acc = .ok acc' ∧ motive xs acc' := by
  have hrun : ∀ (rest done : List α) (acc : β), xs = done ++ rest → motive done acc →
      ∃ acc', rest.foldlM f acc = .ok acc' ∧ motive xs acc' := by
    intro rest
    induction rest with
    | nil => exact fun done acc hxs h => ⟨acc, rfl, by rwa [hxs, List.append_nil]⟩
    | cons x rest ih =>
      intro done acc hxs h
      obtain ⟨acc', hacc', h'⟩ := hstep done x rest acc hxs h
      obtain ⟨acc'', hrest, h''⟩ := ih (done ++ [x]) acc' (by rw [hxs, List.append_assoc]; rfl) h'
      refine ⟨acc'', ?_, h''⟩
      rw [List.foldlM_cons, hacc']
      exact hrest
  exact hrun xs [] acc rfl hinit

/-- What a loop that returned has kept. -/
theorem of_foldlM_ok {α : Type*} {f : β → α → Except ε β} (motive : List α → β → Prop)
    {xs : List α} (hstep : ∀ done x rest acc acc', xs = done ++ x :: rest → motive done acc →
      f acc x = .ok acc' → motive (done ++ [x]) acc') {acc acc' : β} (hinit : motive [] acc)
    (h : xs.foldlM f acc = .ok acc') : motive xs acc' := by
  have hrun : ∀ (rest done : List α) (acc : β), xs = done ++ rest → motive done acc →
      rest.foldlM f acc = .ok acc' → motive xs acc' := by
    intro rest
    induction rest with
    | nil =>
      intro done acc hxs hdone h
      obtain rfl := Except.ok.inj h
      rwa [hxs, List.append_nil]
    | cons x rest ih =>
      intro done acc hxs hdone h
      rw [List.foldlM_cons] at h
      cases hx : f acc x with
      | error e => rw [hx] at h; cases h
      | ok acc₁ =>
        rw [hx] at h
        exact ih (done ++ [x]) acc₁ (by rw [hxs, List.append_assoc]; rfl)
          (hstep done x rest acc acc₁ hxs hdone hx) h
  exact hrun xs [] acc rfl hinit h

theorem getD_map_range (f : ℕ → β) {n i : ℕ} (hi : i < n) (d : β) :
    ((List.range n).map f).getD i d = f i := by
  rw [List.getD_eq_getElem _ _ (by simpa using hi), List.getElem_map, List.getElem_range]

/-- A loop over the indices of a list that reads the list is one over the list. -/
theorem map_range_getD {α : Type*} (xs : List α) (d : α) (f : α → β) :
    ((List.range xs.length).map fun i => f (xs.getD i d)) = xs.map f := by
  refine List.ext_getElem (by simp) fun i h₁ h₂ => ?_
  have hi : i < xs.length := by simpa using h₂
  simp [hi]

end Loops

end DraftOpd
