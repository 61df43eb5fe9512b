import Mathlib.Data.List.Perm.Basic

/-!
# Heaps

Python's `heapq` as the contents of the heap. `heappop` takes out an item no other is below
(`heappop_perm`, `heappop_least`).

`mergeHeap` is the loop that pops two items and pushes them back as one, until a single item is
left (`mergeHeap_eq_singleton`). What the merge of two items preserves holds of that item
(`mergeHeap_forall`), and what the merge of two items holds together is kept
(`mergeHeap_flatMap_perm`).
-/

namespace DraftOpd

variable {α β : Type*}

/-- `heapq.heappush`. -/
def heappush (heap : List α) (x : α) : List α := x :: heap

@[simp] theorem foldl_heappush (xs heap : List α) :
    xs.foldl heappush heap = xs.reverse ++ heap := by
  induction xs generalizing heap with
  | nil => rfl
  | cons x xs ih => rw [List.foldl_cons, ih, heappush, List.reverse_cons, List.append_assoc]; rfl

/-- `heapq.heappop` : an item no other is below, and the others. -/
def heappop (lt : α → α → Bool) : List α → Option (α × List α)
  | [] => none
  | x :: xs =>
    match heappop lt xs with
    | none => some (x, [])
    | some (y, ys) => if lt y x then some (y, x :: ys) else some (x, y :: ys)

@[simp] theorem heappop_eq_none {lt : α → α → Bool} {heap : List α} :
    heappop lt heap = none ↔ heap = [] := by
  cases heap with
  | nil => simp [heappop]
  | cons x xs =>
    simp only [heappop, reduceCtorEq, iff_false]
    split
    · simp
    · split_ifs <;> simp

theorem heappop_perm {lt : α → α → Bool} : ∀ {heap rest : List α} {x : α},
    heappop lt heap = some (x, rest) → (x :: rest).Perm heap
  | [], _, _, h => by simp [heappop] at h
  | a :: as, rest, x, h => by
    unfold heappop at h
    split at h
    case h_1 hnone =>
      obtain ⟨rfl, rfl⟩ := Prod.mk.inj (Option.some.inj h)
      rw [heappop_eq_none.mp hnone]
    case h_2 y ys hsome =>
      have hperm : (y :: ys).Perm as := heappop_perm hsome
      split_ifs at h
      · obtain ⟨rfl, rfl⟩ := Prod.mk.inj (Option.some.inj h)
        exact (List.Perm.swap a y ys).trans (hperm.cons a)
      · obtain ⟨rfl, rfl⟩ := Prod.mk.inj (Option.some.inj h)
        exact hperm.cons a

theorem length_of_heappop {lt : α → α → Bool} {heap rest : List α} {x : α}
    (h : heappop lt heap = some (x, rest)) : heap.length = rest.length + 1 :=
  (heappop_perm h).length_eq.symm

/-- Nothing in the heap is below what is popped, where `lt` compares by a total preorder. -/
theorem heappop_least {lt : α → α → Bool}
    (hasymm : ∀ a b, lt a b = true → lt b a = false)
    (htrans : ∀ a b c, lt b a = false → lt c b = false → lt c a = false) :
    ∀ {heap rest : List α} {x : α}, heappop lt heap = some (x, rest) → ∀ y ∈ rest, lt y x = false
  | [], _, _, h => by simp [heappop] at h
  | a :: as, rest, x, h => by
    unfold heappop at h
    split at h
    case h_1 =>
      obtain ⟨rfl, rfl⟩ := Prod.mk.inj (Option.some.inj h)
      simp
    case h_2 y ys hsome =>
      have hleast := heappop_least hasymm htrans hsome
      split_ifs at h with hlt
      · obtain ⟨rfl, rfl⟩ := Prod.mk.inj (Option.some.inj h)
        exact List.forall_mem_cons.mpr ⟨hasymm _ _ hlt, hleast⟩
      · obtain ⟨rfl, rfl⟩ := Prod.mk.inj (Option.some.inj h)
        have hle : lt y a = false := by simpa using hlt
        exact List.forall_mem_cons.mpr
          ⟨hle, fun z hz => htrans _ _ _ hle (hleast z hz)⟩

/-! ## Merging down to one item -/

section Merging

variable (lt : α → α → Bool) (merge : α → α → α)

/-- `while len(heap) > 1` : pop two items, push what they merge to. -/
def mergeHeap (heap : List α) : List α :=
  match _h0 : heappop lt heap with
  | none => heap
  | some (x, rest) =>
    match _h1 : heappop lt rest with
    | none => heap
    | some (y, rest) => mergeHeap (heappush rest (merge x y))
termination_by heap.length
decreasing_by
  have hx := length_of_heappop _h0
  have hy := length_of_heappop _h1
  simp only [heappush, List.length_cons]
  omega

variable {lt merge}

/-- What holds of both parts of a popped heap is all that the loop changes. -/
theorem mergeHeap_induction (motive : List α → Prop) {heap : List α} (hheap : motive heap)
    (hstep : ∀ x y rest heap, (x :: y :: rest).Perm heap → motive heap →
      motive (merge x y :: rest)) : motive (mergeHeap lt merge heap) := by
  fun_induction mergeHeap lt merge heap with
  | case1 => exact hheap
  | case2 => exact hheap
  | case3 heap x rest h0 y rest' h1 ih =>
    refine ih (hstep x y rest' heap ?_ hheap)
    exact ((heappop_perm h1).cons x).trans (heappop_perm h0)

/-- One item is left. -/
theorem mergeHeap_eq_singleton {heap : List α} (hne : heap ≠ []) :
    ∃ x, mergeHeap lt merge heap = [x] := by
  fun_induction mergeHeap lt merge heap with
  | case1 heap h0 => exact absurd (heappop_eq_none.mp h0) hne
  | case2 heap x rest h0 h1 =>
    obtain ⟨a, ha⟩ := List.length_eq_one_iff.mp
      (show heap.length = 1 by rw [length_of_heappop h0, heappop_eq_none.mp h1]; rfl)
    exact ⟨a, ha⟩
  | case3 heap x rest h0 y rest' h1 ih => exact ih (by simp [heappush])

/-- What the merge of two items preserves holds at the end. -/
theorem mergeHeap_forall {P : α → Prop} (hmerge : ∀ x y, P x → P y → P (merge x y))
    {heap : List α} (hheap : ∀ x ∈ heap, P x) : ∀ x ∈ mergeHeap lt merge heap, P x := by
  refine mergeHeap_induction (fun heap => ∀ x ∈ heap, P x) hheap ?_
  intro x y rest heap hperm hall
  have hpopped : ∀ z ∈ x :: y :: rest, P z := fun z hz => hall z (hperm.subset hz)
  simp only [List.mem_cons, forall_eq_or_imp] at hpopped ⊢
  exact ⟨hmerge x y hpopped.1 hpopped.2.1, hpopped.2.2⟩

/-- What a merged item holds is what the two held, so nothing is lost or doubled. -/
theorem mergeHeap_flatMap_perm {f : α → List β}
    (hmerge : ∀ x y, (f (merge x y)).Perm (f x ++ f y)) (heap : List α) :
    ((mergeHeap lt merge heap).flatMap f).Perm (heap.flatMap f) := by
  refine mergeHeap_induction (fun after => (after.flatMap f).Perm (heap.flatMap f)) (.refl _) ?_
  intro x y rest before hperm hall
  calc ((merge x y :: rest).flatMap f).Perm ((x :: y :: rest).flatMap f) := by
        simpa [List.flatMap_cons] using (hmerge x y).append_right (rest.flatMap f)
    _ |>.Perm (before.flatMap f) := hperm.flatMap_right f
    _ |>.Perm (heap.flatMap f) := hall

end Merging

end DraftOpd
