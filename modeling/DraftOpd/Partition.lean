import Mathlib.Algebra.GroupWithZero.Nat
import Mathlib.Algebra.Order.BigOperators.Group.List

/-!
# Quantities that add up over a partition

A quantity of a list that does not depend on the order and adds up over appended lists
(`AddsUp`) adds up over any partition of the list (`AddsUp.flatten`). Sums over the
members are such, also over the members of lists the members hold.

A part of a partition is completed to the whole by the rest (`exists_rest`), so such a
quantity of the whole splits into that of the part and that of the rest.
-/

namespace DraftOpd

variable {α β M : Type*} [AddCommMonoid M]

/-- A quantity that adds up over appended lists, in any order. -/
structure AddsUp (f : List α → M) : Prop where
  nil : f [] = 0
  append : ∀ xs ys, f (xs ++ ys) = f xs + f ys
  perm : ∀ {xs ys}, List.Perm xs ys → f xs = f ys

theorem addsUp_sum (g : α → M) : AddsUp fun xs => (xs.map g).sum where
  nil := rfl
  append xs ys := by rw [List.map_append, List.sum_append]
  perm h := (h.map g).sum_eq

theorem AddsUp.flatMap {f : List β → M} (h : AddsUp f) (g : α → List β) :
    AddsUp fun xs : List α => f (xs.flatMap g) where
  nil := h.nil
  append xs ys := by rw [List.flatMap_append, h.append]
  perm hp := h.perm (hp.flatMap_right g)

theorem AddsUp.flatten {f : List α → M} (h : AddsUp f) :
    ∀ parts : List (List α), f parts.flatten = (parts.map f).sum
  | [] => h.nil
  | part :: parts => by
    rw [List.flatten_cons, h.append, h.flatten parts, List.map_cons, List.sum_cons]

/-- A part and the rest are the whole. -/
theorem exists_rest {parts : List (List α)} {part : List α} (h : part ∈ parts) :
    ∃ rest, (part ++ rest).Perm parts.flatten := by
  obtain ⟨front, back, rfl⟩ := List.append_of_mem h
  refine ⟨front.flatten ++ back.flatten, ?_⟩
  rw [List.flatten_append, List.flatten_cons, ← List.append_assoc, ← List.append_assoc]
  exact List.perm_append_comm.append_right _

/-- A sum of non-negative weights is positive when some member has a positive one. -/
theorem sum_pos_iff_any {R : Type*} [AddCommMonoid R] [LinearOrder R] [IsOrderedCancelAddMonoid R]
    {g : α → R} {p : α → Bool} (hnonneg : ∀ x, 0 ≤ g x) (hpos : ∀ x, 0 < g x ↔ p x = true) :
    ∀ xs : List α, 0 < (xs.map g).sum ↔ xs.any p = true
  | [] => by simp
  | x :: xs => by
    have hsum : 0 ≤ (xs.map g).sum := List.sum_nonneg fun y hy => by
      obtain ⟨z, -, rfl⟩ := List.mem_map.mp hy
      exact hnonneg z
    rw [List.map_cons, List.sum_cons, List.any_cons, Bool.or_eq_true, ← hpos,
      ← sum_pos_iff_any hnonneg hpos xs]
    constructor
    · intro h
      by_contra hne
      obtain ⟨h₁, h₂⟩ := not_or.mp hne
      rw [le_antisymm (not_lt.mp h₁) (hnonneg x), le_antisymm (not_lt.mp h₂) hsum, add_zero] at h
      exact lt_irrefl _ h
    · rintro (h | h)
      · exact add_pos_of_pos_of_nonneg h hsum
      · exact add_pos_of_nonneg_of_pos (hnonneg x) h

end DraftOpd
