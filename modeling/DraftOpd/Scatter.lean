import Mathlib.Data.List.Nodup

/-!
# Indexed writes

`xs[indices] = values` as a sequence of writes (`scatter`). With indices that differ, a written
index holds its own value (`getElem?_scatter_of_mem`) ; the others keep theirs
(`getElem?_scatter_of_notMem`). `scatterAt` is the same on a tensor with two indices.
-/

namespace DraftOpd

variable {α : Type*}

/-- The writes `(index, value)`, in order. -/
def scatter (xs : List α) (writes : List (ℕ × α)) : List α :=
  writes.foldl (fun xs write => xs.set write.1 write.2) xs

@[simp] theorem scatter_cons (xs : List α) (write : ℕ × α) (writes : List (ℕ × α)) :
    scatter xs (write :: writes) = scatter (xs.set write.1 write.2) writes := rfl

theorem scatter_append (xs : List α) (writes writes' : List (ℕ × α)) :
    scatter xs (writes ++ writes') = scatter (scatter xs writes) writes' := by
  rw [scatter, List.foldl_append]
  rfl

@[simp] theorem length_scatter (writes : List (ℕ × α)) :
    ∀ xs : List α, (scatter xs writes).length = xs.length := by
  induction writes with
  | nil => exact fun xs => rfl
  | cons write writes ih =>
    intro xs
    rw [scatter_cons, ih, List.length_set]

theorem getElem?_scatter_of_notMem {k : ℕ} : ∀ {writes : List (ℕ × α)} {xs : List α},
    k ∉ writes.map Prod.fst → (scatter xs writes)[k]? = xs[k]?
  | [], _, _ => rfl
  | write :: writes, xs, h => by
    rw [List.map_cons, List.mem_cons, not_or] at h
    rw [scatter_cons, getElem?_scatter_of_notMem h.2, List.getElem?_set_ne (Ne.symm h.1)]

theorem getElem?_scatter_of_mem {k : ℕ} {a : α} : ∀ {writes : List (ℕ × α)} {xs : List α},
    (writes.map Prod.fst).Nodup → (k, a) ∈ writes → k < xs.length →
    (scatter xs writes)[k]? = some a
  | write :: writes, xs, hnodup, hmem, hlt => by
    rw [List.map_cons, List.nodup_cons] at hnodup
    rw [scatter_cons]
    rcases List.mem_cons.mp hmem with rfl | hmem
    · rw [getElem?_scatter_of_notMem hnodup.1, List.getElem?_set_self hlt]
    · exact getElem?_scatter_of_mem hnodup.2 hmem (by rwa [List.length_set])

/-! ## Two indices -/

/-- `tensor[i, j] = value`. -/
def setAt (tensor : ℕ → ℕ → α) (i j : ℕ) (value : α) : ℕ → ℕ → α :=
  fun i' j' => if i' = i ∧ j' = j then value else tensor i' j'

/-- The writes `((i, j), value)`, in order. -/
def scatterAt (tensor : ℕ → ℕ → α) (writes : List ((ℕ × ℕ) × α)) : ℕ → ℕ → α :=
  writes.foldl (fun tensor write => setAt tensor write.1.1 write.1.2 write.2) tensor

@[simp] theorem scatterAt_cons (tensor : ℕ → ℕ → α) (write : (ℕ × ℕ) × α)
    (writes : List ((ℕ × ℕ) × α)) : scatterAt tensor (write :: writes) =
      scatterAt (setAt tensor write.1.1 write.1.2 write.2) writes := rfl

theorem scatterAt_of_notMem {i j : ℕ} : ∀ {writes : List ((ℕ × ℕ) × α)} {tensor : ℕ → ℕ → α},
    (∀ a, ((i, j), a) ∉ writes) → scatterAt tensor writes i j = tensor i j
  | [], _, _ => rfl
  | write :: writes, tensor, h => by
    have hne : ¬(i = write.1.1 ∧ j = write.1.2) := by
      rintro ⟨rfl, rfl⟩
      exact h write.2 List.mem_cons_self
    rw [scatterAt_cons, scatterAt_of_notMem fun a ha => h a (List.mem_cons_of_mem _ ha), setAt,
      if_neg hne]

/-- An entry whose writes agree holds what they write. -/
theorem scatterAt_of_mem {i j : ℕ} {a : α} : ∀ {writes : List ((ℕ × ℕ) × α)}
    {tensor : ℕ → ℕ → α}, ((i, j), a) ∈ writes → (∀ b, ((i, j), b) ∈ writes → b = a) →
    scatterAt tensor writes i j = a
  | write :: writes, tensor, hmem, hall => by
    by_cases hlater : ∃ b, ((i, j), b) ∈ writes
    · obtain ⟨b, hb⟩ := hlater
      obtain rfl := hall b (List.mem_cons_of_mem _ hb)
      rw [scatterAt_cons]
      exact scatterAt_of_mem hb fun c hc => hall c (List.mem_cons_of_mem _ hc)
    · have hhead : ((i, j), a) = write :=
        (List.mem_cons.mp hmem).resolve_right fun h => hlater ⟨a, h⟩
      rw [scatterAt_cons, scatterAt_of_notMem fun b hb => hlater ⟨b, hb⟩, ← hhead, setAt,
        if_pos ⟨rfl, rfl⟩]

end DraftOpd
