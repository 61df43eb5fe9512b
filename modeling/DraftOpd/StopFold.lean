import Mathlib.Data.List.Basic

/-!
# Computations that may fail, and loops that stop at an error

A computation that returned is taken apart step by step (`of_bind_ok`).

A loop updates a state and stops at the first step that raises, with the state as that step left
it (`foldUntil`). What the loop met on its way can be read off its input without the state, up to
the first error (`readUntil`).

A step that adds what it reads (`Logs`) makes a loop that does, and so for loops in loops
(`foldUntil_logs`). A reading that gives a first part of the items, and all of them when it
raises nothing (`Reads`), makes one of the list (`readUntil_reads`), and what holds of all that
the elements give holds of all that the list gives (`readUntil_forall`).
-/

namespace DraftOpd

universe u

variable {α β γ σ ε : Type*}

/-- What returned has returned at its first step, and after it. -/
theorem of_bind_ok {α β : Type u} {x : Except ε α} {f : α → Except ε β} {b : β}
    (h : x >>= f = .ok b) : ∃ a, x = .ok a ∧ f a = .ok b := by
  cases hx : x with
  | error e => rw [hx] at h; cases h
  | ok a => rw [hx] at h; exact ⟨a, rfl, h⟩

theorem ok_bind {α β : Type u} (a : α) (f : α → Except ε β) : (Except.ok a >>= f) = f a := rfl

theorem of_mapError_ok {ε' : Type*} {g : ε → ε'} {x : Except ε α} {a : α}
    (h : x.mapError g = .ok a) : x = .ok a := by
  cases x with
  | error e => cases h
  | ok a' => rw [Except.ok.inj h]

/-- The loop over a list : the state after it, and the error it stopped at. -/
def foldUntil (step : σ → α → σ × Option ε) : σ → List α → σ × Option ε
  | s, [] => (s, none)
  | s, x :: xs =>
    match step s x with
    | (s', some e) => (s', some e)
    | (s', none) => foldUntil step s' xs

/-- What the elements of a list give one after the other, up to the first error. -/
def readUntil (read : α → List β × Option ε) : List α → List β × Option ε
  | [] => ([], none)
  | x :: xs =>
    match read x with
    | (bs, some e) => (bs, some e)
    | (bs, none) => (bs ++ (readUntil read xs).1, (readUntil read xs).2)

/-- The step adds to the state what it reads, and raises what reading raises. -/
def Logs (step : σ → α → σ × Option ε) (add : σ → β → σ) (read : α → List β × Option ε) : Prop :=
  ∀ s x, step s x = ((read x).1.foldl add s, (read x).2)

theorem foldUntil_logs {step : σ → α → σ × Option ε} {add : σ → β → σ}
    {read : α → List β × Option ε} (h : Logs step add read) :
    Logs (foldUntil step) add (readUntil read) := by
  intro s xs
  induction xs generalizing s with
  | nil => rfl
  | cons x xs ih =>
    rcases hread : read x with ⟨bs, e⟩
    rw [foldUntil, readUntil, h s x, hread]
    cases e with
    | some e => rfl
    | none =>
      dsimp only
      rw [ih, List.foldl_append]

/-- Reading gives the first of the items, and all of them when it raises nothing. -/
def Reads (read : α → List β × Option ε) (view : β → γ) (items : α → List γ) : Prop :=
  ∀ x, (read x).1.map view <+: items x ∧ ((read x).2 = none → (read x).1.map view = items x)

theorem readUntil_reads {read : α → List β × Option ε} {view : β → γ} {items : α → List γ}
    (h : Reads read view items) : Reads (readUntil read) view (List.flatMap items) := by
  intro xs
  induction xs with
  | nil => exact ⟨List.prefix_rfl, fun _ => rfl⟩
  | cons x xs ih =>
    obtain ⟨hfirst, hall⟩ := h x
    rcases hread : read x with ⟨bs, e⟩
    rw [hread] at hfirst hall
    rw [readUntil, hread, List.flatMap_cons]
    cases e with
    | some e =>
      exact ⟨hfirst.trans (List.prefix_append _ _), fun hnone => by cases hnone⟩
    | none =>
      dsimp only
      rw [List.map_append, hall rfl]
      exact ⟨(List.prefix_append_right_inj _).mpr ih.1, fun hnone => by rw [ih.2 hnone]⟩

/-- What is read has a property unless the loop stops in a way that `ends` excludes. -/
theorem readUntil_forall (ends : Option ε → Prop) {read : α → List β × Option ε} {P : β → Prop}
    (hnone : ends none) (h : ∀ x, ends (read x).2 → ∀ b ∈ (read x).1, P b) (xs : List α)
    (hends : ends (readUntil read xs).2) : ∀ b ∈ (readUntil read xs).1, P b := by
  induction xs with
  | nil => exact fun b hb => absurd hb List.not_mem_nil
  | cons x xs ih =>
    have hx := h x
    rcases hread : read x with ⟨bs, e⟩
    rw [hread] at hx
    rw [readUntil, hread] at hends ⊢
    cases e with
    | some e => exact hx hends
    | none =>
      intro b hb
      rcases List.mem_append.mp hb with hb | hb
      · exact hx hnone b hb
      · exact ih hends b hb

end DraftOpd
