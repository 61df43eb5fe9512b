import Mathlib.Data.List.Basic
import Mathlib.Data.List.Induction
import Mathlib.Order.Nat

/-!
# Autoregressive sequences

`autoregress next ctx n` is the sequence a deterministic `next` produces after `ctx`, one
element at a time. A list follows `next` when it is such a sequence, which can be checked
block by block (`Follows.append`). The longest prefix of a proposal that agrees with the
predictions made along the proposal itself follows `next`, and so does that prefix with
the first prediction it disagrees with (`follows_take_of_agree`, `Follows.snoc`).
-/

namespace DraftOpd

variable {α : Type*}

/-- The first `n` elements of the sequence of `next` after `ctx`. -/
def autoregress (next : List α → α) (ctx : List α) : ℕ → List α
  | 0 => []
  | n + 1 => autoregress next ctx n ++ [next (ctx ++ autoregress next ctx n)]

@[simp] theorem length_autoregress (next : List α → α) (ctx : List α) :
    ∀ n, (autoregress next ctx n).length = n
  | 0 => rfl
  | n + 1 => by simp [autoregress, length_autoregress next ctx n]

/-- Longer sequences extend shorter ones. -/
theorem prefix_of_autoregress (next : List α → α) (ctx : List α) (n : ℕ) :
    ∀ k, autoregress next ctx n <+: autoregress next ctx (n + k)
  | 0 => List.prefix_rfl
  | k + 1 => (prefix_of_autoregress next ctx n k).trans (List.prefix_append _ _)

/-- The list is the sequence of `next` after `ctx`. -/
def Follows (next : List α → α) (ctx xs : List α) : Prop :=
  xs = autoregress next ctx xs.length

theorem follows_nil (next : List α → α) (ctx : List α) : Follows next ctx [] := rfl

/-- The next element of the sequence. -/
theorem Follows.snoc {next : List α → α} {ctx xs : List α} (h : Follows next ctx xs) :
    Follows next ctx (xs ++ [next (ctx ++ xs)]) := by
  unfold Follows at h ⊢
  rw [List.length_append, List.length_singleton, autoregress, ← h]

theorem Follows.of_snoc {next : List α → α} {ctx xs : List α} {x : α}
    (h : Follows next ctx (xs ++ [x])) : Follows next ctx xs ∧ x = next (ctx ++ xs) := by
  unfold Follows at h ⊢
  rw [List.length_append, List.length_singleton, autoregress] at h
  obtain ⟨h₁, h₂⟩ := List.append_inj' h rfl
  exact ⟨h₁, (List.singleton_inj.mp h₂).trans (by rw [← h₁])⟩

/-- A block that follows after what was produced before. -/
theorem Follows.append {next : List α → α} {ctx xs : List α} (h : Follows next ctx xs) :
    ∀ ys : List α, Follows next (ctx ++ xs) ys → Follows next ctx (xs ++ ys) := by
  intro ys
  induction ys using List.reverseRecOn with
  | nil => intro _; rwa [List.append_nil]
  | append_singleton ys y ih =>
    intro hys
    obtain ⟨hys', rfl⟩ := hys.of_snoc
    rw [← List.append_assoc, List.append_assoc ctx]
    exact (ih hys').snoc

theorem Follows.take {next : List α → α} {ctx : List α} : ∀ {xs : List α} (n : ℕ),
    Follows next ctx xs → Follows next ctx (xs.take n) := by
  intro xs
  induction xs using List.reverseRecOn with
  | nil => intro n _; simp [follows_nil]
  | append_singleton xs x ih =>
    intro n h
    rcases Nat.lt_or_ge xs.length n with hn | hn
    · rwa [List.take_of_length_le (by simp; omega)]
    · rw [List.take_append_of_le_length hn]
      exact ih n h.of_snoc.1

/-- A prefix of a proposal that agrees with the predictions made along it. -/
theorem follows_take_of_agree {next : List α → α} {ctx ds : List α} :
    ∀ n, n ≤ ds.length → (∀ t < n, ds[t]? = some (next (ctx ++ ds.take t))) →
      Follows next ctx (ds.take n)
  | 0, _, _ => by simp [follows_nil]
  | n + 1, hn, h => by
    have ih := follows_take_of_agree n (by omega) fun t ht => h t (by omega)
    have hn' := h n (by omega)
    rw [List.getElem?_eq_getElem (by omega), Option.some_inj] at hn'
    rw [List.take_succ_eq_append_getElem (by omega), hn']
    exact ih.snoc

/-- The leading run of `true` is as long as it can be. -/
theorem getElem?_takeWhile_id : ∀ bs : List Bool,
    (∀ i < (bs.takeWhile id).length, bs[i]? = some true) ∧
      ((bs.takeWhile id).length < bs.length → bs[(bs.takeWhile id).length]? = some false)
  | [] => by simp
  | false :: bs => by simp
  | true :: bs => by
    obtain ⟨h₁, h₂⟩ := getElem?_takeWhile_id bs
    refine ⟨fun i hi => ?_, fun h => ?_⟩
    · cases i with
      | zero => rfl
      | succ i => exact h₁ i (by simpa using hi)
    · simpa using h₂ (by simpa using h)

end DraftOpd
