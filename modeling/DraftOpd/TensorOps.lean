import Mathlib.Order.Defs.LinearOrder
import DraftOpd.SortedSet

/-!
# Tensor operations on lists

A tensor is modelled by the list of its entries or rows. `repeatInterleave` repeats every entry,
`viewBlocks` cuts a list into rows, `forChunks` runs a function over consecutive chunks of a list,
and `torchMax` finds the largest entry and the first position where it stands.

`forChunks_map` : a function that treats the entries of a chunk one by one does so for the list,
whatever the size of a chunk. `viewBlocks_flatten` : cutting a gathered list gives back what was
gathered. `torchMax_spec` says what `torchMax` finds.
-/

namespace DraftOpd

variable {α β : Type*}

/-! ## Repeating and cutting -/

/-- `torch.repeat_interleave`. -/
def repeatInterleave (xs : List α) (repeats : ℕ) : List α :=
  xs.flatMap fun x => List.replicate repeats x

/-- `.view(rows, cols)`, over entries of any shape. -/
def viewBlocks (rows cols : ℕ) (xs : List α) : List (List α) :=
  (List.range rows).map fun i => (xs.drop (i * cols)).take cols

theorem mem_repeatInterleave {xs : List α} {repeats : ℕ} {x : α}
    (h : x ∈ repeatInterleave xs repeats) : x ∈ xs := by
  obtain ⟨y, hy, hx⟩ := List.mem_flatMap.mp h
  rwa [List.eq_of_mem_replicate hx]

theorem getElem?_repeatInterleave {d t : ℕ} (ht : t < d) : ∀ (xs : List α) (b : ℕ),
    (repeatInterleave xs d)[b * d + t]? = xs[b]?
  | [], b => by simp [repeatInterleave]
  | x :: xs, b => by
    have hcons : repeatInterleave (x :: xs) d = List.replicate d x ++ repeatInterleave xs d := rfl
    rw [hcons]
    cases b with
    | zero =>
      rw [Nat.zero_mul, Nat.zero_add, List.getElem?_append_left (by simpa using ht)]
      simp [ht]
    | succ b =>
      have hidx : (b + 1) * d + t - d = b * d + t := by
        rw [Nat.succ_mul]
        omega
      rw [List.getElem?_append_right (by rw [List.length_replicate, Nat.succ_mul]; omega),
        List.length_replicate, hidx, getElem?_repeatInterleave ht xs b]
      rfl

theorem length_repeatInterleave (xs : List α) (repeats : ℕ) :
    (repeatInterleave xs repeats).length = xs.length * repeats := by
  simp [repeatInterleave]

theorem getElem?_viewBlocks {rows cols b t : ℕ} (hb : b < rows) (ht : t < cols) (xs : List α) :
    ((viewBlocks rows cols xs).getD b [])[t]? = xs[b * cols + t]? := by
  rw [viewBlocks, getD_map_range _ hb, List.getElem?_take, if_pos ht, List.getElem?_drop]

/-- Rows of one length, gathered and cut again. -/
theorem viewBlocks_flatten {cols : ℕ} : ∀ {rows : List (List α)},
    (∀ row ∈ rows, row.length = cols) → viewBlocks rows.length cols rows.flatten = rows
  | [], _ => rfl
  | row :: rows, h => by
    have hrow := h row List.mem_cons_self
    have ih := viewBlocks_flatten fun r hr => h r (List.mem_cons_of_mem _ hr)
    unfold viewBlocks at ih ⊢
    rw [List.length_cons, List.range_succ_eq_map, List.map_cons, List.map_map, List.flatten_cons,
      Nat.zero_mul, List.drop_zero, ← hrow, List.take_left]
    congr 1
    refine (List.map_congr_left fun i _ => ?_).trans ih
    have hdrop : (row ++ rows.flatten).drop ((i + 1) * row.length) =
        rows.flatten.drop (i * row.length) := by
      rw [Nat.succ_mul, Nat.add_comm, List.drop_append]
      simp
    rw [Function.comp_apply, Nat.succ_eq_add_one, hdrop, hrow]

/-! ## Chunks -/

/-- `for start in range(0, len(xs), size)` : the chunks `xs[start : start + size]`. -/
def chunks (size : ℕ) (xs : List α) : List (List α) :=
  (List.range ((xs.length + size - 1) / size)).map fun k => (xs.drop (k * size)).take size

/-- The results of the chunks, one after another. -/
def forChunks (size : ℕ) (f : List α → List β) (xs : List α) : List β :=
  (chunks size xs).flatMap f

theorem flatten_take_chunks (size : ℕ) (xs : List α) : ∀ n : ℕ,
    ((List.range n).map fun k => (xs.drop (k * size)).take size).flatten = xs.take (n * size)
  | 0 => by simp
  | n + 1 => by
    rw [List.range_succ, List.map_append, List.flatten_append, flatten_take_chunks size xs n,
      Nat.succ_mul, List.take_add]
    simp

theorem length_of_mem_viewBlocks {rows cols : ℕ} {xs block : List α} (h : rows * cols = xs.length)
    (hblock : block ∈ viewBlocks rows cols xs) : block.length = cols := by
  obtain ⟨k, hk, rfl⟩ := List.mem_map.mp hblock
  have hle : (k + 1) * cols ≤ rows * cols := Nat.mul_le_mul_right cols (List.mem_range.mp hk)
  rw [Nat.succ_mul] at hle
  rw [List.length_take, List.length_drop]
  omega

theorem flatten_viewBlocks {rows cols : ℕ} {xs : List α} (h : rows * cols = xs.length) :
    (viewBlocks rows cols xs).flatten = xs := by
  rw [viewBlocks, flatten_take_chunks, h, List.take_length]

theorem flatten_chunks {size : ℕ} (hsize : 0 < size) (xs : List α) :
    (chunks size xs).flatten = xs := by
  have hcover : xs.length ≤ (xs.length + size - 1) / size * size := by
    have hdiv := Nat.div_add_mod (xs.length + size - 1) size
    have hmod := Nat.mod_lt (xs.length + size - 1) hsize
    rw [Nat.mul_comm] at hdiv
    omega
  rw [chunks, flatten_take_chunks, List.take_of_length_le hcover]

theorem forChunks_map {size : ℕ} (hsize : 0 < size) (g : α → β) (xs : List α) :
    forChunks size (fun chunk => chunk.map g) xs = xs.map g := by
  rw [forChunks, List.flatMap_def, ← List.map_flatten, flatten_chunks hsize]

/-- `xs[mask]`, for a mask computed from the entries. -/
theorem filter_zip_map (mask : α → Bool) (xs : List α) :
    ((xs.zip (xs.map mask)).filter Prod.snd).map Prod.fst = xs.filter mask := by
  induction xs with
  | nil => rfl
  | cons x xs ih =>
    rw [List.map_cons, List.zip_cons_cons]
    cases hx : mask x with
    | true => simp [hx, ih]
    | false => simp [hx, ih]

/-! ## The first maximum -/

variable [LinearOrder α]

/-- `torch.max(dim)` and `torch.argmax` : the largest entry, and the first position where it
stands. They raise without an entry. -/
def torchMax : List α → Option (α × ℕ)
  | [] => none
  | x :: xs =>
    match torchMax xs with
    | none => some (x, 0)
    | some (m, i) => if x < m then some (m, i + 1) else some (x, 0)

/-- The entry `m` at position `i` is a maximum, and there is none before it. -/
structure FirstMax (xs : List α) (m : α) (i : ℕ) : Prop where
  at_index : xs[i]? = some m
  le_max : ∀ x ∈ xs, x ≤ m
  lt_max : ∀ j < i, ∀ x, xs[j]? = some x → x < m

theorem torchMax_spec : ∀ {xs : List α}, xs ≠ [] →
    ∃ m i, torchMax xs = some (m, i) ∧ FirstMax xs m i
  | [], h => absurd rfl h
  | [x], _ => ⟨x, 0, rfl, rfl, by simp, fun j hj => absurd hj (Nat.not_lt_zero j)⟩
  | x :: y :: ys, _ => by
    obtain ⟨m, i, heq, hmax⟩ := torchMax_spec (List.cons_ne_nil y ys)
    rw [torchMax, heq]
    by_cases hlt : x < m
    · refine ⟨m, i + 1, if_pos hlt, hmax.at_index, fun z hz => ?_, fun j hj z hz => ?_⟩
      · rcases List.mem_cons.mp hz with rfl | hz
        · exact hlt.le
        · exact hmax.le_max z hz
      · cases j with
        | zero =>
          obtain rfl : x = z := by simpa using hz
          exact hlt
        | succ j => exact hmax.lt_max j (by omega) z hz
    · refine ⟨x, 0, if_neg hlt, rfl, fun z hz => ?_, fun j hj => absurd hj (Nat.not_lt_zero j)⟩
      rcases List.mem_cons.mp hz with rfl | hz
      · exact le_rfl
      · exact (hmax.le_max z hz).trans (not_lt.mp hlt)

end DraftOpd
