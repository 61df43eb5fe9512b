import Mathlib.Algebra.GroupWithZero.Nat
import Mathlib.Algebra.BigOperators.Group.List.Basic
import Mathlib.Data.List.GetD
import Mathlib.Data.List.Perm.Basic

/-!
# Ragged rows in one flat list

Rows of different lengths are stored one after another, and addressed by running sums of the
lengths (`cumsum`). `slice_flatten` : a slice at the start of a row is a slice of that row.
`splitLens` cuts a flat list by lengths and undoes `flatten` (`splitLens_flatten`).
`gather` reads a list at given indices ; reading the ranges of chosen rows gives the chosen
rows (`gather_rows`).
-/

namespace DraftOpd

variable {α : Type*}

/-- The running sums of `lens`, from `start`. -/
def cumsum : ℕ → List ℕ → List ℕ
  | _, [] => []
  | start, n :: lens => (start + n) :: cumsum (start + n) lens

@[simp] theorem length_cumsum : ∀ (start : ℕ) (lens : List ℕ),
    (cumsum start lens).length = lens.length
  | _, [] => rfl
  | start, n :: lens => by rw [cumsum, List.length_cons, length_cumsum, List.length_cons]

theorem getElem?_cumsum : ∀ {lens : List ℕ} {start i n : ℕ}, lens[i]? = some n →
    (cumsum start lens)[i]? = some (start + (lens.take i).sum + n)
  | _ :: _, start, 0, n, h => by
    obtain rfl := Option.some.inj h
    rfl
  | m :: lens, start, i + 1, n, h => by
    rw [List.getElem?_cons_succ] at h
    rw [cumsum, List.getElem?_cons_succ, getElem?_cumsum h, List.take_succ_cons, List.sum_cons,
      ← Nat.add_assoc]

theorem getLastD_cumsum : ∀ (start : ℕ) (lens : List ℕ),
    (cumsum start lens).getLastD start = start + lens.sum
  | _, [] => rfl
  | start, n :: lens => by
    rw [cumsum, List.getLastD_cons, getLastD_cumsum, List.sum_cons, Nat.add_assoc]

/-- The running sums before each length. -/
theorem dropLast_cumsum : ∀ (start : ℕ) (lens : List ℕ), (start :: cumsum start lens).dropLast =
    (List.range lens.length).map fun i => start + (lens.take i).sum
  | _, [] => rfl
  | start, n :: lens => by
    rw [cumsum, List.dropLast_cons_cons, dropLast_cumsum (start + n) lens, List.length_cons,
      List.range_succ_eq_map, List.map_cons, List.map_map]
    simp [Function.comp_def, Nat.add_assoc]

/-- A list cut into rows of the lengths `lens`. -/
def splitLens : List ℕ → List α → List (List α)
  | [], _ => []
  | n :: lens, xs => xs.take n :: splitLens lens (xs.drop n)

theorem splitLens_flatten : ∀ rows : List (List α),
    splitLens (rows.map List.length) rows.flatten = rows
  | [] => rfl
  | row :: rows => by
    rw [List.map_cons, List.flatten_cons, splitLens, List.take_left, List.drop_left,
      splitLens_flatten rows]

/-- The start of a row in the flat list. -/
def rowStart (rows : List (List α)) (i : ℕ) : ℕ := ((rows.take i).map List.length).sum

theorem rowStart_eq (rows : List (List α)) (i : ℕ) :
    rowStart rows i = (rows.take i).flatten.length := by
  rw [rowStart, List.length_flatten]

/-- The flat list around a row. -/
theorem flatten_around {rows : List (List α)} {i : ℕ} {row : List α} (h : rows[i]? = some row) :
    rows.flatten = (rows.take i).flatten ++ (row ++ (rows.drop (i + 1)).flatten) := by
  obtain ⟨hi, heq⟩ := List.getElem?_eq_some_iff.mp h
  conv_lhs => rw [← List.take_append_drop i rows]
  rw [List.flatten_append, List.drop_eq_getElem_cons hi, heq, List.flatten_cons]

/-- A slice of the flat list inside a row is a slice of that row. -/
theorem slice_flatten {rows : List (List α)} {i : ℕ} {row : List α} (h : rows[i]? = some row)
    {a n : ℕ} (han : a + n ≤ row.length) :
    (rows.flatten.drop (rowStart rows i + a)).take n = (row.drop a).take n := by
  rw [flatten_around h, rowStart_eq, List.drop_length_add_append,
    List.drop_append_of_le_length (by omega),
    List.take_append_of_le_length (by rw [List.length_drop]; omega)]

theorem flatten_splitLens : ∀ (lens : List ℕ) (xs : List α), xs.length = lens.sum →
    (splitLens lens xs).flatten = xs
  | [], xs, h => by
    rw [List.sum_nil, List.length_eq_zero_iff] at h
    rw [splitLens, List.flatten_nil, h]
  | n :: lens, xs, h => by
    rw [List.sum_cons] at h
    rw [splitLens, List.flatten_cons, flatten_splitLens lens _ (by rw [List.length_drop]; omega),
      List.take_append_drop]

theorem map_length_splitLens : ∀ (lens : List ℕ) (xs : List α), lens.sum ≤ xs.length →
    (splitLens lens xs).map List.length = lens
  | [], _, _ => rfl
  | n :: lens, xs, h => by
    rw [List.sum_cons] at h
    rw [splitLens, List.map_cons, map_length_splitLens lens _ (by rw [List.length_drop]; omega),
      List.length_take, Nat.min_eq_left (by omega)]

/-! ## Reading at indices -/

/-- The elements of `xs` at `indices`, if all of them are there. -/
def gather (xs : List α) : List ℕ → Option (List α)
  | [] => some []
  | i :: indices => do
    let x ← xs[i]?
    let rest ← gather xs indices
    some (x :: rest)

theorem gather_append {xs ys zs : List α} : ∀ {is js : List ℕ}, gather xs is = some ys →
    gather xs js = some zs → gather xs (is ++ js) = some (ys ++ zs) := by
  intro is
  induction is generalizing ys with
  | nil =>
    intro js h hjs
    obtain rfl := Option.some.inj h
    exact hjs
  | cons i is ih =>
    intro js h hjs
    simp only [gather, Option.bind_eq_bind, Option.bind_eq_some_iff, Option.some.injEq] at h
    obtain ⟨x, hx, rest, hrest, rfl⟩ := h
    simp only [List.cons_append, gather, hx, ih hrest hjs, Option.bind_eq_bind,
      Option.bind_some]

/-- Reading a range of indices is taking a slice. -/
theorem gather_range' {xs : List α} : ∀ {n start : ℕ}, start + n ≤ xs.length →
    gather xs (List.range' start n) = some ((xs.drop start).take n)
  | 0, _, _ => by simp [gather]
  | n + 1, start, h => by
    have hlt : start < xs.length := by omega
    rw [List.range'_succ, gather, List.getElem?_eq_getElem hlt, gather_range' (by omega),
      List.drop_eq_getElem_cons hlt, List.take_succ_cons]
    rfl

/-- Reading a field of each row at indices of rows. -/
theorem gather_map {β : Type*} (f : β → α) (rows : List β) : ∀ {indices : List ℕ},
    (∀ i ∈ indices, i < rows.length) →
      gather (rows.map f) indices = some ((indices.filterMap (rows[·]?)).map f)
  | [], _ => rfl
  | i :: indices, h => by
    have hi : i < rows.length := h i List.mem_cons_self
    rw [gather, gather_map f rows fun j hj => h j (List.mem_cons_of_mem _ hj),
      List.getElem?_map, List.filterMap_cons_some (List.getElem?_eq_getElem hi),
      List.getElem?_eq_getElem hi]
    rfl

theorem gather_eq_filterMap {rows : List α} {indices : List ℕ}
    (h : ∀ i ∈ indices, i < rows.length) :
    gather rows indices = some (indices.filterMap (rows[·]?)) := by
  have hmap := gather_map id rows h
  rwa [List.map_id, List.map_id] at hmap

theorem length_filterMap_getElem? {rows : List α} {indices : List ℕ}
    (h : ∀ i ∈ indices, i < rows.length) :
    (indices.filterMap (rows[·]?)).length = indices.length := by
  refine List.filterMap_length_eq_length.mpr fun i hi => ?_
  rw [List.getElem?_eq_getElem (h i hi)]
  rfl

/-- Reading the first indices is taking a front. -/
theorem filterMap_range_take {rows : List α} {n : ℕ} (h : n ≤ rows.length) :
    (List.range n).filterMap (rows[·]?) = rows.take n := by
  have hgather : gather rows (List.range n) = _ := gather_eq_filterMap fun i hi => by
    have := List.mem_range.mp hi
    omega
  rw [List.range_eq_range', gather_range' (by omega)] at hgather
  rw [List.range_eq_range', ← Option.some.inj hgather, List.drop_zero]

theorem gather_map_range (f : ℕ → α) {n : ℕ} {indices : List ℕ} (h : ∀ i ∈ indices, i < n) :
    gather ((List.range n).map f) indices = some (indices.map f) := by
  have hsel : indices.filterMap ((List.range n)[·]?) = indices := by
    conv_rhs => rw [← List.filterMap_some (l := indices)]
    refine List.filterMap_congr fun i hi => ?_
    rw [List.getElem?_range (h i hi)]
  rw [gather_map f _ (by simpa using h), hsel]

/-- Reading the flat list at the ranges of the chosen rows gives the chosen rows. -/
theorem gather_rows {rows : List (List α)} : ∀ {indices : List ℕ},
    (∀ i ∈ indices, i < rows.length) →
      gather rows.flatten (indices.flatMap fun i =>
        List.range' (rowStart rows i) (rows.getD i []).length) =
          some (indices.filterMap (rows[·]?)).flatten
  | [], _ => rfl
  | i :: indices, h => by
    have hi : i < rows.length := h i List.mem_cons_self
    have hget : rows[i]? = some rows[i] := List.getElem?_eq_getElem hi
    have hbound : rowStart rows i + rows[i].length ≤ rows.flatten.length := by
      rw [flatten_around hget, rowStart_eq, List.length_append, List.length_append]
      omega
    have hrow := gather_range' hbound
    have hslice := slice_flatten hget (a := 0) (n := rows[i].length) (by omega)
    rw [Nat.add_zero, List.drop_zero, List.take_length] at hslice
    rw [hslice] at hrow
    rw [List.flatMap_cons, List.filterMap_cons_some hget, List.flatten_cons,
      List.getD_eq_getElem _ _ hi]
    exact gather_append hrow (gather_rows fun j hj => h j (List.mem_cons_of_mem _ hj))

/-- Pairing two ragged lists whose rows have the same lengths goes row by row. -/
theorem zipWith_flatMap {β γ δ : Type*} (k : β → γ → δ) {f : α → List β} {g : α → List γ} :
    ∀ {xs : List α}, (∀ x ∈ xs, (f x).length = (g x).length) →
      List.zipWith k (xs.flatMap f) (xs.flatMap g) =
        xs.flatMap fun x => List.zipWith k (f x) (g x)
  | [], _ => rfl
  | x :: xs, h => by
    rw [List.flatMap_cons, List.flatMap_cons, List.flatMap_cons,
      List.zipWith_append (h x List.mem_cons_self),
      zipWith_flatMap k fun y hy => h y (List.mem_cons_of_mem _ hy)]

theorem map_zip_left {β γ : Type*} (f : α → γ) {xs : List α} {ys : List β}
    (h : xs.length ≤ ys.length) : ((xs.zip ys).map fun p => f p.1) = xs.map f := by
  conv_rhs => rw [← List.map_fst_zip h, List.map_map]
  rfl

theorem map_zip_right {β γ : Type*} (f : β → γ) {xs : List α} {ys : List β}
    (h : ys.length ≤ xs.length) : ((xs.zip ys).map fun p => f p.2) = ys.map f := by
  conv_rhs => rw [← List.map_snd_zip h, List.map_map]
  rfl

/-- Elements paired with rows of the lengths they ask for. -/
theorem length_of_mem_zip {β : Type*} {f : β → ℕ} : ∀ {xs : List β} {rows : List (List α)},
    rows.map List.length = xs.map f → ∀ p ∈ xs.zip rows, p.2.length = f p.1
  | [], _, _, p, hp => by simp at hp
  | _ :: _, [], _, p, hp => by simp at hp
  | x :: xs, row :: rows, h, p, hp => by
    rw [List.map_cons, List.map_cons, List.cons.injEq] at h
    rw [List.zip_cons_cons, List.mem_cons] at hp
    rcases hp with rfl | hp
    · exact h.1
    · exact length_of_mem_zip h.2 p hp

theorem length_splitLens : ∀ (lens : List ℕ) (xs : List α), (splitLens lens xs).length = lens.length
  | [], _ => rfl
  | n :: lens, xs => by rw [splitLens, List.length_cons, length_splitLens, List.length_cons]

/-- What is read off an element and a row of its length is read off the element alone. -/
theorem map_zip_splitLens {β γ : Type*} {len : β → ℕ} {xs : List β} {flat : List α}
    (h : (xs.map len).sum ≤ flat.length) {f : β → List α → γ} {g : β → γ}
    (hfg : ∀ x row, row.length = len x → f x row = g x) :
    ((xs.zip (splitLens (xs.map len) flat)).map fun p => f p.1 p.2) = xs.map g := by
  have hlen : xs.length ≤ (splitLens (xs.map len) flat).length := by
    simp [length_splitLens]
  rw [← map_zip_left g hlen]
  exact List.map_congr_left fun p hp =>
    hfg p.1 p.2 (length_of_mem_zip (map_length_splitLens _ _ h) p hp)

/-- The rows of a list, beside the elements that ask for them. -/
theorem flatMap_zip_splitLens {β : Type*} {len : β → ℕ} {xs : List β} {flat : List α}
    (h : flat.length = (xs.map len).sum) :
    ((xs.zip (splitLens (xs.map len) flat)).flatMap fun p => p.2) = flat := by
  have hlen : (splitLens (xs.map len) flat).length ≤ xs.length := by
    simp [length_splitLens]
  rw [List.flatMap_def, List.map_snd_zip hlen, flatten_splitLens _ _ h]

/-- Two loops, one inside the other, in either order. -/
theorem flatMap_comm_perm {β γ : Type*} (ys : List β) (f : α → β → List γ) : ∀ xs : List α,
    (xs.flatMap fun x => ys.flatMap (f x)).Perm (ys.flatMap fun y => xs.flatMap fun x => f x y)
  | [] => by simp
  | x :: xs => by
    simp only [List.flatMap_cons]
    exact ((flatMap_comm_perm ys f xs).append_left _).trans (List.flatMap_append_perm ys _ _)

end DraftOpd
