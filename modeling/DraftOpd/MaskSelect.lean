import Mathlib.Data.List.Sort

/-!
# Selection by a boolean mask

`xs[mask]` keeps the entries where the mask holds (`maskSelect`). They are the entries at the
positions of the mask, in order (`maskSelect_eq`), and an increasing list of positions that the
mask marks is the list of all of them (`maskIndices_eq`) : an entry of the selection is found by
counting, without looking at the mask (`getElem?_maskSelect`).
-/

namespace DraftOpd

variable {α β : Type*}

/-- `xs[mask]`. -/
def maskSelect (xs : List α) (mask : List Bool) : List α :=
  ((xs.zip mask).filter Prod.snd).map Prod.fst

/-- The positions a mask marks. -/
def maskIndices (mask : List Bool) : List ℕ :=
  (List.range mask.length).filter fun i => mask.getD i false

theorem maskSelect_cons (x : α) (xs : List α) (b : Bool) (mask : List Bool) :
    maskSelect (x :: xs) (b :: mask) =
      if b then x :: maskSelect xs mask else maskSelect xs mask := by
  cases b <;> rfl

theorem maskIndices_cons (b : Bool) (mask : List Bool) :
    maskIndices (b :: mask) =
      if b then 0 :: (maskIndices mask).map (· + 1) else (maskIndices mask).map (· + 1) := by
  have htail : (((List.range mask.length).map Nat.succ).filter fun i => (b :: mask).getD i false) =
      (maskIndices mask).map (· + 1) := by
    rw [List.filter_map]
    rfl
  rw [maskIndices, List.length_cons, List.range_succ_eq_map, List.filter_cons, htail,
    List.getD_cons_zero]

theorem mem_maskIndices {mask : List Bool} {i : ℕ} :
    i ∈ maskIndices mask ↔ mask[i]? = some true := by
  rw [maskIndices, List.mem_filter, List.mem_range, List.getD_eq_getElem?_getD]
  constructor
  · rintro ⟨hi, h⟩
    rw [List.getElem?_eq_getElem hi, Option.getD_some] at h
    rw [List.getElem?_eq_getElem hi, h]
  · intro h
    exact ⟨(List.getElem?_eq_some_iff.mp h).1, by rw [h, Option.getD_some]⟩

theorem pairwise_maskIndices (mask : List Bool) : (maskIndices mask).Pairwise (· < ·) :=
  List.Pairwise.filter _ List.pairwise_lt_range

theorem length_maskIndices (mask : List Bool) : (maskIndices mask).length = mask.count true := by
  induction mask with
  | nil => rfl
  | cons b mask ih =>
    rw [maskIndices_cons, List.count_cons]
    cases b <;> simp [ih]

/-- The only increasing list of the positions a mask marks. -/
theorem maskIndices_eq {mask : List Bool} {ids : List ℕ} (hinc : ids.Pairwise (· < ·))
    (hmem : ∀ i, i ∈ ids ↔ mask[i]? = some true) : maskIndices mask = ids :=
  (pairwise_maskIndices mask).eq_of_mem_iff hinc fun i => by rw [mem_maskIndices, hmem]

/-- The selection reads the marked positions in order. -/
theorem maskSelect_eq {xs : List α} {mask : List Bool} (h : xs.length = mask.length) :
    (maskSelect xs mask).map some = (maskIndices mask).map (xs[·]?) := by
  induction xs generalizing mask with
  | nil =>
    obtain rfl := List.eq_nil_of_length_eq_zero h.symm
    rfl
  | cons x xs ih =>
    cases mask with
    | nil => cases h
    | cons b mask =>
      have htail : ((maskIndices mask).map (· + 1)).map ((x :: xs)[·]?) =
          (maskSelect xs mask).map some := by
        rw [ih (by simpa using h), List.map_map]
        rfl
      rw [maskSelect_cons, maskIndices_cons]
      cases b with
      | false => exact htail.symm
      | true =>
        simp only [if_true, List.map_cons, List.getElem?_cons_zero]
        rw [htail]

/-- Column `k` of the selection is the entry at the `k`-th marked position. -/
theorem getElem?_maskSelect {xs : List α} {mask : List Bool} (h : xs.length = mask.length)
    {k i : ℕ} (hi : (maskIndices mask)[k]? = some i) : (maskSelect xs mask)[k]? = xs[i]? := by
  have hk := congrArg (·[k]?) (maskSelect_eq h)
  simp only [List.getElem?_map, hi, Option.map_some] at hk
  cases hsel : (maskSelect xs mask)[k]? with
  | none => rw [hsel] at hk; cases hk
  | some x =>
    rw [hsel, Option.map_some, Option.some.injEq] at hk
    exact hk

theorem length_maskSelect {xs : List α} {mask : List Bool} (h : xs.length = mask.length) :
    (maskSelect xs mask).length = (maskIndices mask).length := by
  simpa using congrArg List.length (maskSelect_eq h)

theorem maskSelect_append {xs ys : List α} {mask mask' : List Bool}
    (h : xs.length = mask.length) :
    maskSelect (xs ++ ys) (mask ++ mask') = maskSelect xs mask ++ maskSelect ys mask' := by
  rw [maskSelect, List.zip_append h, List.filter_append, List.map_append]
  rfl

/-- Entries and mask computed from one list. -/
theorem maskSelect_map (f : α → β) (p : α → Bool) (xs : List α) :
    maskSelect (xs.map f) (xs.map p) = (xs.filter p).map f := by
  rw [maskSelect, List.zip_map', List.filter_map, List.map_map]
  rfl

/-- Rows selected by masks of their own. -/
theorem maskSelect_flatMap {f : α → List β} {m : α → List Bool} :
    ∀ {xs : List α}, (∀ x ∈ xs, (f x).length = (m x).length) →
      maskSelect (xs.flatMap f) (xs.flatMap m) = xs.flatMap fun x => maskSelect (f x) (m x)
  | [], _ => rfl
  | x :: xs, h => by
    rw [List.flatMap_cons, List.flatMap_cons, List.flatMap_cons,
      maskSelect_append (h x List.mem_cons_self),
      maskSelect_flatMap fun y hy => h y (List.mem_cons_of_mem _ hy)]

/-- A mask that holds everywhere keeps everything. -/
theorem maskSelect_map_true {xs : List α} {ys : List β} {p : β → Bool} (hp : ∀ y ∈ ys, p y = true)
    (h : xs.length = ys.length) : maskSelect xs (ys.map p) = xs := by
  induction xs generalizing ys with
  | nil => rfl
  | cons x xs ih =>
    cases ys with
    | nil => cases h
    | cons y ys =>
      rw [List.map_cons, maskSelect_cons, if_pos (hp y List.mem_cons_self),
        ih (fun z hz => hp z (List.mem_cons_of_mem _ hz)) (by simpa using h)]

end DraftOpd
