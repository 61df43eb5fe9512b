import Mathlib.Algebra.GroupWithZero.Nat
import Mathlib.Order.Nat
import Mathlib.Data.List.GetD
import Mathlib.Data.List.Nodup
import Mathlib.Data.List.Flatten
import Mathlib.Algebra.BigOperators.Group.List.Basic

/-!
# Page tables

A sequence of positions is stored in pages of `P` slots. Its table lists the page of each
group of `P` positions, so position `p` has slot `slotOf P table p`, and `n` positions need
`pagesFor P n` pages. Slots of a table without repeated pages are distinct (`slotOf_inj`).

Several tables are grown from one list of free pages by `deal`, which hands out the pages
in order. What is dealt and what is left are the free pages (`flatten_deal`).
-/

namespace DraftOpd

section Slots

variable {P : ℕ}

/-- The pages `n` positions need. -/
def pagesFor (P n : ℕ) : ℕ := (n + P - 1) / P

theorem lt_pagesFor_iff (hP : 0 < P) {j n : ℕ} : j < pagesFor P n ↔ j * P < n := by
  rw [pagesFor, ← Nat.succ_le_iff, Nat.le_div_iff_mul_le hP, Nat.succ_mul]
  omega

theorem pagesFor_le_iff (hP : 0 < P) {j n : ℕ} : pagesFor P n ≤ j ↔ n ≤ j * P := by
  rw [← not_lt, lt_pagesFor_iff hP, not_lt]

theorem le_pagesFor_mul (hP : 0 < P) (n : ℕ) : n ≤ pagesFor P n * P :=
  (pagesFor_le_iff hP).mp le_rfl

theorem pagesFor_mono {m n : ℕ} (h : m ≤ n) : pagesFor P m ≤ pagesFor P n :=
  Nat.div_le_div_right (by omega)

theorem div_lt_pagesFor (hP : 0 < P) {p n : ℕ} (h : p < n) : p / P < pagesFor P n :=
  (lt_pagesFor_iff hP).mpr ((Nat.div_mul_le_self p P).trans_lt h)

/-- `n` more positions need at most `n / P + 1` more pages. -/
theorem pagesFor_add_le (hP : 0 < P) (m n : ℕ) : pagesFor P (m + n) ≤ pagesFor P m + n / P + 1 := by
  have hm := le_pagesFor_mul hP m
  have hn := Nat.lt_mul_div_succ n hP
  rw [pagesFor_le_iff hP, Nat.add_assoc, Nat.add_mul, Nat.mul_comm (n / P + 1)]
  omega

/-- The slot of a position. -/
def slotOf (P : ℕ) (table : List ℕ) (p : ℕ) : ℕ := table.getD (p / P) 0 * P + p % P

theorem slotOf_div (hP : 0 < P) (table : List ℕ) (p : ℕ) :
    slotOf P table p / P = table.getD (p / P) 0 := by
  rw [slotOf, Nat.mul_comm, Nat.mul_add_div hP, Nat.div_eq_of_lt (Nat.mod_lt p hP), Nat.add_zero]

theorem slotOf_mod (table : List ℕ) (p : ℕ) : slotOf P table p % P = p % P := by
  rw [slotOf, Nat.mul_comm, Nat.mul_add_mod, Nat.mod_mod]

theorem slotOf_append {table : List ℕ} {p : ℕ} (h : p / P < table.length) (new : List ℕ) :
    slotOf P (table ++ new) p = slotOf P table p := by
  rw [slotOf, slotOf, List.getD_append _ _ _ _ h]

theorem slotOf_take {table : List ℕ} {p k : ℕ} (h : p / P < k) :
    slotOf P (table.take k) p = slotOf P table p := by
  simp only [slotOf, List.getD_eq_getElem?_getD, List.getElem?_take, if_pos h]

/-- The page of a position is in the table. -/
theorem page_mem {table : List ℕ} (hP : 0 < P) {p : ℕ} (h : p / P < table.length) :
    slotOf P table p / P ∈ table := by
  rw [slotOf_div hP, List.getD_eq_getElem _ _ h]
  exact List.getElem_mem h

theorem slotOf_inj {table : List ℕ} (hP : 0 < P) (hnd : table.Nodup) {p q : ℕ}
    (hp : p / P < table.length) (hq : q / P < table.length)
    (h : slotOf P table p = slotOf P table q) : p = q := by
  have hmod : p % P = q % P := by rw [← slotOf_mod table p, h, slotOf_mod]
  have hdiv : table.getD (p / P) 0 = table.getD (q / P) 0 := by
    rw [← slotOf_div hP, h, slotOf_div hP]
  rw [List.getD_eq_getElem _ _ hp, List.getD_eq_getElem _ _ hq, hnd.getElem_inj_iff] at hdiv
  rw [← Nat.div_add_mod p P, ← Nat.div_add_mod q P, hdiv, hmod]

/-- Slots of one page follow each other. -/
theorem slotOf_add (table : List ℕ) {p q : ℕ} (hle : p ≤ q) (h : p / P = q / P) :
    slotOf P table q = slotOf P table p + (q - p) := by
  have hp := Nat.div_add_mod p P
  have hq := Nat.div_add_mod q P
  rw [h] at hp
  rw [slotOf, slotOf, h]
  omega

/-- The positions of the page that `n` positions end in. -/
theorem div_eq_of_partial_page (hP : 0 < P) {n p : ℕ} (hle : n ≤ p + 1) (hpos : 0 < n)
    (hlt : p < pagesFor P n * P) : p / P = pagesFor P n - 1 := by
  have hk : pagesFor P n - 1 < pagesFor P n := by
    have : 0 < pagesFor P n := (lt_pagesFor_iff hP).mpr (by omega)
    omega
  have hlow := (lt_pagesFor_iff hP).mp hk
  refine Nat.div_eq_of_lt_le (by omega) ?_
  rw [Nat.sub_add_cancel (by omega)]
  exact hlt

/-- The slots of the positions from `m` to `n`. -/
def slotsFrom (P : ℕ) (table : List ℕ) (m n : ℕ) : List ℕ :=
  (List.range' m (n - m)).map (slotOf P table)

theorem slotsFrom_eq (table : List ℕ) (m n : ℕ) :
    slotsFrom P table m n = (List.range (n - m)).map fun o => slotOf P table (m + o) := by
  rw [slotsFrom, List.range'_eq_map_range, List.map_map]
  rfl

@[simp] theorem length_slotsFrom (table : List ℕ) (m n : ℕ) :
    (slotsFrom P table m n).length = n - m := by
  simp [slotsFrom]

theorem mem_slotsFrom {table : List ℕ} {m n s : ℕ} :
    s ∈ slotsFrom P table m n ↔ ∃ p, m ≤ p ∧ p < n ∧ slotOf P table p = s := by
  simp only [slotsFrom, List.mem_map, List.mem_range'_1]
  constructor
  · rintro ⟨p, hp, rfl⟩
    exact ⟨p, by omega, by omega, rfl⟩
  · rintro ⟨p, hm, hn, rfl⟩
    exact ⟨p, by omega, rfl⟩

theorem getD_slotsFrom (table : List ℕ) {m n p : ℕ} (hm : m ≤ p) (hn : p < n) :
    (slotsFrom P table m n).getD (p - m) 0 = slotOf P table p := by
  rw [List.getD_eq_getElem _ _ (by rw [length_slotsFrom]; omega)]
  simp only [slotsFrom, List.getElem_map, List.getElem_range', Nat.one_mul]
  rw [Nat.add_sub_cancel' hm]

theorem slotsFrom_append (table : List ℕ) {m k n : ℕ} (hmk : m ≤ k) (hkn : k ≤ n) :
    slotsFrom P table m k ++ slotsFrom P table k n = slotsFrom P table m n := by
  have hlen : n - m = (k - m) + (n - k) := by omega
  have hk : k = m + 1 * (k - m) := by omega
  rw [slotsFrom, slotsFrom, slotsFrom, hlen, ← List.range'_append, List.map_append, ← hk]

theorem drop_slotsFrom (table : List ℕ) (m n k : ℕ) :
    (slotsFrom P table m n).drop k = slotsFrom P table (m + k) n := by
  rw [slotsFrom, slotsFrom, ← List.map_drop, List.drop_range', Nat.mul_one, Nat.sub_sub]

theorem take_slotsFrom (table : List ℕ) {m n k : ℕ} (h : m + k ≤ n) :
    (slotsFrom P table m n).take k = slotsFrom P table m (m + k) := by
  rw [← slotsFrom_append table (Nat.le_add_right m k) h]
  exact List.take_left' (by rw [length_slotsFrom]; omega)

/-- The pages of the positions from page `k` on. -/
theorem mem_pages_slotsFrom {table : List ℕ} (hP : 0 < P) {n : ℕ}
    (hlen : table.length = pagesFor P n) (k g : ℕ) :
    g ∈ (slotsFrom P table (min (k * P) n) n).map (· / P) ↔ g ∈ table.drop k := by
  rw [List.mem_map]
  constructor
  · rintro ⟨s, hs, rfl⟩
    obtain ⟨p, hmin, hpn, rfl⟩ := mem_slotsFrom.mp hs
    have hk : k ≤ p / P := (Nat.le_div_iff_mul_le hP).mpr (by omega)
    have hlt : p / P < table.length := hlen ▸ div_lt_pagesFor hP hpn
    rw [slotOf_div hP, List.getD_eq_getElem _ _ hlt, List.mem_drop_iff_getElem]
    exact ⟨p / P - k, by omega, by simp only [Nat.add_sub_cancel' hk]⟩
  · intro hg
    obtain ⟨i, hi, rfl⟩ := List.mem_drop_iff_getElem.mp hg
    have hpos : (k + i) * P < n := (lt_pagesFor_iff hP).mp (by omega)
    have hle : k * P ≤ (k + i) * P := Nat.mul_le_mul_right P (Nat.le_add_right k i)
    refine ⟨slotOf P table ((k + i) * P), mem_slotsFrom.mpr ⟨_, by omega, hpos, rfl⟩, ?_⟩
    simp only [slotOf_div hP, Nat.mul_div_cancel _ hP]
    rw [List.getD_eq_getElem _ _ (by omega)]

theorem nodup_slotsFrom {table : List ℕ} (hP : 0 < P) (hnd : table.Nodup) {m n : ℕ}
    (hlen : pagesFor P n ≤ table.length) : (slotsFrom P table m n).Nodup := by
  refine List.Nodup.map_on (fun p hp q hq heq => ?_) (List.nodup_range' ..)
  rw [List.mem_range'_1] at hp hq
  have hp' := div_lt_pagesFor hP (by omega : p < n)
  have hq' := div_lt_pagesFor hP (by omega : q < n)
  exact slotOf_inj hP hnd (hp'.trans_le hlen) (hq'.trans_le hlen) heq

/-- Tables that share no page share no slot. -/
theorem nodup_flatMap_slotsFrom {α : Type*} (hP : 0 < P) {xs : List α} {table : α → List ℕ}
    {lo hi : α → ℕ} (hnd : (xs.flatMap table).Nodup)
    (hlen : ∀ x ∈ xs, pagesFor P (hi x) ≤ (table x).length) :
    (xs.flatMap fun x => slotsFrom P (table x) (lo x) (hi x)).Nodup := by
  rw [List.nodup_flatMap] at hnd ⊢
  refine ⟨fun x hx => nodup_slotsFrom hP (hnd.1 x hx) (hlen x hx), ?_⟩
  have hpage : ∀ x ∈ xs, ∀ s ∈ slotsFrom P (table x) (lo x) (hi x), s / P ∈ table x := by
    intro x hx s hs
    obtain ⟨p, -, hp, rfl⟩ := mem_slotsFrom.mp hs
    exact page_mem hP ((div_lt_pagesFor hP hp).trans_le (hlen x hx))
  refine hnd.2.imp_of_mem fun {x y} hx hy hdisj s hs hs' => ?_
  exact hdisj (hpage x hx s hs) (hpage y hy s hs')

end Slots

section Deal

open scoped List

variable {α β : Type*} (need : α → ℕ)

/-- Hand out to everyone what it needs, in order. -/
def deal : List β → List α → List (α × List β)
  | _, [] => []
  | free, a :: as => (a, free.take (need a)) :: deal (free.drop (need a)) as

theorem map_fst_deal : ∀ (free : List β) (as : List α), (deal need free as).map Prod.fst = as
  | _, [] => rfl
  | free, a :: as => by rw [deal, List.map_cons, map_fst_deal]

theorem length_of_mem_deal : ∀ {free : List β} {as : List α}, (as.map need).sum ≤ free.length →
    ∀ x ∈ deal need free as, x.2.length = need x.1
  | free, a :: as, h, x, hx => by
    rw [List.map_cons, List.sum_cons] at h
    rcases List.mem_cons.mp hx with rfl | hx
    · simp only [List.length_take]
      omega
    · exact length_of_mem_deal (by rw [List.length_drop]; omega) x hx

theorem flatten_deal : ∀ (free : List β) (as : List α),
    (deal need free as).flatMap Prod.snd = free.take (as.map need).sum
  | _, [] => rfl
  | free, a :: as => by
    rw [deal, List.flatMap_cons, flatten_deal, List.map_cons, List.sum_cons, List.take_add]

/-- What is left and what everyone has then is what there was. -/
theorem perm_deal (table : α → List β) (free : List β) (as : List α) :
    (free.drop (as.map need).sum ++ (deal need free as).flatMap fun x => table x.1 ++ x.2).Perm
      (free ++ as.flatMap table) := by
  have hold : (deal need free as).flatMap (fun x => table x.1) = as.flatMap table := by
    conv_rhs => rw [← map_fst_deal need free as, List.flatMap_map]
  have hsplit := (deal need free as).flatMap_append_perm (fun x => table x.1) Prod.snd
  rw [hold, flatten_deal] at hsplit
  calc free.drop (as.map need).sum ++ (deal need free as).flatMap (fun x => table x.1 ++ x.2)
      ~ free.drop (as.map need).sum ++ (as.flatMap table ++ free.take (as.map need).sum) :=
        hsplit.symm.append_left _
    _ ~ (as.flatMap table ++ free.take (as.map need).sum) ++ free.drop (as.map need).sum :=
        List.perm_append_comm
    _ = as.flatMap table ++ free := by rw [List.append_assoc, List.take_append_drop]
    _ ~ free ++ as.flatMap table := List.perm_append_comm

end Deal

end DraftOpd
