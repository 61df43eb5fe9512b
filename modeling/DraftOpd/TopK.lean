import Mathlib.Algebra.BigOperators.Field
import Mathlib.Analysis.SpecialFunctions.Exp
import Mathlib.Data.Fin.Tuple.Sort
import Mathlib.Data.Fin.Tuple.Basic

/-!
# Top-k of a distribution

Rows over `Fin n`. `softmax` turns logits into a distribution ; a logit of `⊥` stands for minus
infinity and gets no mass. `keepTop` keeps the `k` largest entries of a row and renormalises
them, and `topIndices` lists the positions of the `k` largest entries, the largest first.

Taking the softmax of the `K` largest logits with all but the first `k` of them masked, and
scattering it back, is `keepTop` of the softmax of the row (`extend_topIndices_softmax`). An
operation on rows that commutes with permutations and with appending a zero commutes with the
scattering (`Equivariant.extend_topIndices`).
-/

namespace DraftOpd

open Finset

/-! ## Softmax -/

/-- The weight of a logit. -/
noncomputable def expWeight : WithBot ℝ → ℝ
  | ⊥ => 0
  | (x : ℝ) => Real.exp x

/-- `softmax`, over the weights of the logits. -/
noncomputable def softmax {n : ℕ} (logits : Fin n → WithBot ℝ) (i : Fin n) : ℝ :=
  expWeight (logits i) / ∑ j, expWeight (logits j)

@[simp] theorem expWeight_bot : expWeight ⊥ = 0 := rfl

@[simp] theorem expWeight_coe (x : ℝ) : expWeight (x : WithBot ℝ) = Real.exp x := rfl

theorem softmax_coe {n : ℕ} (x : Fin n → ℝ) (i : Fin n) :
    softmax (fun j => (x j : WithBot ℝ)) i = Real.exp (x i) / ∑ j, Real.exp (x j) := rfl

theorem sum_exp_pos {n : ℕ} (x : Fin n → ℝ) (i : Fin n) : 0 < ∑ j, Real.exp (x j) :=
  sum_pos (fun j _ => Real.exp_pos (x j)) ⟨i, mem_univ i⟩

theorem softmax_pos {n : ℕ} (x : Fin n → ℝ) (i : Fin n) :
    0 < softmax (fun j => (x j : WithBot ℝ)) i := by
  rw [softmax_coe]
  exact div_pos (Real.exp_pos _) (sum_exp_pos x i)

theorem softmax_lt_iff {n : ℕ} (x : Fin n → ℝ) (i j : Fin n) :
    softmax (fun j => (x j : WithBot ℝ)) i < softmax (fun j => (x j : WithBot ℝ)) j ↔
      x i < x j := by
  rw [softmax_coe, softmax_coe, div_lt_div_iff_of_pos_right (sum_exp_pos x i), Real.exp_lt_exp]

theorem softmax_injective {n : ℕ} {x : Fin n → ℝ} (hx : Function.Injective x) :
    Function.Injective (softmax fun j => (x j : WithBot ℝ)) := by
  intro i j hij
  have hlt := softmax_lt_iff x i j
  have hgt := softmax_lt_iff x j i
  rw [hij] at hlt hgt
  exact hx (le_antisymm (not_lt.mp fun h => lt_irrefl _ (hgt.mpr h))
    (not_lt.mp fun h => lt_irrefl _ (hlt.mpr h)))

/-! ## The largest entries of a row -/

/-- The number of entries above an entry. -/
noncomputable def rank {n : ℕ} (x : Fin n → ℝ) (i : Fin n) : ℕ := #{j | x i < x j}

/-- Keep the `k` largest entries and renormalise them. -/
noncomputable def keepTop {n : ℕ} (p : Fin n → ℝ) (k : ℕ) (i : Fin n) : ℝ :=
  if rank p i < k then p i / ∑ j with rank p j < k, p j else 0

/-- The positions of the entries, the largest first. -/
noncomputable def descending {n : ℕ} (x : Fin n → ℝ) : Equiv.Perm (Fin n) :=
  Tuple.sort fun i => -x i

/-- The positions of the `k` largest entries, the largest first. -/
noncomputable def topIndices {n k : ℕ} (x : Fin n → ℝ) (h : k ≤ n) (r : Fin k) : Fin n :=
  descending x (Fin.castLE h r)

variable {n : ℕ} {x : Fin n → ℝ}

theorem descending_lt_iff (hx : Function.Injective x) (r s : Fin n) :
    x (descending x r) < x (descending x s) ↔ s < r := by
  have hmono : Monotone fun r => -x (descending x r) := Tuple.monotone_sort fun i => -x i
  have hanti : ∀ r s : Fin n, s < r → x (descending x r) < x (descending x s) := by
    intro r s hsr
    refine lt_of_le_of_ne (neg_le_neg_iff.mp (hmono hsr.le)) fun heq => ?_
    exact hsr.ne' ((descending x).injective (hx heq))
  refine ⟨fun h => ?_, hanti r s⟩
  by_contra hle
  rcases (not_lt.mp hle).lt_or_eq with hlt | rfl
  · exact lt_asymm h (hanti s r hlt)
  · exact lt_irrefl _ h

/-- The entry listed at position `r` is below the `r` before it. -/
theorem rank_descending (hx : Function.Injective x) (r : Fin n) : rank x (descending x r) = r := by
  have himage : ({j | x (descending x r) < x j} : Finset (Fin n)) =
      (Iio r).map (descending x).toEmbedding := by
    ext j
    obtain ⟨s, rfl⟩ := (descending x).surjective j
    simp [descending_lt_iff hx]
  rw [rank, himage, card_map, Fin.card_Iio]

theorem rank_softmax (x : Fin n → ℝ) (i : Fin n) :
    rank (softmax fun j => (x j : WithBot ℝ)) i = rank x i := by
  simp only [rank, softmax_lt_iff]

/-- What `keepTop` leaves of the softmax at the entry listed at position `r`. -/
theorem keepTop_softmax_descending (hx : Function.Injective x) (k : ℕ) (r : Fin n) :
    keepTop (softmax fun j => (x j : WithBot ℝ)) k (descending x r) = if (r : ℕ) < k then
      Real.exp (x (descending x r)) /
        ∑ s : Fin n, (if (s : ℕ) < k then Real.exp (x (descending x s)) else 0) else 0 := by
  have hsum : (∑ j with rank x j < k, softmax (fun j => (x j : WithBot ℝ)) j) =
      (∑ s : Fin n, (if (s : ℕ) < k then Real.exp (x (descending x s)) else 0)) /
        ∑ j, Real.exp (x j) := by
    rw [sum_filter, ← Equiv.sum_comp (descending x), sum_div]
    refine sum_congr rfl fun s _ => ?_
    rw [rank_descending hx, softmax_coe]
    split_ifs
    · rfl
    · exact (zero_div _).symm
  simp only [keepTop, rank_softmax]
  rw [rank_descending hx, hsum, softmax_coe]
  split_ifs
  · exact div_div_div_cancel_right₀ (sum_exp_pos x (descending x r)).ne' _ _
  · rfl

/-- The logits listed first, all but the first `k` of them masked. -/
noncomputable def topLogits {K : ℕ} (x : Fin n → ℝ) (h : K ≤ n) (k : ℕ) (r : Fin K) : WithBot ℝ :=
  if (r : ℕ) < k then (x (topIndices x h r) : WithBot ℝ) else ⊥

theorem softmax_topLogits {K k : ℕ} (x : Fin n → ℝ) (h : K ≤ n) (r : Fin K) :
    softmax (topLogits x h k) r = if (r : ℕ) < k then
      Real.exp (x (topIndices x h r)) /
        ∑ s : Fin K, (if (s : ℕ) < k then Real.exp (x (topIndices x h s)) else 0) else 0 := by
  have hweight : ∀ s : Fin K, expWeight (topLogits x h k s) =
      if (s : ℕ) < k then Real.exp (x (topIndices x h s)) else 0 := by
    intro s
    unfold topLogits
    split_ifs <;> rfl
  simp only [softmax, hweight]
  split_ifs
  · rfl
  · exact zero_div _

theorem topIndices_injective {K : ℕ} (x : Fin n → ℝ) (h : K ≤ n) :
    Function.Injective (topIndices x h) :=
  (descending x).injective.comp (Fin.castLE_injective h)

/-- A sum over the first positions of a list that is zero after them. -/
theorem sum_castLE {K : ℕ} (h : K ≤ n) {f : Fin n → ℝ} (hf : ∀ s : Fin n, K ≤ (s : ℕ) → f s = 0) :
    ∑ s : Fin K, f (Fin.castLE h s) = ∑ s, f s := by
  obtain ⟨d, rfl⟩ := Nat.exists_eq_add_of_le h
  rw [Fin.sum_univ_add]
  have hzero : ∑ s : Fin d, f (Fin.natAdd K s) = 0 := sum_eq_zero fun s _ => hf _ (by simp)
  rw [hzero, add_zero]
  rfl

/-- Scattering the softmax of the masked logits keeps the `k` largest entries of the softmax of
the row, as long as no kept entry lies past the list. -/
theorem extend_topIndices_softmax (hx : Function.Injective x) {K k : ℕ} (h : K ≤ n)
    (hk : min k n ≤ K) :
    Function.extend (topIndices x h) (softmax (topLogits x h k)) 0 =
      keepTop (softmax fun j => (x j : WithBot ℝ)) k := by
  funext i
  obtain ⟨r, rfl⟩ := (descending x).surjective i
  have hsum : (∑ s : Fin K, (if (s : ℕ) < k then Real.exp (x (topIndices x h s)) else 0)) =
      ∑ s : Fin n, (if (s : ℕ) < k then Real.exp (x (descending x s)) else 0) :=
    sum_castLE h (f := fun s : Fin n => if (s : ℕ) < k then Real.exp (x (descending x s)) else 0)
      fun s hs => if_neg (by omega)
  rw [keepTop_softmax_descending hx]
  by_cases hr : (r : ℕ) < K
  · have hindex : descending x r = topIndices x h ⟨r, hr⟩ := rfl
    rw [hindex, (topIndices_injective x h).extend_apply, softmax_topLogits, hsum]
  · rw [Function.extend_apply', if_neg (by omega), Pi.zero_apply]
    rintro ⟨s, hs⟩
    have hsr := congrArg Fin.val ((descending x).injective hs)
    exact hr (hsr ▸ s.isLt)

/-! ## Operations on rows -/

/-- An operation on rows of every length that commutes with permutations and with appending a
zero. -/
structure Equivariant (op : (n : ℕ) → (Fin n → ℝ) → Fin n → ℝ) : Prop where
  perm : ∀ (n : ℕ) (σ : Equiv.Perm (Fin n)) (p : Fin n → ℝ), op n (p ∘ σ) = op n p ∘ σ
  snoc_zero : ∀ (n : ℕ) (p : Fin n → ℝ),
    op (n + 1) (Fin.snoc (α := fun _ => ℝ) p 0) = Fin.snoc (α := fun _ => ℝ) (op n p) 0

namespace Equivariant

variable {op : (n : ℕ) → (Fin n → ℝ) → Fin n → ℝ}

theorem snoc_zero_zero (d : ℕ) :
    (0 : Fin (d + 1) → ℝ) = Fin.snoc (α := fun _ => ℝ) (0 : Fin d → ℝ) 0 := by
  funext i
  refine Fin.lastCases ?_ (fun j => ?_) i
  · rw [Fin.snoc_last, Pi.zero_apply]
  · rw [Fin.snoc_castSucc, Pi.zero_apply, Pi.zero_apply]

theorem append_zero (hop : Equivariant op) {m : ℕ} (p : Fin m → ℝ) : ∀ d : ℕ,
    op (m + d) (Fin.append p (0 : Fin d → ℝ)) = Fin.append (op m p) (0 : Fin d → ℝ)
  | 0 => by
    rw [Fin.append_right_nil p 0 rfl, Fin.append_right_nil (op m p) 0 rfl]
    rfl
  | d + 1 => by
    rw [snoc_zero_zero, Fin.append_snoc, Fin.append_snoc, ← hop.append_zero p d]
    exact hop.snoc_zero _ _

/-- Scattering after the operation is scattering before it. -/
theorem extend_topIndices (hop : Equivariant op) {K : ℕ} (x : Fin n → ℝ) (h : K ≤ n)
    (p : Fin K → ℝ) :
    Function.extend (topIndices x h) (op K p) 0 = op n (Function.extend (topIndices x h) p 0) := by
  obtain ⟨d, rfl⟩ := Nat.exists_eq_add_of_le h
  have hscatter : ∀ q : Fin K → ℝ, Function.extend (topIndices x h) q 0 =
      Fin.append q (0 : Fin d → ℝ) ∘ (descending x).symm := by
    intro q
    funext i
    obtain ⟨r, rfl⟩ := (descending x).surjective i
    rw [Function.comp_apply, Equiv.symm_apply_apply]
    refine Fin.addCases (fun s => ?_) (fun s => ?_) r
    · rw [Fin.append_left]
      exact (topIndices_injective x h).extend_apply q 0 s
    · rw [Fin.append_right, Function.extend_apply', Pi.zero_apply, Pi.zero_apply]
      rintro ⟨s', hs'⟩
      have hval := congrArg Fin.val ((descending x).injective hs')
      have hlt : ((Fin.castLE h s' : Fin (K + d)) : ℕ) < K := s'.isLt
      rw [hval, Fin.val_natAdd] at hlt
      omega
  rw [hscatter, hscatter, hop.perm, hop.append_zero]

end Equivariant

end DraftOpd
