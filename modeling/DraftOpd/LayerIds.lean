import Mathlib.Data.List.Pairwise
import Mathlib.Data.Rat.Floor
import Mathlib.Tactic.Linarith

/-!
# Target layers of the drafter

The drafter reads the hidden states of some layers of the target. `build_target_layer_ids` spaces
them evenly between the second layer and the last but two, and rounds. The server, the trainer and
the reference model each have a copy of it.

Python rounds a tie to the even neighbour (`roundHalfEven`), so two points one apart may round to
the same layer. Points more than one apart do not (`roundHalfEven_lt`), and points exactly one
apart are layers here : `layerSelection` gives strictly increasing ids whenever there are at least
as many layers to choose from as there are to choose.
-/

namespace DraftOpd

/-! ## Rounding -/

/-- Python's `round` on an exact rational : to the nearest integer, a tie to the even one. -/
def roundHalfEven (x : ℚ) : ℤ :=
  if x - ⌊x⌋ < 1 / 2 then ⌊x⌋
  else if 1 / 2 < x - ⌊x⌋ then ⌊x⌋ + 1
  else if ⌊x⌋ % 2 = 0 then ⌊x⌋ else ⌊x⌋ + 1

theorem roundHalfEven_le (x : ℚ) : (roundHalfEven x : ℚ) ≤ x + 1 / 2 := by
  have hfloor := Int.floor_le x
  unfold roundHalfEven
  split_ifs <;> push_cast <;> linarith

theorem le_roundHalfEven (x : ℚ) : x - 1 / 2 ≤ (roundHalfEven x : ℚ) := by
  have hfloor := Int.lt_floor_add_one x
  unfold roundHalfEven
  split_ifs <;> push_cast <;> linarith

@[simp] theorem roundHalfEven_intCast (m : ℤ) : roundHalfEven m = m := by
  unfold roundHalfEven
  rw [Int.floor_intCast, sub_self, if_pos one_half_pos]

/-- Points more than one apart round to different integers. -/
theorem roundHalfEven_lt {x y : ℚ} (h : x + 1 < y) : roundHalfEven x < roundHalfEven y := by
  have hx := roundHalfEven_le x
  have hy := le_roundHalfEven y
  have hlt : (roundHalfEven x : ℚ) < roundHalfEven y := by linarith
  exact_mod_cast hlt

/-! ## The three copies -/

/-- The `ValueError`s of the server's copy. -/
inductive LayerIdsError where
  | targetLayersNotPositive (numTargetLayers : ℤ)
  | draftLayersNotPositive (numDraftLayers : ℤ)
  | tooFewTargetLayers (numTargetLayers : ℤ)
deriving DecidableEq, Repr

/-- `int(round(start + (i * span) / (num_draft_layers - 1)))` for `i` in
`range(num_draft_layers)`, which is empty below zero. -/
def spacedLayerIds (start span numDraftLayers : ℤ) : List ℤ :=
  (List.range numDraftLayers.toNat).map fun (i : ℕ) =>
    roundHalfEven (start + (i * span : ℤ) / (numDraftLayers - 1 : ℤ))

namespace Server

/-- `build_target_layer_ids` of the server (`dflash_utils.py:393-430`). -/
def buildTargetLayerIds (numTargetLayers numDraftLayers : ℤ) : Except LayerIdsError (List ℤ) :=
  if numTargetLayers ≤ 0 then .error (.targetLayersNotPositive numTargetLayers)
  else if numDraftLayers ≤ 0 then .error (.draftLayersNotPositive numDraftLayers)
  else if numDraftLayers = 1 then .ok [numTargetLayers / 2]
  else
    let start := 1
    let stop := numTargetLayers - 3
    if stop < start then .error (.tooFewTargetLayers numTargetLayers)
    else
      let span := stop - start
      .ok (spacedLayerIds start span numDraftLayers)

end Server

namespace Trainer

/-- `build_target_layer_ids` of the trainer (`dflash_student.py:65-71`). -/
def buildTargetLayerIds (numTargetLayers numDraftLayers : ℤ) : List ℤ :=
  if numDraftLayers = 1 then [numTargetLayers / 2]
  else
    let start := 1
    let stop := numTargetLayers - 3
    let span := stop - start
    spacedLayerIds start span numDraftLayers

end Trainer

namespace Reference

/-- `build_target_layer_ids` of the reference model (`model/utils.py:7-17`). -/
def buildTargetLayerIds (numTargetLayers numDraftLayers : ℤ) : List ℤ :=
  if numDraftLayers = 1 then [numTargetLayers / 2]
  else
    let start := 1
    let stop := numTargetLayers - 3
    let span := stop - start
    let targetLayerIds := spacedLayerIds start span numDraftLayers
    targetLayerIds

end Reference

/-! ## Even spacing -/

section Spacing

variable (start span n : ℤ)

theorem getElem?_spacedLayerIds {i : ℕ} (hi : i < n.toNat) :
    (spacedLayerIds start span n)[i]? =
      some (roundHalfEven (start + (i * span : ℤ) / (n - 1 : ℤ))) := by
  rw [spacedLayerIds, List.getElem?_map, List.getElem?_range hi, Option.map_some]

@[simp] theorem length_spacedLayerIds : (spacedLayerIds start span n).length = n.toNat := by
  rw [spacedLayerIds, List.length_map, List.length_range]

variable {start span n}

theorem spacedLayerIds_first (hn : 2 ≤ n) : (spacedLayerIds start span n)[0]? = some start := by
  rw [getElem?_spacedLayerIds _ _ _ (by omega), Nat.cast_zero, zero_mul, Int.cast_zero, zero_div,
    add_zero, roundHalfEven_intCast]

theorem spacedLayerIds_last (hn : 2 ≤ n) :
    (spacedLayerIds start span n)[n.toNat - 1]? = some (start + span) := by
  have hlast : ((n.toNat - 1 : ℕ) : ℤ) = n - 1 := by omega
  have hpos : ((n - 1 : ℤ) : ℚ) ≠ 0 := by
    have hne : n - 1 ≠ 0 := by omega
    exact_mod_cast hne
  rw [getElem?_spacedLayerIds _ _ _ (by omega), hlast, Int.cast_mul, mul_div_cancel_left₀ _ hpos,
    ← Int.cast_add, roundHalfEven_intCast]

/-- With at least as many gaps as steps, the ids strictly increase. -/
theorem spacedLayerIds_pairwise (hn : 2 ≤ n) (h : n - 1 ≤ span) :
    (spacedLayerIds start span n).Pairwise (· < ·) := by
  refine List.pairwise_map.mpr (List.pairwise_lt_range.imp fun {i j} hij => ?_)
  have hpos : (0 : ℚ) < (n - 1 : ℤ) := by
    have hlt : 0 < n - 1 := by omega
    exact_mod_cast hlt
  rcases h.eq_or_lt with hstep | hstep
  · -- The points are integers : a tie cannot occur.
    have hpoint : ∀ k : ℕ, (start : ℚ) + (k * span : ℤ) / (n - 1 : ℤ) = (start + k : ℤ) := by
      intro k
      rw [← hstep, Int.cast_mul, mul_div_cancel_right₀ _ hpos.ne', Int.cast_add]
    rw [hpoint i, hpoint j, roundHalfEven_intCast, roundHalfEven_intCast]
    omega
  · refine roundHalfEven_lt ?_
    have hgap : (i * span : ℤ) + (n - 1) < (j * span : ℤ) := by
      have hmul : ((i + 1 : ℕ) : ℤ) * span ≤ (j : ℤ) * span :=
        mul_le_mul_of_nonneg_right (by exact_mod_cast hij) (by omega)
      push_cast at hmul
      linarith
    have hdiv : ((i * span : ℤ) : ℚ) / (n - 1 : ℤ) + 1 < (j * span : ℤ) / (n - 1 : ℤ) := by
      rw [lt_div_iff₀ hpos, add_mul, div_mul_cancel₀ _ hpos.ne', one_mul]
      exact_mod_cast hgap
    linarith

end Spacing

/-! ## The selection -/

/-- The layers a drafter of `numDraftLayers` layers reads of a target of `numTargetLayers`. -/
structure LayerSelection (numTargetLayers numDraftLayers : ℤ) (ids : List ℤ) : Prop where
  length_eq : (ids.length : ℤ) = numDraftLayers
  increasing : ids.Pairwise (· < ·)
  first : ids.head? = some 1
  last : ids.getLast? = some (numTargetLayers - 3)
  inside : ∀ id ∈ ids, 1 ≤ id ∧ id ≤ numTargetLayers - 3

theorem layerSelection {L n : ℤ} (hn : 2 ≤ n) (h : n - 1 ≤ L - 4) :
    LayerSelection L n (spacedLayerIds 1 (L - 3 - 1) n) := by
  have hinc : (spacedLayerIds 1 (L - 3 - 1) n).Pairwise (· < ·) :=
    spacedLayerIds_pairwise hn (by omega)
  have hfirst : (spacedLayerIds 1 (L - 3 - 1) n).head? = some 1 := by
    rw [List.head?_eq_getElem?, spacedLayerIds_first hn]
  have hlast : (spacedLayerIds 1 (L - 3 - 1) n).getLast? = some (L - 3) := by
    rw [List.getLast?_eq_getElem?, length_spacedLayerIds, spacedLayerIds_last hn,
      show 1 + (L - 3 - 1) = L - 3 by omega]
  refine ⟨by rw [length_spacedLayerIds]; omega, hinc, hfirst, hlast, fun id hid => ?_⟩
  have hle : (spacedLayerIds 1 (L - 3 - 1) n).Pairwise (· ≤ ·) := hinc.imp le_of_lt
  have hne := List.ne_nil_of_mem hid
  have hhead := hle.rel_head hid
  have hend := hle.rel_getLast hid
  rw [List.head?_eq_some_head hne, Option.some.injEq] at hfirst
  rw [List.getLast?_eq_some_getLast hne, Option.some.injEq] at hlast
  rw [hfirst] at hhead
  rw [hlast] at hend
  exact ⟨hhead, hend⟩

/-- Where the server's copy returns, it returns what the others do. -/
theorem Server.buildTargetLayerIds_eq {L n : ℤ} {ids : List ℤ}
    (h : Server.buildTargetLayerIds L n = .ok ids) : Trainer.buildTargetLayerIds L n = ids := by
  simp only [Server.buildTargetLayerIds] at h
  simp only [Trainer.buildTargetLayerIds]
  split_ifs at h ⊢ <;> exact Except.ok.inj h

/-- The server's copy returns on targets of four layers and more. -/
theorem Server.buildTargetLayerIds_ok {L n : ℤ} (hL : 4 ≤ L) (hn : 2 ≤ n) :
    Server.buildTargetLayerIds L n = .ok (spacedLayerIds 1 (L - 3 - 1) n) := by
  unfold Server.buildTargetLayerIds
  rw [if_neg (by omega), if_neg (by omega), if_neg (by omega)]
  exact if_neg (by omega)

theorem Reference.buildTargetLayerIds_eq (L n : ℤ) :
    Reference.buildTargetLayerIds L n = Trainer.buildTargetLayerIds L n := rfl

/-- The layers are strictly increasing and span the target, and the copies choose the same ones. -/
theorem buildTargetLayerIds_selects_and_agrees :
    (∀ L n : ℤ, 4 ≤ L → 2 ≤ n → n - 1 ≤ L - 4 →
      ∃ ids, Server.buildTargetLayerIds L n = .ok ids ∧ Trainer.buildTargetLayerIds L n = ids ∧
        Reference.buildTargetLayerIds L n = ids ∧ LayerSelection L n ids) ∧
    ∀ (L n : ℤ) (ids : List ℤ), Server.buildTargetLayerIds L n = .ok ids →
      Trainer.buildTargetLayerIds L n = ids ∧ Reference.buildTargetLayerIds L n = ids := by
  have hagree : ∀ (L n : ℤ) (ids : List ℤ), Server.buildTargetLayerIds L n = .ok ids →
      Trainer.buildTargetLayerIds L n = ids ∧ Reference.buildTargetLayerIds L n = ids := by
    intro L n ids h
    rw [Reference.buildTargetLayerIds_eq]
    exact ⟨Server.buildTargetLayerIds_eq h, Server.buildTargetLayerIds_eq h⟩
  refine ⟨fun L n hL hn h => ?_, hagree⟩
  have hok := Server.buildTargetLayerIds_ok hL hn
  obtain ⟨htrainer, hreference⟩ := hagree L n _ hok
  exact ⟨_, hok, htrainer, hreference, layerSelection hn h⟩

/-- A drafter of five layers on a target of thirty-six. -/
theorem buildTargetLayerIds_five_of_36 :
    Server.buildTargetLayerIds 36 5 = .ok [1, 9, 17, 25, 33] ∧
      Trainer.buildTargetLayerIds 36 5 = [1, 9, 17, 25, 33] ∧
      LayerSelection 36 5 [1, 9, 17, 25, 33] := by
  have hids : Server.buildTargetLayerIds 36 5 = .ok [1, 9, 17, 25, 33] := by decide +kernel
  obtain ⟨ids, hok, htrainer, -, hsel⟩ :=
    buildTargetLayerIds_selects_and_agrees.1 36 5 (by decide) (by decide) (by decide)
  obtain rfl := Except.ok.inj (hids.symm.trans hok)
  exact ⟨hids, htrainer, hsel⟩

end DraftOpd
