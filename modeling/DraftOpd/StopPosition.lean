import DraftOpd.Overlap

/-!
# Where a block stops the request

Whether a check finishes a request, and with which output, does not depend on the
request's bookkeeping : its metadata, counters, offsets and KV lengths
(`Req.checkFinished_withBook`). So one can speak of the position in a block at which the
request stops (`Req.finishesAfter`), for a request in any bookkeeping state.

`commitLoop_stop` : the commit loop commits the tokens up to the first position that
finishes the request, or the whole block.
-/

namespace DraftOpd

namespace Req

/-- The request with the bookkeeping fields of `b`. -/
def withBook (req b : Req) : Req :=
  { req with
    finishedOutput := b.finishedOutput
    isRetracted := b.isRetracted
    retractionCount := b.retractionCount
    sendTokenOffset := b.sendTokenOffset
    customizedInfo := b.customizedInfo
    specVerifyCt := b.specVerifyCt
    specAcceptedTokens := b.specAcceptedTokens
    specAcceptanceHistogram := b.specAcceptanceHistogram
    kvCommittedLen := b.kvCommittedLen
    kvAllocatedLen := b.kvAllocatedLen }

theorem checkTokenBasedFinish_withBook (req b : Req) (ts : List ℤ) :
    (req.withBook b).checkTokenBasedFinish ts =
      (req.checkTokenBasedFinish ts).map fun r => r.withBook b := by
  unfold checkTokenBasedFinish
  split_ifs with h h' h'
  · rfl
  · exact absurd h h'
  · exact absurd h' h
  · rw [Option.map_map]
    rfl

theorem checkVocabBoundaryFinish_withBook (req b : Req) (ts : List ℤ) :
    (req.withBook b).checkVocabBoundaryFinish ts =
      (req.checkVocabBoundaryFinish ts).map fun r => r.withBook b := by
  unfold checkVocabBoundaryFinish
  rw [Option.map_map]
  rfl

theorem checkStrBasedFinish_withBook (req b : Req) :
    (req.withBook b).checkStrBasedFinish =
      req.checkStrBasedFinish.map fun r => r.withBook b := by
  unfold checkStrBasedFinish
  have htail : (req.withBook b).tailStr = req.tailStr := rfl
  simp only [htail]
  cases hfind : req.samplingParams.stopStrs.find? fun s =>
    isSubstring s req.tailStr || isSubstring s req.decodedText with
  | some s =>
    simp only [withBook, hfind]
    rfl
  | none =>
    simp only [withBook, hfind, Option.map_map]
    rfl

/-- A check does not look at the bookkeeping. -/
theorem checkFinished_withBook (req b : Req) (n : ℕ) :
    (req.withBook b).checkFinished n = (req.checkFinished n).withBook b := by
  by_cases h : req.finished = true
  · have h' : (req.withBook b).finished = true := h
    rw [checkFinished_of_finished h, checkFinished_of_finished h']
  have hfin : (req.withBook b).finished = req.finished := rfl
  have hto : (req.withBook b).toFinish = req.toFinish := rfl
  have hout : (req.withBook b).outputIds = req.outputIds := rfl
  unfold checkFinished
  rw [hfin, if_neg h, if_neg h, hto]
  cases req.toFinish with
  | some reason => rfl
  | none =>
    simp only
    rw [apply_ite fun r : Req => r.withBook b, apply_ite fun r : Req => r.withBook b]
    refine if_congr Iff.rfl rfl (if_congr Iff.rfl rfl ?_)
    rw [hout, checkTokenBasedFinish_withBook, checkVocabBoundaryFinish_withBook,
      checkStrBasedFinish_withBook]
    cases req.checkTokenBasedFinish (lastTokens req.outputIds n) with
    | some r => rfl
    | none =>
      cases req.checkVocabBoundaryFinish (lastTokens req.outputIds n) with
      | some r => rfl
      | none => cases req.checkStrBasedFinish <;> rfl

/-- The same request up to its bookkeeping. -/
def SameCore (req req' : Req) : Prop := req.withBook req' = req'

theorem SameCore.refl (req : Req) : req.SameCore req := rfl

theorem SameCore.symm {req req' : Req} (h : req.SameCore req') : req'.SameCore req := by
  unfold SameCore at h ⊢
  rw [← h]
  rfl

theorem SameCore.trans {r₁ r₂ r₃ : Req} (h₁ : r₁.SameCore r₂) (h₂ : r₂.SameCore r₃) :
    r₁.SameCore r₃ := by
  unfold SameCore at h₁ h₂ ⊢
  rw [← h₂, ← h₁]
  rfl

theorem SameCore.checkFinished {req req' : Req} (h : req.SameCore req') (n : ℕ) :
    (req.checkFinished n).SameCore (req'.checkFinished n) := by
  unfold SameCore at h ⊢
  rw [← h, checkFinished_withBook]
  rfl

theorem SameCore.finished_eq {req req' : Req} (h : req.SameCore req') :
    req'.finished = req.finished := by
  rw [← show req.withBook req' = req' from h]
  rfl

theorem SameCore.outputIds_eq {req req' : Req} (h : req.SameCore req') :
    req'.outputIds = req.outputIds := by
  rw [← show req.withBook req' = req' from h]
  rfl

theorem SameCore.through_eq {req req' : Req} (h : req.SameCore req') :
    req'.outputIdsThroughStop = req.outputIdsThroughStop := by
  rw [← show req.withBook req' = req' from h]
  rfl

theorem SameCore.grammar_eq {req req' : Req} (h : req.SameCore req') :
    req'.grammar = req.grammar := by
  rw [← show req.withBook req' = req' from h]
  rfl

/-- `req.output_ids.extend(tokens)`. -/
def appendAll (req : Req) (tokens : List ℤ) : Req :=
  { req with outputIds := req.outputIds ++ tokens }

theorem appendAll_append (req : Req) (ts us : List ℤ) :
    (req.appendAll ts).appendAll us = req.appendAll (ts ++ us) := by
  unfold appendAll
  rw [List.append_assoc]

theorem SameCore.appendAll {req req' : Req} (h : req.SameCore req') (tokens : List ℤ) :
    (req.appendAll tokens).SameCore (req'.appendAll tokens) := by
  unfold SameCore at h ⊢
  rw [← h]
  rfl

/-- The check of the last of the new tokens finishes the request. -/
def finishesAfter (req : Req) (tokens : List ℤ) : Bool :=
  ((req.appendAll tokens).checkFinished 1).finished

theorem SameCore.finishesAfter_eq {req req' : Req} (h : req.SameCore req') (tokens : List ℤ) :
    req'.finishesAfter tokens = req.finishesAfter tokens :=
  ((h.appendAll tokens).checkFinished 1).finished_eq

theorem eq_of_checkFinished_unfinished {req : Req} {n : ℕ}
    (h : (req.checkFinished n).finished = false) : req.checkFinished n = req ∧
      req.outputIds.length < req.samplingParams.maxNewTokens ∧
      req.checkTokenBasedFinish (lastTokens req.outputIds n) = none ∧
      req.checkVocabBoundaryFinish (lastTokens req.outputIds n) = none := by
  have hun : req.finished = false := by
    by_contra hne
    rw [checkFinished_of_finished (by simpa using hne)] at h
    exact hne h
  rcases checkFinished_cases hun n with
    ⟨heq, -, hlt, htok, hvoc⟩ | ⟨reason, toF, heq⟩ | ⟨-, -, heq⟩ | ⟨-, heq⟩ | ⟨-, -, heq⟩
  · exact ⟨heq, hlt, htok, hvoc⟩
  · rw [heq] at h
    cases h
  · rw [heq] at h
    cases h
  · obtain ⟨-, i, -, heq⟩ := eq_of_checkTokenBasedFinish heq
    rw [heq] at h
    cases h
  · obtain ⟨i, -, heq⟩ := eq_of_checkVocabBoundaryFinish heq
    rw [heq] at h
    cases h

/-- A second check of the same token does nothing. -/
theorem checkFinished_checkFinished (req : Req) (n : ℕ) :
    (req.checkFinished n).checkFinished n = req.checkFinished n := by
  by_cases h : (req.checkFinished n).finished = true
  · exact checkFinished_of_finished h n
  · have heq := (eq_of_checkFinished_unfinished (by simpa using h)).1
    rw [heq, heq]

/-- A token after which the request goes on is no stop token and in the vocabulary. -/
theorem stopsAt_of_not_finishesAfter {req : Req} {pre : List ℤ} {t : ℤ}
    (h : req.finishesAfter (pre ++ [t]) = false) : req.stopsAt t = false := by
  obtain ⟨-, -, htok, hvoc⟩ := eq_of_checkFinished_unfinished h
  have hlast : lastTokens (req.appendAll (pre ++ [t])).outputIds 1 = [t] := by
    rw [appendAll, ← List.append_assoc, lastTokens_snoc]
  rw [hlast] at htok hvoc
  unfold stopsAt
  rw [Bool.or_eq_false_iff]
  constructor
  · unfold checkTokenBasedFinish at htok
    split_ifs at htok with hig
    · have hig' : req.samplingParams.ignoreEos = true := hig
      simp [hig']
    · rw [Option.map_eq_none_iff, List.findIdx?_singleton] at htok
      split_ifs at htok with hm
      have hm' : ¬req.matchesEos t = true := hm
      simp [hm']
  · unfold checkVocabBoundaryFinish at hvoc
    rw [Option.map_eq_none_iff, List.findIdx?_singleton] at hvoc
    split_ifs at hvoc with hm
    have hm' : ¬req.outsideVocab t = true := hm
    simpa using hm'

end Req

/-- The commit loop commits up to the first position that finishes the request. -/
theorem commitLoop_stop : ∀ (ts : List ℤ) (req : Req) (appended k : ℕ), req.Open →
    req.grammar = none → 0 < k → k ≤ ts.length →
    (∀ n, 0 < n → n < k → req.finishesAfter (ts.take n) = false) →
    (k = ts.length ∨ req.finishesAfter (ts.take k) = true) →
    commitLoop req appended ts = ((req.appendAll (ts.take k)).checkFinished 1, appended + k)
  | [], _, _, k, _, _, hk, hle, _, _ => by
    rw [List.length_nil] at hle
    omega
  | t :: rest, req, appended, k, ho, hg, hk, hle, hbefore, hat => by
    rw [commitLoop]
    by_cases hf : ((req.append t).checkFinished 1).finished = true
    · obtain rfl : k = 1 := by
        by_contra hne
        have := hbefore 1 Nat.one_pos (by omega)
        rw [List.take_succ_cons, List.take_zero] at this
        exact absurd (this.symm.trans hf) (by simp)
      rw [if_pos hf]
      rfl
    · obtain ⟨heq, ho'⟩ := open_of_unfinished ho t (by simpa using hf)
      have hacc : (req.append t).acceptToken t = req.append t := by
        simp only [Req.acceptToken, Req.append, hg, Option.map_none]
      rw [if_neg hf, heq, hacc]
      obtain ⟨k, rfl⟩ : ∃ k', k = k' + 1 := ⟨k - 1, by omega⟩
      rcases Nat.eq_zero_or_pos k with rfl | hk'
      · have hrest : rest = [] := by
          rcases hat with hat | hat
          · rw [List.length_cons] at hat
            exact List.eq_nil_of_length_eq_zero (by omega)
          · rw [List.take_succ_cons, List.take_zero] at hat
            exact absurd hat hf
        rw [hrest, commitLoop]
        exact congrArg (fun r => (r, appended + 1)) heq.symm
      · have hfin : ∀ n, (req.append t).finishesAfter (rest.take n) =
            req.finishesAfter ((t :: rest).take (n + 1)) := fun n => by
          have := req.appendAll_append [t] (rest.take n)
          rw [Req.finishesAfter, Req.finishesAfter, List.take_succ_cons]
          exact congrArg (fun r : Req => (r.checkFinished 1).finished) this
        have hle' : k ≤ rest.length := by
          rw [List.length_cons] at hle
          omega
        have hbefore' : ∀ n, 0 < n → n < k →
            (req.append t).finishesAfter (rest.take n) = false := by
          intro n _ hlt
          rw [hfin]
          exact hbefore _ (Nat.succ_pos _) (by omega)
        have hat' : k = rest.length ∨ (req.append t).finishesAfter (rest.take k) = true := by
          rw [hfin]
          exact hat.imp (fun h => by rw [List.length_cons] at h; omega) id
        rw [commitLoop_stop rest (req.append t) (appended + 1) k ho' hg hk' hle' hbefore' hat',
          List.take_succ_cons]
        have := req.appendAll_append [t] (rest.take k)
        refine congrArg₂ Prod.mk (congrArg (fun r : Req => r.checkFinished 1) this) ?_
        omega

end DraftOpd
