import DraftOpd.Autoregress
import DraftOpd.Verify

/-!
# Greedy speculative decoding is lossless

The target is an arbitrary `next` on token lists. The row of a verify step on a request
holds the current token, arbitrary drafted tokens, and at each row `next` of the prompt,
the output and the drafts before it (`greedyRow`). A run applies `verifyReq` to the rows
of arbitrary drafts (`greedyRun`).

`greedyRun_lossless` : in every reached state the output is the autoregressive sequence of
`next` after the prompt, up to the token that the vocabulary test overwrote when it
finished the request, and every step commits the longest agreeing prefix of its drafts
and one token more, unless the request finished inside the block.
-/

namespace DraftOpd

/-- Arbitrary drafted tokens of a block of size `B`. -/
structure Drafts (B : ℕ) where
  tokens : List ℤ
  block_pos : 0 < B
  length_tokens : tokens.length = B - 1

/-- The prompt and the output so far. -/
def Req.context (req : Req) : List ℤ := req.originInputIds ++ req.outputIds

/-- The row of a verify step : the drafts after the current token, and the target's greedy
token at each of them. -/
def greedyRow {B : ℕ} (next : List ℤ → ℤ) (logprob : ℕ → ℤ → LogProb) (req : Req)
    (drafts : Drafts B) : VerifyRow B where
  candidates := req.context.getLastD 0 :: drafts.tokens
  targetPredict := (List.range B).map fun t => next (req.context ++ drafts.tokens.take t)
  targetLogprob := logprob
  block_pos := drafts.block_pos
  length_candidates := by
    rw [List.length_cons, drafts.length_tokens]
    exact Nat.sub_add_cancel drafts.block_pos
  length_targetPredict := by simp

/-- Verify steps on the rows of `draftss`. A finished request leaves the batch. -/
def greedyRun {B : ℕ} (next : List ℤ → ℤ) (logprob : ℕ → ℤ → LogProb) :
    Req → List (Drafts B) → Except VerifyError Req
  | req, [] => .ok req
  | req, drafts :: draftss =>
    if req.finished then .ok req
    else do
      let out ← verifyReq (greedyRow next logprob req drafts) req
      greedyRun next logprob out.req draftss

variable {B : ℕ} (next : List ℤ → ℤ) (logprob : ℕ → ℤ → LogProb)

/-! ## The proposed tokens -/

theorem matched_greedyRow (req : Req) (drafts : Drafts B) {i : ℕ} (hi : i < B - 1) :
    (greedyRow next logprob req drafts).matched[i]? =
      some (drafts.tokens.getD i 0 == next (req.context ++ drafts.tokens.take i)) := by
  have hlen := drafts.length_tokens
  simp only [VerifyRow.matched, VerifyRow.drafts, greedyRow, List.tail_cons]
  rw [List.getElem?_zipWith, List.getElem?_eq_getElem (by omega : i < drafts.tokens.length),
    List.getElem?_dropLast]
  simp [hi, (by omega : i < B), hlen]

/-- The accepted drafts follow `next`, and the first one rejected does not. -/
theorem acceptLen_greedyRow (req : Req) (drafts : Drafts B) :
    (∀ i < (greedyRow next logprob req drafts).acceptLen,
      drafts.tokens[i]? = some (next (req.context ++ drafts.tokens.take i))) ∧
    ((greedyRow next logprob req drafts).acceptLen < B - 1 →
      drafts.tokens[(greedyRow next logprob req drafts).acceptLen]? ≠
        some (next (req.context ++
          drafts.tokens.take (greedyRow next logprob req drafts).acceptLen))) := by
  have hlen := drafts.length_tokens
  have hle := (greedyRow next logprob req drafts).acceptLen_le
  have hmlen := (greedyRow next logprob req drafts).length_matched
  obtain ⟨h₁, h₂⟩ := getElem?_takeWhile_id (greedyRow next logprob req drafts).matched
  rw [← VerifyRow.acceptLen_eq] at h₁ h₂
  refine ⟨fun i hi => ?_, fun hlt => ?_⟩
  · have := (matched_greedyRow next logprob req drafts (by omega)).symm.trans (h₁ i hi)
    simp only [Option.some.injEq, beq_iff_eq] at this
    rw [List.getElem?_eq_getElem (by omega), ← this, List.getD_eq_getElem _ _ (by omega)]
  · have := (matched_greedyRow next logprob req drafts hlt).symm.trans (h₂ (by omega))
    simp only [Option.some.injEq, beq_eq_false_iff_ne] at this
    rw [List.getElem?_eq_getElem (by omega), ne_eq, Option.some.injEq]
    rwa [List.getD_eq_getElem _ _ (by omega)] at this

/-- What the commit loop proposes follows `next`. -/
theorem follows_proposed (req : Req) (drafts : Drafts B) :
    Follows next req.context (greedyRow next logprob req drafts).proposed := by
  have hlen := drafts.length_tokens
  have hle := (greedyRow next logprob req drafts).acceptLen_le
  have hpos := drafts.block_pos
  have htake := follows_take_of_agree _ (by omega) (acceptLen_greedyRow next logprob req drafts).1
  have hbonus : (greedyRow next logprob req drafts).bonus = next (req.context ++
      drafts.tokens.take (greedyRow next logprob req drafts).acceptLen) := by
    have hacc : (greedyRow next logprob req drafts).acceptLen < B := by omega
    rw [VerifyRow.bonus]
    generalize (greedyRow next logprob req drafts).acceptLen = a at hacc
    simp [greedyRow, hacc]
  rw [VerifyRow.proposed, hbonus]
  exact htake.snoc

/-! ## Runs -/

/-- The output is the sequence of `next` after the prompt, its last token possibly
overwritten when it was outside the vocabulary. -/
def LosslessOutput (req : Req) : Prop :=
  Follows next req.originInputIds req.outputIds ∨
    ∃ pre, Follows next req.originInputIds pre ∧
      req.outsideVocab (next (req.originInputIds ++ pre)) = true ∧
      req.outputIds = pre ++ [req.vocabReplacement (next (req.originInputIds ++ pre))] ∧
      req.finishedReason = some (.matchedStr "NaN happened")

/-- The number of drafts accepted is the length of the longest prefix that `next`
produces. -/
structure LongestAgreeing (req : Req) (drafts : Drafts B) (n : ℕ) : Prop where
  agree : Follows next req.context (drafts.tokens.take n)
  longest : ∀ m ≤ drafts.tokens.length, Follows next req.context (drafts.tokens.take m) → m ≤ n

/-- One verify step of the greedy path. -/
structure GreedyStep (req : Req) (drafts : Drafts B) (out : VerifyOutcome) : Prop where
  pos : 1 ≤ out.commitLen
  le : out.commitLen ≤ B
  length_eq : out.req.outputIds.length = req.outputIds.length + out.commitLen
  commit : out.commitLen = (greedyRow next logprob req drafts).acceptLen + 1 ∨
    out.commitLen < (greedyRow next logprob req drafts).acceptLen + 1 ∧ out.req.finished = true
  longest : LongestAgreeing next req drafts (greedyRow next logprob req drafts).acceptLen

/-- A prefix longer than the accepted one contains the first draft that disagrees. -/
theorem longestAgreeing_acceptLen (req : Req) (drafts : Drafts B) :
    LongestAgreeing next req drafts (greedyRow next logprob req drafts).acceptLen := by
  have hlen := drafts.length_tokens
  have hle := (greedyRow next logprob req drafts).acceptLen_le
  obtain ⟨h₁, h₂⟩ := acceptLen_greedyRow next logprob req drafts
  refine ⟨follows_take_of_agree _ (by omega) h₁, fun m hm hf => ?_⟩
  by_contra hlt
  have hlt' : (greedyRow next logprob req drafts).acceptLen < drafts.tokens.length := by omega
  have hf' := hf.take ((greedyRow next logprob req drafts).acceptLen + 1)
  rw [List.take_take, Nat.min_eq_left (by omega), List.take_succ_eq_append_getElem hlt'] at hf'
  refine h₂ (by omega) ?_
  rw [List.getElem?_eq_getElem hlt', hf'.of_snoc.2]

/-- The tokens of a step follow `next`, but for one that was overwritten. -/
theorem losslessOutput_of_committed {req mid : Req} {drafts : Drafts B} {n : ℕ}
    (hf : Follows next req.originInputIds req.outputIds)
    (hc : Committed req (greedyRow next logprob req drafts).proposed mid n) :
    LosslessOutput next mid := by
  have hprop := follows_proposed next logprob req drafts
  obtain ⟨t, hout, ht⟩ := hc.outputIds_eq
  obtain ⟨o, re, fl, toF, g, hmid⟩ := hc.same
  have horigin : mid.originInputIds = req.originInputIds := by rw [hmid]
  have hpos := hc.pos
  have hle := hc.le
  have hlt : n - 1 < (greedyRow next logprob req drafts).proposed.length := by omega
  have htake : (greedyRow next logprob req drafts).proposed.take n =
      (greedyRow next logprob req drafts).proposed.take (n - 1) ++
        [(greedyRow next logprob req drafts).proposed.getD (n - 1) 0] := by
    obtain ⟨k, rfl⟩ : ∃ k, n = k + 1 := ⟨n - 1, by omega⟩
    rw [Nat.add_sub_cancel] at hlt ⊢
    rw [List.take_succ_eq_append_getElem hlt, List.getD_eq_getElem _ _ hlt]
  have hpre : Follows next req.originInputIds
      (req.outputIds ++ (greedyRow next logprob req drafts).proposed.take (n - 1)) :=
    hf.append _ (hprop.take (n - 1))
  have hn := hprop.take n
  rw [htake] at hn
  rcases ht with rfl | ⟨hvoc, rfl, hreason⟩
  · refine Or.inl ?_
    rw [horigin, hout]
    exact hf.append _ hn
  · have hx : (greedyRow next logprob req drafts).proposed.getD (n - 1) 0 =
        next (mid.originInputIds ++
          (req.outputIds ++ (greedyRow next logprob req drafts).proposed.take (n - 1))) := by
      rw [horigin, ← List.append_assoc]
      exact hn.of_snoc.2
    refine Or.inr ⟨_, by rw [horigin]; exact hpre, ?_, ?_, hreason⟩
    · rw [← hx, hmid]
      exact hvoc
    · rw [← hx, hout, hmid, List.append_assoc]
      rfl

/-- A verify step on a request whose output follows `next`. -/
theorem greedy_step {req : Req} (ho : req.Open)
    (hf : Follows next req.originInputIds req.outputIds) (drafts : Drafts B) :
    ∃ out, verifyReq (greedyRow next logprob req drafts) req = .ok out ∧
      GreedyStep next logprob req drafts out ∧ LosslessOutput next out.req ∧
      (out.req.finished = false →
        out.req.Open ∧ Follows next out.req.originInputIds out.req.outputIds) := by
  obtain ⟨out, hverify, ⟨mid, hc, -, info, kv, -, hreq⟩, -, -⟩ :=
    verifyReq_spec (greedyRow next logprob req drafts) ho
  have hlen := (greedyRow next logprob req drafts).length_proposed
  have hacc := (greedyRow next logprob req drafts).acceptLen_le
  have hpos := drafts.block_pos
  have hle := hc.le
  have hll : LosslessOutput next mid := losslessOutput_of_committed next logprob hf hc
  have hfin : out.req.finished = mid.finished := by rw [hreq]; rfl
  refine ⟨out, hverify,
    ⟨hc.pos, by omega, ?_, ?_, longestAgreeing_acceptLen next logprob req drafts⟩,
    ?_, fun hun => ?_⟩
  · rw [hreq]
    exact hc.length_outputIds
  · rcases Nat.lt_or_ge out.commitLen (greedyRow next logprob req drafts).proposed.length with h | h
    · exact Or.inr ⟨by omega, hfin.trans (hc.finished_of_lt h)⟩
    · exact Or.inl (by omega)
  · rw [hreq]
    exact hll
  · rw [hfin] at hun
    have ho' := hc.open_of_unfinished hun
    refine ⟨by rw [hreq]; exact ⟨hun, ho'.finishedLen_eq, ho'.length_lt⟩, ?_⟩
    rcases hll with h | ⟨pre, -, -, -, hreason⟩
    · rw [hreq]
      exact h
    · rw [Req.finished, hreason] at hun
      cases hun

/-- Every state of a greedy run is lossless, and every further step commits the longest
agreeing prefix of its drafts and one more token, or finishes the request inside the
block. -/
theorem greedyRun_lossless : ∀ (draftss : List (Drafts B)) {req : Req}, req.Open →
    Follows next req.originInputIds req.outputIds →
    ∃ req', greedyRun next logprob req draftss = .ok req' ∧ LosslessOutput next req' ∧
      (req'.finished = false → ∀ drafts : Drafts B, ∃ out,
        verifyReq (greedyRow next logprob req' drafts) req' = .ok out ∧
          GreedyStep next logprob req' drafts out)
  | [], req, ho, hf => by
    refine ⟨req, rfl, Or.inl hf, fun _ drafts => ?_⟩
    obtain ⟨out, hverify, hstep, -⟩ := greedy_step next logprob ho hf drafts
    exact ⟨out, hverify, hstep⟩
  | drafts :: draftss, req, ho, hf => by
    obtain ⟨out, hverify, -, hll, hopen⟩ := greedy_step next logprob ho hf drafts
    have hrun : greedyRun next logprob req (drafts :: draftss) =
        greedyRun next logprob out.req draftss := by
      rw [greedyRun, if_neg (by simp [ho.unfinished]), hverify]
      rfl
    rw [hrun]
    by_cases hfin : out.req.finished = true
    · refine ⟨out.req, ?_, hll, fun h => absurd (h.symm.trans hfin) (by simp)⟩
      cases draftss with
      | nil => rfl
      | cons d ds => rw [greedyRun, if_pos hfin]
    · obtain ⟨ho', hf'⟩ := hopen (Bool.eq_false_iff.mpr hfin)
      exact greedyRun_lossless draftss ho' hf'

/-- Two steps of a target that counts, the first draft accepted and the second not. -/
theorem greedyRun_lossless_counting :
    ∃ req', greedyRun (fun xs => (xs.length : ℤ)) (fun _ _ => ⊥)
        (Req.new "r" [7] {} none [] 100)
        [(⟨[1], by decide, rfl⟩ : Drafts 2), ⟨[9], by decide, rfl⟩] = .ok req' ∧
      LosslessOutput (fun xs => (xs.length : ℤ)) req' := by
  obtain ⟨req', hrun, hll, -⟩ := greedyRun_lossless (B := 2) (fun xs => (xs.length : ℤ))
    (fun _ _ => ⊥) [⟨[1], by decide, rfl⟩, ⟨[9], by decide, rfl⟩]
    (⟨rfl, rfl, by decide⟩ : (Req.new "r" [7] {} none [] 100).Open) rfl
  exact ⟨req', hrun, hll⟩

/-- A token past the vocabulary, as logits that are padded have them, is overwritten with the
stop token, so the output is not the sequence of the target. -/
theorem not_follows_outside_vocab :
    ∃ req', greedyRun (fun _ => 101) (fun _ _ => ⊥) (Req.new "r" [7] {} none [2] 100)
        [(⟨[5], by decide, rfl⟩ : Drafts 2)] = .ok req' ∧
      ¬Follows (fun _ => 101) [7] req'.outputIds := by
  refine ⟨_, rfl, ?_⟩
  unfold Follows
  decide

end DraftOpd
