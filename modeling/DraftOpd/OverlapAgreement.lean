import DraftOpd.StopPosition
import DraftOpd.VerifyRun

/-!
# Spec-v2 against spec-v1

The two paths are run on the same request, prefill token and rows, under the same
emission schedule. `Rollout.Alike` relates states of the two that agree on everything a
later step or the client depends on, and a block with no stop before its last token keeps
it (`Alike.block_step`).

A stop inside a block separates the paths : spec-v1 ends its step there, spec-v2 keeps
the mask of the whole block, or delivers more tokens. `overlapAgrees_iff` is the
equivalence : the deliveries are the same under every schedule exactly when the request
stops at the end of a block, if at all.
-/

namespace DraftOpd

variable {B : ℕ}

/-- No token before the last of a block finishes the request, up to the block whose last
token does. -/
def StopsAtBlockEnds : Req → List (VerifyRow B) → Prop
  | _, [] => True
  | req, row :: rows =>
    (∀ n, 0 < n → n < row.acceptLen + 1 → req.finishesAfter (row.proposed.take n) = false) ∧
      (req.finishesAfter row.proposed = true ∨ StopsAtBlockEnds (req.appendAll row.proposed) rows)

namespace Rollout

/-- The clients hold the same tokens, the same aligned mask, and the same rejected-draft
lists. -/
structure SameDelivery (s₁ s₂ : Rollout B) : Prop where
  outputIds_eq : s₂.client.outputIds = s₁.client.outputIds
  mask_eq : alignDflashRejectTokenMask (s₂.client.customizedInfo.get? .dflashRejectTokenMask)
      s₂.client.outputIds.length =
    alignDflashRejectTokenMask (s₁.client.customizedInfo.get? .dflashRejectTokenMask)
      s₁.client.outputIds.length
  lists_eq : ∀ key ∈ rejectedKeys, keyList (some s₂.client.customizedInfo) key =
    keyList (some s₁.client.customizedInfo) key

/-- The two paths deliver the same under every emission schedule. -/
def OverlapAgrees (req : Req) (tokenId : ℤ) (rows : List (VerifyRow B)) : Prop :=
  ∀ (due : Bool) (xs : List (VerifyRow B × Bool)), xs.map Prod.fst = rows → ∃ s₁ s₂ : Rollout B,
    (init req).run (.prefill tokenId due :: xs.map fun x => .verify x.1 x.2) = .ok s₁ ∧
    (init req).run (.prefill tokenId due :: xs.map fun x => .result x.1 x.2) = .ok s₂ ∧
    SameDelivery s₁ s₂

/-- The keys the deliveries are compared on. -/
def comparedKeys : List InfoKey := .dflashRejectTokenMask :: rejectedKeys

/-- States of the two paths that go on alike. -/
structure Alike (s₁ s₂ : Rollout B) : Prop where
  core : s₁.req.SameCore s₂.req
  finishedOutput_eq : s₂.req.finishedOutput = s₁.req.finishedOutput
  sendTokenOffset_eq : s₂.req.sendTokenOffset = s₁.req.sendTokenOffset
  isRetracted_eq : s₂.req.isRetracted = s₁.req.isRetracted
  info_eq : ∀ key ∈ comparedKeys, keyList s₂.req.customizedInfo key =
    keyList s₁.req.customizedInfo key
  outputIds_eq : s₂.client.outputIds = s₁.client.outputIds
  client_eq : ∀ key ∈ comparedKeys, keyList (some s₂.client.customizedInfo) key =
    keyList (some s₁.client.customizedInfo) key

theorem Alike.refl (s : Rollout B) : Alike s s :=
  ⟨.refl _, rfl, rfl, rfl, fun _ _ => rfl, rfl, fun _ _ => rfl⟩

theorem align_congr {raw raw' : Option (List Value)} (h : raw'.getD [] = raw.getD []) (n : ℕ) :
    alignDflashRejectTokenMask raw' n = alignDflashRejectTokenMask raw n := by
  simp only [alignDflashRejectTokenMask, h]

theorem Alike.sameDelivery {s₁ s₂ : Rollout B} (h : Alike s₁ s₂) : SameDelivery s₁ s₂ := by
  refine ⟨h.outputIds_eq, ?_, fun key hkey => h.client_eq key (List.mem_cons_of_mem _ hkey)⟩
  rw [h.outputIds_eq]
  exact align_congr (h.client_eq _ List.mem_cons_self) _

theorem sameCore_afterEmission {r₁ r₂ : Req} (h : r₁.SameCore r₂) :
    r₁.afterEmission.SameCore r₂.afterEmission := by
  unfold Req.SameCore at h ⊢
  rw [← h]
  unfold Req.afterEmission Req.markFinishedOutput
  have hfin : (r₁.withBook r₂).finished = r₁.finished := rfl
  rw [hfin]
  by_cases hf : r₁.finished = true
  · rw [if_pos hf, if_pos hf]
    rfl
  · rw [if_neg hf, if_neg hf]
    rfl

theorem Alike.emits_iff {s₁ s₂ : Rollout B} (h : Alike s₁ s₂) (due : Bool) :
    s₂.Emits due ↔ s₁.Emits due := by
  unfold Emits StreamItem.emitted
  simp only [h.core.finished_eq, h.finishedOutput_eq]

/-- The stream sends the same for both. -/
theorem Alike.stream {s₁ s₂ : Rollout B} (h : Alike s₁ s₂) {due : Bool} {s₁' : Rollout B}
    (h₁ : s₁.stream due = .ok s₁') : ∃ s₂', s₂.stream due = .ok s₂' ∧ Alike s₁' s₂' := by
  by_cases he : s₁.Emits due
  · obtain ⟨c₁, hs₁, hem₁⟩ := stream_of_emits he
    obtain ⟨c₂, hs₂, hem₂⟩ := stream_of_emits ((h.emits_iff due).mpr he)
    rw [h₁] at hs₁
    obtain rfl := Except.ok.inj hs₁
    have hthrough : s₂.req.markFinishedOutput.outputIdsThroughStop =
        s₁.req.markFinishedOutput.outputIdsThroughStop := by
      rw [through_markFinishedOutput, through_markFinishedOutput, h.core.through_eq]
    obtain ⟨o₁, l₁, f₁, hframe₁⟩ := afterEmission_frame s₁.req
    obtain ⟨o₂, l₂, f₂, hframe₂⟩ := afterEmission_frame s₂.req
    refine ⟨_, hs₂, sameCore_afterEmission h.core, ?_, ?_, ?_, fun key hkey => ?_, ?_,
      fun key hkey => ?_⟩
    · simp only [Req.afterEmission, Req.markFinishedOutput, h.core.finished_eq]
      split_ifs
      · rfl
      · exact h.finishedOutput_eq
    · exact congrArg List.length hthrough
    · simp only [hframe₁, hframe₂]
      exact h.isRetracted_eq
    · simp only [hframe₁, hframe₂]
      exact h.info_eq key hkey
    · rw [hem₁.outputIds_eq, hem₂.outputIds_eq, hthrough, h.sendTokenOffset_eq, h.outputIds_eq]
    · rw [hem₁.keyList_eq, hem₂.keyList_eq, h.client_eq key hkey, h.info_eq key hkey,
        h.sendTokenOffset_eq]
  · have he₂ : ¬s₂.Emits due := fun h' => he ((h.emits_iff due).mp h')
    rw [stream_of_not_emits he] at h₁
    obtain rfl := Except.ok.inj h₁
    exact ⟨s₂, stream_of_not_emits he₂, h⟩

/-- The stream moves only the offset of a request that goes on. -/
theorem sameCore_stream {s s' : Rollout B} {due : Bool} (h : s.stream due = .ok s')
    (hun : s.req.finished = false) : s.req.SameCore s'.req := by
  by_cases he : s.Emits due
  · obtain ⟨c, hs, -⟩ := stream_of_emits he
    rw [h] at hs
    obtain rfl := Except.ok.inj hs
    have hsame : s.req.markFinishedOutput = s.req := if_neg (by simp [hun])
    simp only [Req.afterEmission, hsame]
    rfl
  · rw [stream_of_not_emits he] at h
    obtain rfl := Except.ok.inj h
    rfl

/-- A request that goes on is sent only when it is due. -/
theorem stream_of_not_due {s : Rollout B} {due : Bool} (hun : s.req.finished = false)
    (hdue : due = false) : s.stream due = .ok s := by
  refine stream_of_not_emits ?_
  simp [Emits, StreamItem.emitted, hun, hdue]

/-! ## A block that stops at its end, if at all -/

/-- Recording the same step on the same lists gives the same lists. -/
theorem recorded_congr {row : VerifyRow B} {old₁ old₂ info₁ info₂ : Option CustomizedInfo}
    {len n : ℕ} (hold : ∀ key ∈ comparedKeys, keyList old₂ key = keyList old₁ key)
    (h₁ : Recorded row old₁ len n info₁) (h₂ : Recorded row old₂ len n info₂) :
    ∀ key ∈ comparedKeys, keyList info₂ key = keyList info₁ key := by
  intro key hkey
  rcases List.mem_cons.mp hkey with rfl | hkey'
  · rw [h₁.mask, h₂.mask, hold _ hkey]
  · obtain ⟨chunk, hchunk⟩ := exists_lookup_rejectedChunksAt row ((len : ℤ) - 1) hkey'
    rw [h₁.rejected key chunk hchunk, h₂.rejected key chunk hchunk, hold _ hkey]

/-- The request after the verify step of spec-v1 that commits `k` tokens. -/
theorem verified_sameCore {row : VerifyRow B} {req : Req} {out : VerifyOutcome}
    (hv : Verified row req out) {k : ℕ} (ho : req.Open) (hg : req.grammar = none) (hk : 0 < k)
    (hle : k ≤ row.acceptLen + 1)
    (hbefore : ∀ n, 0 < n → n < k → req.finishesAfter (row.proposed.take n) = false)
    (hat : k = row.acceptLen + 1 ∨ req.finishesAfter (row.proposed.take k) = true) :
    out.commitLen = k ∧ ((req.appendAll (row.proposed.take k)).checkFinished 1).SameCore
      (out.req.checkFinished 1) := by
  obtain ⟨⟨mid, -, hloop, info, kv, -, hreq⟩, -, -⟩ := hv
  have hstop := commitLoop_stop row.proposed req 0 k ho hg hk
    (by rw [row.length_proposed]; exact hle) hbefore (by rw [row.length_proposed]; exact hat)
  rw [hloop, Nat.zero_add] at hstop
  obtain ⟨hmid, hcommit⟩ := Prod.mk.inj hstop
  refine ⟨hcommit, ?_⟩
  have hcore : mid.SameCore out.req := by
    rw [hreq]
    rfl
  rw [← Req.checkFinished_checkFinished, ← hmid]
  exact hcore.checkFinished 1

/-- The request after a result of spec-v2. -/
theorem decoded_sameCore {row : VerifyRow B} {req : Req} {info : Option CustomizedInfo} {kv : ℕ} :
    ((req.appendAll row.proposed).checkFinished row.proposed.length).SameCore
      ((req.resolved row info kv).extendChecked row.proposed) := by
  have hcore : (req.appendAll row.proposed).SameCore
      { req.resolved row info kv with outputIds := req.outputIds ++ row.proposed } := rfl
  exact hcore.checkFinished _

/-- A block with no stop before its last token is checked as that token. -/
theorem checkFinished_whole_block {row : VerifyRow B} {req : Req}
    (hbefore : ∀ n, 0 < n → n < row.acceptLen + 1 →
      req.finishesAfter (row.proposed.take n) = false) :
    (req.appendAll row.proposed).checkFinished row.proposed.length =
      (req.appendAll row.proposed).checkFinished 1 := by
  have hlen := row.length_drafts
  have hacc := row.acceptLen_le
  refine Req.checkFinished_block rfl fun x hx => ?_
  obtain ⟨i, hi, rfl⟩ := List.mem_iff_getElem.mp hx
  have hi' : i < row.acceptLen := by
    rw [List.length_take] at hi
    omega
  have htake : row.proposed.take (i + 1) =
      row.proposed.take i ++ [(row.drafts.take row.acceptLen)[i]] := by
    rw [List.take_succ_eq_append_getElem (by rw [row.length_proposed]; omega)]
    congr 2
    exact List.getElem_append_left hi
  have hnot := hbefore (i + 1) (Nat.succ_pos _) (by omega)
  rw [htake] at hnot
  exact (Req.stopsAt_of_not_finishesAfter hnot : req.stopsAt _ = false)

/-- Both paths process the block alike when it has no stop before its last token. -/
theorem Alike.block_step {s₁ s₂ : Rollout B} (h : Alike s₁ s₂) (ht : s₁.Tracks)
    (hin : s₁.InBatch) (hg : s₁.req.grammar = none) {row : VerifyRow B}
    (hbefore : ∀ n, 0 < n → n < row.acceptLen + 1 →
      s₁.req.finishesAfter (row.proposed.take n) = false) (due : Bool) :
    ∃ s₁' s₂', s₁.verify row due = .ok s₁' ∧ s₂.result row due = .ok s₂' ∧ Alike s₁' s₂' ∧
      s₁'.Tracks ∧ s₁'.Settled ∧ s₁'.req.isRetracted = false ∧ s₁'.req.outputIds ≠ [] ∧
      s₁'.req.finished = s₁.req.finishesAfter row.proposed ∧
      (s₁'.req.finished = false → (s₁.req.appendAll row.proposed).SameCore s₁'.req) ∧
      (s₁'.req.finished = false → due = false → s₁'.client = s₁.client ∧
        s₁'.req.sendTokenOffset = s₁.req.sendTokenOffset) := by
  obtain ⟨out, -, hv, hverify, htracks, hship, hlg⟩ := ht.verified hin row
  have htake : row.proposed.take (row.acceptLen + 1) = row.proposed :=
    List.take_of_length_le row.length_proposed.le
  obtain ⟨hcommit, hcore₁⟩ := verified_sameCore hv (ht.open_of_inBatch hin) hg
    (Nat.succ_pos row.acceptLen) le_rfl hbefore (Or.inl rfl)
  rw [htake] at hcore₁
  have hun₂ : s₂.req.finished = false := h.core.finished_eq.trans hin.unfinished
  have hret₂ : s₂.req.isRetracted = false := h.isRetracted_eq.trans hin.notRetracted
  have hg₂ : s₂.req.grammar = none := h.core.grammar_eq.trans hg
  obtain ⟨info, kv, g, hdecode, hgnone, hrec₂⟩ := decodeOverlap_running row hun₂ hret₂
  have hcore₂ : ((s₁.req.appendAll row.proposed).checkFinished 1).SameCore
      ((s₂.req.resolved row info kv).extendChecked row.proposed) := by
    refine ((h.core.appendAll row.proposed).checkFinished 1).trans ?_
    rw [← checkFinished_whole_block fun n hn hlt => by
      rw [h.core.finishesAfter_eq]; exact hbefore n hn hlt]
    exact decoded_sameCore
  obtain ⟨reason₂, len₂, toF₂, out₂, hframe₂⟩ :=
    (s₂.req.resolved row info kv).extendChecked_frame row.proposed
  have hsame : ({ (s₂.req.resolved row info kv).extendChecked row.proposed with
      grammar := g } : Req) = (s₂.req.resolved row info kv).extendChecked row.proposed := by
    rw [hgnone hg₂, hframe₂]
    simp only [Req.resolved, Req.countVerify, hg₂]
  rw [hsame] at hdecode
  obtain ⟨reason₁, len₁, toF₁, out₁, hframe₁⟩ := out.req.checkFinished_frame 1
  obtain ⟨⟨mid, hc, -, info₁, kv₁, hrec₁, hreq⟩, -, -⟩ := hv
  obtain ⟨o, re, fl, toF, g', hmid⟩ := hc.same
  have halike : Alike
      { s₁ with
        req := out.req.checkFinished 1
        log := s₁.logWith out.commitLen row }
      { s₂ with
        req := (s₂.req.resolved row info kv).extendChecked row.proposed
        log := s₂.logWith (row.acceptLen + 1) row } := by
    refine ⟨hcore₁.symm.trans hcore₂, ?_, ?_, ?_, ?_, h.outputIds_eq, h.client_eq⟩
    · rw [hframe₁, hframe₂, hreq, hmid]
      exact h.finishedOutput_eq
    · rw [hframe₁, hframe₂, hreq, hmid]
      exact h.sendTokenOffset_eq
    · rw [hframe₁, hframe₂, hreq, hmid]
      exact h.isRetracted_eq
    · rw [hframe₁, hframe₂, hreq]
      rw [hcommit] at hrec₁
      rw [h.core.outputIds_eq] at hrec₂
      exact recorded_congr h.info_eq hrec₁ hrec₂
  obtain ⟨s₁', hs₁', ht₁', hset₁', hstr⟩ := htracks.stream fun _ : Emits _ due => hship
  obtain ⟨s₂', hs₂', halike'⟩ := halike.stream hs₁'
  have hfin : s₁'.req.finished = s₁.req.finishesAfter row.proposed :=
    hstr.finished_eq.trans hcore₁.finished_eq
  refine ⟨s₁', s₂', (hverify due).trans hs₁', ?_, halike', ht₁', hset₁',
    hstr.isRetracted_eq.trans (hlg.isRetracted_eq.trans hin.notRetracted), ?_, hfin,
    fun hun => ?_, fun hun hdue => ?_⟩
  · rw [result, hdecode, if_neg (by simp [hun₂, hret₂])]
    exact hs₂'
  · rw [hstr.outputIds_eq]
    exact hlg.prefilled
  · have hunAfter : s₁.req.finishesAfter row.proposed = false := hfin.symm.trans hun
    rw [(Req.eq_of_checkFinished_unfinished hunAfter).1] at hcore₁
    exact hcore₁.trans (sameCore_stream hs₁' (hstr.finished_eq.symm.trans hun))
  · rw [stream_of_not_due (hstr.finished_eq.symm.trans hun) hdue] at hs₁'
    obtain rfl := Except.ok.inj hs₁'
    refine ⟨rfl, ?_⟩
    rw [hframe₁, hreq, hmid]
    rfl

/-! ## Agreement -/

/-- A result of a request that was sent changes nothing for the client. -/
theorem result_of_sent {s : Rollout B} (hf : s.req.finished = true)
    (ho : s.req.finishedOutput = true) (row : VerifyRow B) (due : Bool) :
    ∃ s', s.result row due = .ok s' ∧ s'.client = s.client ∧ s'.req.finished = true ∧
      s'.req.finishedOutput = true := by
  have hskip : (s.req.finished || s.req.isRetracted) = true := by rw [hf, Bool.true_or]
  obtain ⟨info, kv, hdecode, -⟩ := decodeOverlap_skipped row hskip
  obtain ⟨s₁, hs₁⟩ : ∃ s₁ : Rollout B, s₁ = { s with req := s.req.resolved row info kv } := ⟨_, rfl⟩
  have hf₁ : s₁.req.finished = true := by rw [hs₁]; exact hf
  have ho₁ : s₁.req.finishedOutput = true := by rw [hs₁]; exact ho
  have hnot : ¬s₁.Emits due := by simp [Emits, StreamItem.emitted, hf₁, ho₁]
  refine ⟨s₁, ?_, by rw [hs₁], hf₁, ho₁⟩
  rw [result, hdecode, if_pos hskip, ← stream_of_not_emits hnot, hs₁]
  rfl

theorem run_result_of_sent : ∀ (xs : List (VerifyRow B × Bool)) {s : Rollout B},
    s.req.finished = true → s.req.finishedOutput = true →
    ∃ s', s.run (xs.map fun x => .result x.1 x.2) = .ok s' ∧ s'.client = s.client
  | [], s, _, _ => ⟨s, rfl, rfl⟩
  | x :: xs, s, hf, ho => by
    obtain ⟨s₁, hs₁, hc₁, hf₁, ho₁⟩ := result_of_sent hf ho x.1 x.2
    obtain ⟨s₂, hs₂, hc₂⟩ := run_result_of_sent xs hf₁ ho₁
    refine ⟨s₂, ?_, hc₂.trans hc₁⟩
    rw [List.map_cons, run, step, hs₁]
    exact hs₂

theorem SameDelivery.of_client {s₁ s₂ s₂' : Rollout B} (h : SameDelivery s₁ s₂)
    (hc : s₂'.client = s₂.client) : SameDelivery s₁ s₂' := by
  obtain ⟨h₁, h₂, h₃⟩ := h
  exact ⟨by rw [hc]; exact h₁, by rw [hc]; exact h₂, by rw [hc]; exact h₃⟩

/-- A request that was sent is done on both paths. -/
theorem Alike.run_of_sent {s₁ s₂ : Rollout B} (h : Alike s₁ s₂) (hf : s₁.req.finished = true)
    (hset : s₁.Settled) (xs : List (VerifyRow B × Bool)) : ∃ s₁' s₂',
    s₁.run (xs.map fun x => .verify x.1 x.2) = .ok s₁' ∧
    s₂.run (xs.map fun x => .result x.1 x.2) = .ok s₂' ∧ SameDelivery s₁' s₂' := by
  have hnot : ¬s₁.InBatch := fun hin => absurd (hin.unfinished.symm.trans hf) (by simp)
  obtain ⟨s₂', hs₂', hc⟩ := run_result_of_sent xs (h.core.finished_eq.trans hf)
    (h.finishedOutput_eq.trans (hset hf))
  exact ⟨s₁, s₂', run_verify_of_not_inBatch hnot xs, hs₂', h.sameDelivery.of_client hc⟩

/-- Blocks that stop the request at their ends are delivered alike. -/
theorem Alike.run : ∀ (xs : List (VerifyRow B × Bool)) {s₁ s₂ : Rollout B} {req : Req},
    Alike s₁ s₂ → s₁.Tracks → s₁.InBatch → req.SameCore s₁.req → req.grammar = none →
    StopsAtBlockEnds req (xs.map Prod.fst) → ∃ s₁' s₂',
      s₁.run (xs.map fun x => .verify x.1 x.2) = .ok s₁' ∧
      s₂.run (xs.map fun x => .result x.1 x.2) = .ok s₂' ∧ SameDelivery s₁' s₂'
  | [], s₁, s₂, _, h, _, _, _, _, _ => ⟨s₁, s₂, rfl, rfl, h.sameDelivery⟩
  | x :: xs, s₁, s₂, req, h, ht, hin, hcore, hg, hstops => by
    obtain ⟨hbefore, hrest⟩ := hstops
    obtain ⟨s₁', s₂', hs₁', hs₂', h', ht', hset', hret', hne', hfin', hcore', -⟩ :=
      h.block_step ht hin (hcore.grammar_eq.trans hg)
        (fun n hn hlt => by rw [hcore.finishesAfter_eq]; exact hbefore n hn hlt) x.2
    suffices hsuff : ∃ t₁ t₂, s₁'.run (xs.map fun x => .verify x.1 x.2) = .ok t₁ ∧
        s₂'.run (xs.map fun x => .result x.1 x.2) = .ok t₂ ∧ SameDelivery t₁ t₂ by
      obtain ⟨t₁, t₂, ht₁, ht₂, hd⟩ := hsuff
      refine ⟨t₁, t₂, ?_, ?_, hd⟩
      · rw [List.map_cons, Rollout.run, step, hs₁']
        exact ht₁
      · rw [List.map_cons, Rollout.run, step, hs₂']
        exact ht₂
    by_cases hf : s₁'.req.finished = true
    · exact h'.run_of_sent hf hset' xs
    · have hun : s₁'.req.finished = false := Bool.eq_false_iff.mpr hf
      have hnot : ¬req.finishesAfter x.1.proposed = true := by
        rw [← hcore.finishesAfter_eq, ← hfin']
        exact hf
      exact Alike.run xs h' ht' ⟨hun, hret', hne'⟩ ((hcore.appendAll _).trans (hcore' hun)) hg
        (hrest.resolve_left hnot)

/-! ## Disagreement -/

/-- Appending tokens and checking them delivers more than there was. -/
theorem lt_length_extendChecked (req : Req) {tokens : List ℤ} (hun : req.finished = false)
    (hfl : req.finishedLen = none) (hne : tokens ≠ [])
    (hlt : req.outputIds.length < req.samplingParams.maxNewTokens) :
    req.outputIds.length < (req.extendChecked tokens).outputIdsThroughStop.length := by
  have hpos := List.length_pos_iff.mpr hne
  have hlast : Req.lastTokens (req.appendAll tokens).outputIds tokens.length = tokens :=
    Req.lastTokens_append _ hne
  have hun' : (req.appendAll tokens).finished = false := hun
  have hlen : (req.appendAll tokens).outputIds.length = req.outputIds.length + tokens.length := by
    simp [Req.appendAll]
  have hcases := Req.checkFinished_cases hun' tokens.length
  rw [hlast] at hcases
  have hext : req.extendChecked tokens = (req.appendAll tokens).checkFinished tokens.length := rfl
  rw [hext]
  rcases hcases with ⟨h, -⟩ | ⟨reason, toF, h⟩ | ⟨-, hge, h⟩ | ⟨-, h⟩ | ⟨-, -, h⟩
  · rw [h]
    simp only [Req.outputIdsThroughStop, Req.appendAll, hfl, List.length_append]
    omega
  · rw [h]
    simp only [Req.outputIdsThroughStop, Req.appendAll, hfl, List.length_append]
    omega
  · rw [h]
    simp only [Req.outputIdsThroughStop, List.length_take]
    simp only [Req.appendAll] at hge ⊢
    omega
  · obtain ⟨-, i, hi, h⟩ := Req.eq_of_checkTokenBasedFinish h
    obtain ⟨hi, -⟩ := List.findIdx?_eq_some_iff_getElem.mp hi
    rw [h]
    simp only [Req.outputIdsThroughStop, List.length_take, hlen]
    omega
  · obtain ⟨i, hi, h⟩ := Req.eq_of_checkVocabBoundaryFinish h
    obtain ⟨hi, -⟩ := List.findIdx?_eq_some_iff_getElem.mp hi
    rw [h]
    simp only [Req.outputIdsThroughStop, List.length_take, List.length_modify, hlen]
    omega

/-- Nothing was sent of a request that goes on and has at least `m` tokens. -/
structure Pending (s : Rollout B) (m : ℕ) : Prop where
  client_nil : s.client.outputIds = []
  offset_eq : s.req.sendTokenOffset = 0
  finishedOutput_eq : s.req.finishedOutput = false
  notRetracted : s.req.isRetracted = false
  isOpen : s.req.Open
  le : m ≤ s.req.outputIds.length

theorem Pending.mono {s : Rollout B} {m n : ℕ} (h : s.Pending n) (hle : m ≤ n) : s.Pending m :=
  ⟨h.client_nil, h.offset_eq, h.finishedOutput_eq, h.notRetracted, h.isOpen, hle.trans h.le⟩

/-- A result that is not due leaves the request pending with its block, or delivers it with
more tokens and the mask of the whole block. -/
theorem Pending.result {s : Rollout B} {m : ℕ} (h : s.Pending m) (row : VerifyRow B) :
    ∃ s', s.result row false = .ok s' ∧ (s'.Pending (m + (row.acceptLen + 1)) ∨
      m < s'.client.outputIds.length ∧ s'.req.finished = true ∧ s'.req.finishedOutput = true ∧
        keyList (some s'.client.customizedInfo) .dflashRejectTokenMask =
          keyList (some s.client.customizedInfo) .dflashRejectTokenMask ++
            recordAt (.bool false) (.bool true) s.req.outputIds.length (row.acceptLen + 1)
              (keyList s.req.customizedInfo .dflashRejectTokenMask)) := by
  have hun := h.isOpen.unfinished
  obtain ⟨info, kv, g, hdecode, -, hrec⟩ := decodeOverlap_running row hun h.notRetracted
  obtain ⟨reason, len, toF, out, hframe⟩ :=
    (s.req.resolved row info kv).extendChecked_frame row.proposed
  obtain ⟨s₁, hs₁⟩ : ∃ s₁ : Rollout B, s₁ = { s with
      req := { (s.req.resolved row info kv).extendChecked row.proposed with grammar := g }
      log := s.logWith (row.acceptLen + 1) row } := ⟨_, rfl⟩
  have hresult : s.result row false = s₁.stream false := by
    rw [Rollout.result, hdecode, if_neg (by simp [hun, h.notRetracted]), hs₁]
    rfl
  rw [hresult]
  by_cases hf : s₁.req.finished = true
  · have hfo : s₁.req.finishedOutput = false := by
      rw [hs₁, hframe]
      exact h.finishedOutput_eq
    have hoff : s₁.req.sendTokenOffset = 0 := by
      rw [hs₁, hframe]
      exact h.offset_eq
    have hemits : s₁.Emits false := by simp [Emits, StreamItem.emitted, hf, hfo]
    obtain ⟨c, hstream, hem⟩ := stream_of_emits hemits
    refine ⟨_, hstream, Or.inr ⟨?_, ?_, ?_, ?_⟩⟩
    · have hclient : s₁.client.outputIds = [] := by
        rw [hs₁]
        exact h.client_nil
      rw [hem.outputIds_eq, hclient, hoff, through_markFinishedOutput, List.nil_append,
        List.drop_zero, hs₁]
      have hne : row.proposed ≠ [] := by simp [VerifyRow.proposed]
      exact h.le.trans_lt (lt_length_extendChecked (s.req.resolved row info kv) hun
        h.isOpen.finishedLen_eq hne h.isOpen.length_lt)
    · exact (streamed_afterEmission s₁ c).finished_eq.trans hf
    · simp only [Req.afterEmission, Req.markFinishedOutput, if_pos hf]
    · have hinfo : keyList s₁.req.customizedInfo .dflashRejectTokenMask =
          recordAt (.bool false) (.bool true) s.req.outputIds.length (row.acceptLen + 1)
            (keyList s.req.customizedInfo .dflashRejectTokenMask) := by
        rw [hs₁, hframe]
        exact hrec.mask
      rw [hem.keyList_eq, hoff, List.drop_zero, hinfo, hs₁]
      rfl
  · have hun₁ : ((s.req.resolved row info kv).extendChecked row.proposed).finished = false := by
      rw [hs₁] at hf
      exact Bool.eq_false_iff.mpr hf
    obtain ⟨heq, hlt, -⟩ := Req.eq_of_checkFinished_unfinished hun₁
    have hext : (s.req.resolved row info kv).extendChecked row.proposed =
        { s.req.resolved row info kv with outputIds := s.req.outputIds ++ row.proposed } := heq
    refine ⟨s₁, stream_of_not_emits ?_, Or.inl ?_⟩
    · simp [Emits, StreamItem.emitted, hf]
    · rw [hs₁, hext]
      refine ⟨h.client_nil, h.offset_eq, h.finishedOutput_eq, h.notRetracted,
        ⟨hun, h.isOpen.finishedLen_eq, hlt⟩, ?_⟩
      have hle := h.le
      simp only [List.length_append, row.length_proposed]
      omega

/-- A pending request is never delivered with fewer tokens. -/
theorem Pending.run : ∀ (rows : List (VerifyRow B)) {s : Rollout B} {m : ℕ}, s.Pending m →
    ∃ s', s.run (rows.map fun row => .result row false) = .ok s' ∧
      (s'.client.outputIds = [] ∨ m < s'.client.outputIds.length)
  | [], s, m, h => ⟨s, rfl, Or.inl h.client_nil⟩
  | row :: rows, s, m, h => by
    obtain ⟨s₁, hs₁, hcase⟩ := h.result row
    suffices hsuff : ∃ s', s₁.run (rows.map fun row => .result row false) = .ok s' ∧
        (s'.client.outputIds = [] ∨ m < s'.client.outputIds.length) by
      obtain ⟨s', hs', hd⟩ := hsuff
      refine ⟨s', ?_, hd⟩
      rw [List.map_cons, Rollout.run, step, hs₁]
      exact hs'
    rcases hcase with hp | ⟨hlt, hf, ho, -⟩
    · exact Pending.run rows (hp.mono (Nat.le_add_right _ _))
    · obtain ⟨s', hs', hc⟩ := run_result_of_sent (rows.map fun row => (row, false)) hf ho
      rw [List.map_map] at hs'
      exact ⟨s', hs', Or.inr (by rw [hc]; exact hlt)⟩

theorem snoc_true_ne_cons_false (bs : List Bool) : bs ++ [true] ≠ false :: bs := by
  intro h
  have := congrArg (List.count true) h
  simp at this

/-- A step of spec-v1 that stops inside its block delivers the tokens up to the stop, the
last of them marked. -/
theorem Tracks.verify_stop {s : Rollout B} (h : s.Tracks) (hin : s.InBatch)
    (hg : s.req.grammar = none) {row : VerifyRow B} {k : ℕ} (hk : 0 < k)
    (hlt : k < row.acceptLen + 1)
    (hbefore : ∀ n, 0 < n → n < k → s.req.finishesAfter (row.proposed.take n) = false)
    (hat : s.req.finishesAfter (row.proposed.take k) = true) :
    ∃ s', s.verify row false = .ok s' ∧ s'.req.finished = true ∧
      s'.client.outputIds.length = s.req.outputIds.length + k ∧
      alignDflashRejectTokenMask (s'.client.customizedInfo.get? .dflashRejectTokenMask)
        s'.client.outputIds.length =
          (s.maskStream.flags ++ List.replicate (k - 1) false) ++ [true] := by
  obtain ⟨out, -, hv, hverify, htracks, hship, hlg⟩ := h.verified hin row
  obtain ⟨hcommit, hcore⟩ := verified_sameCore hv (h.open_of_inBatch hin) hg hk hlt.le hbefore
    (Or.inr hat)
  obtain ⟨s', hs', ht', hset', hstr⟩ := htracks.stream fun _ : Emits _ false => hship
  have hfin : s'.req.finished = true := hstr.finished_eq.trans (hcore.finished_eq.trans hat)
  obtain ⟨hoff, -, -⟩ := ht'.finish.all_sent (hset' hfin)
  have hresp : s'.response.length = s.response.length + k := by
    rw [hstr.response_eq, ← hcommit]
    exact hlg.length_eq
  have hlen : s'.client.outputIds.length = s.response.length + k := by
    rw [ht'.client_eq, hoff, List.take_length, hresp]
  refine ⟨s', (hverify false).trans hs', hfin, ?_, ?_⟩
  · rw [hlen, h.response_eq hin.unfinished]
  · have hlog : s'.log.map StepRecord.stop =
        s.log.map StepRecord.stop ++ [s.response.length + k] := by
      rw [hstr.log_eq, hlg.log_eq, logWith, List.map_append, hcommit, h.response_eq hin.unfinished]
      rfl
    have hstops : ∀ x ∈ s.log.map StepRecord.stop, x ≤ s.response.length := by
      simp only [List.mem_map, forall_exists_index, and_imp, forall_apply_eq_imp_iff₂]
      exact fun r hr => (h.steps r hr).stop_le
    rw [ht'.aligned_mask, hlen, hlog, marks_record hstops hk, ← h.mask.flags_eq, List.append_assoc]

/-- The mask spec-v2 delivers with a block when nothing was sent before. -/
theorem mask_of_whole_block {s₁ s₂ s₂' : Rollout B} (h : Alike s₁ s₂) (ht : s₁.Tracks)
    (hin : s₁.InBatch)
    (hmask₁ : keyList (some s₁.client.customizedInfo) .dflashRejectTokenMask = [])
    {row : VerifyRow B}
    (hmask₂ : keyList (some s₂'.client.customizedInfo) .dflashRejectTokenMask =
      keyList (some s₂.client.customizedInfo) .dflashRejectTokenMask ++
        recordAt (.bool false) (.bool true) s₂.req.outputIds.length (row.acceptLen + 1)
          (keyList s₂.req.customizedInfo .dflashRejectTokenMask)) :
    ((s₂'.client.customizedInfo.get? .dflashRejectTokenMask).getD []).map Value.truthy =
      s₁.maskStream.flags ++ (List.replicate row.acceptLen false ++ [true]) := by
  have hkey : InfoKey.dflashRejectTokenMask ∈ comparedKeys := List.mem_cons_self
  rw [h.client_eq _ hkey, hmask₁, List.nil_append, h.info_eq _ hkey, h.core.outputIds_eq] at hmask₂
  have hmap := congrArg (List.map Value.truthy) hmask₂
  rw [map_recordAt, recordAt_eq _ _ _ (Nat.succ_pos _), Nat.succ_sub_one] at hmap
  refine hmap.trans ?_
  rw [SideStream.flags, ← ht.response_eq hin.unfinished]
  rfl

/-- A stop inside a block is delivered differently when nothing was sent before. -/
theorem Alike.disagree {s₁ s₂ : Rollout B} (h : Alike s₁ s₂) (ht : s₁.Tracks)
    (hin : s₁.InBatch) (hg : s₁.req.grammar = none) (hclient₁ : s₁.client.outputIds = [])
    (hmask₁ : keyList (some s₁.client.customizedInfo) .dflashRejectTokenMask = [])
    (hoff₁ : s₁.req.sendTokenOffset = 0) {row : VerifyRow B} {k : ℕ} (hk : 0 < k)
    (hlt : k < row.acceptLen + 1)
    (hbefore : ∀ n, 0 < n → n < k → s₁.req.finishesAfter (row.proposed.take n) = false)
    (hat : s₁.req.finishesAfter (row.proposed.take k) = true) (rows : List (VerifyRow B)) :
    ∃ s₁' s₂', s₁.run ((row :: rows).map fun row => .verify row false) = .ok s₁' ∧
      s₂.run ((row :: rows).map fun row => .result row false) = .ok s₂' ∧
      ¬SameDelivery s₁' s₂' := by
  obtain ⟨t₁, ht₁, hfin₁, hlen₁, hmask⟩ := ht.verify_stop hin hg hk hlt hbefore hat
  have hrun₁ : s₁.run ((row :: rows).map fun row => .verify row false) = .ok t₁ := by
    have hnot : ¬t₁.InBatch := fun hin => absurd (hin.unfinished.symm.trans hfin₁) (by simp)
    have := run_verify_of_not_inBatch hnot (rows.map fun row => (row, false))
    rw [List.map_map] at this
    rw [List.map_cons, Rollout.run, step, ht₁]
    exact this
  have hpos : 0 < s₁.req.outputIds.length := List.length_pos_iff.mpr hin.prefilled
  have hpend : s₂.Pending s₁.req.outputIds.length := by
    have ho := ht.open_of_inBatch hin
    have hcore := h.core
    refine ⟨h.outputIds_eq.trans hclient₁, h.sendTokenOffset_eq.trans hoff₁,
      h.finishedOutput_eq.trans (ht.finish.finishedOutput_eq hin.unfinished),
      h.isRetracted_eq.trans hin.notRetracted, ?_, by rw [hcore.outputIds_eq]⟩
    rw [← show s₁.req.withBook s₂.req = s₂.req from hcore]
    exact ⟨ho.unfinished, ho.finishedLen_eq, ho.length_lt⟩
  obtain ⟨t₂, ht₂, hcase⟩ := hpend.result row
  suffices hsuff : ∃ s₂', t₂.run (rows.map fun row => .result row false) = .ok s₂' ∧
      ¬SameDelivery t₁ s₂' by
    obtain ⟨s₂', hs₂', hd⟩ := hsuff
    refine ⟨t₁, s₂', hrun₁, ?_, hd⟩
    rw [List.map_cons, Rollout.run, step, ht₂]
    exact hs₂'
  rcases hcase with hp | ⟨-, hf, ho, hmask₂⟩
  · -- spec-v2 goes on past the stop, and delivers nothing or more
    obtain ⟨s₂', hs₂', hd⟩ := hp.run rows
    refine ⟨s₂', hs₂', fun hsame => ?_⟩
    have hlen := congrArg List.length hsame.outputIds_eq
    rw [hlen₁] at hlen
    rcases hd with hd | hd
    · rw [hd, List.length_nil] at hlen
      omega
    · omega
  · -- spec-v2 stops in this block too, and its mask is longer than the response
    obtain ⟨s₂', hs₂', hc⟩ := run_result_of_sent (rows.map fun row => (row, false)) hf ho
    rw [List.map_map] at hs₂'
    refine ⟨s₂', hs₂', fun hsame => ?_⟩
    have hraw := mask_of_whole_block h ht hin hmask₁ hmask₂
    have heq := hsame.mask_eq
    rw [hmask, hsame.outputIds_eq, hlen₁, hc] at heq
    have hflen : s₁.maskStream.flags.length = s₁.req.outputIds.length := by
      rw [SideStream.length_flags ht.mask.inStep.side_le, ← ht.response_eq hin.unfinished]
      rfl
    obtain ⟨n, hn⟩ : ∃ n, s₁.req.outputIds.length + k = n + 1 :=
      ⟨s₁.req.outputIds.length + k - 1, by omega⟩
    rw [hn, align_of_length_gt] at heq
    · have htake : (s₁.maskStream.flags ++ (List.replicate row.acceptLen false ++ [true])).take n =
          s₁.maskStream.flags ++ List.replicate (k - 1) false := by
        have hn' : n = s₁.maskStream.flags.length + (k - 1) := by omega
        rw [hn', List.take_length_add_append, List.take_append_of_le_length (by simp; omega),
          List.take_replicate, Nat.min_eq_left (by omega)]
      rw [hraw, htake] at heq
      exact snoc_true_ne_cons_false _ heq.symm
    · rw [hraw, List.length_append, hflen]
      simp only [List.length_append, List.length_replicate, List.length_singleton]
      omega

/-- A stop inside some block is delivered differently when nothing is due. -/
theorem Alike.run_disagree : ∀ (rows : List (VerifyRow B)) {s₁ s₂ : Rollout B} {req : Req},
    Alike s₁ s₂ → s₁.Tracks → s₁.InBatch → req.SameCore s₁.req → req.grammar = none →
    s₁.client.outputIds = [] →
    keyList (some s₁.client.customizedInfo) .dflashRejectTokenMask = [] →
    s₁.req.sendTokenOffset = 0 → ¬StopsAtBlockEnds req rows → ∃ s₁' s₂',
      s₁.run (rows.map fun row => .verify row false) = .ok s₁' ∧
      s₂.run (rows.map fun row => .result row false) = .ok s₂' ∧ ¬SameDelivery s₁' s₂'
  | [], _, _, _, _, _, _, _, _, _, _, _, hnot => absurd trivial hnot
  | row :: rows, s₁, s₂, req, h, ht, hin, hcore, hg, hc, hm, ho, hnot => by
    have hg₁ := hcore.grammar_eq.trans hg
    by_cases hbefore : ∀ n, 0 < n → n < row.acceptLen + 1 →
        s₁.req.finishesAfter (row.proposed.take n) = false
    · obtain ⟨s₁', s₂', hs₁', hs₂', h', ht', -, hret', hne', hfin', hcore', hkeep'⟩ :=
        h.block_step ht hin hg₁ hbefore false
      have hrest : ¬(req.finishesAfter row.proposed = true ∨
          StopsAtBlockEnds (req.appendAll row.proposed) rows) := fun hor =>
        hnot ⟨fun n hn hlt => by rw [← hcore.finishesAfter_eq]; exact hbefore n hn hlt, hor⟩
      obtain ⟨hnf, hns⟩ := not_or.mp hrest
      have hun : s₁'.req.finished = false := by
        rw [hfin', hcore.finishesAfter_eq]
        exact Bool.eq_false_iff.mpr hnf
      obtain ⟨hc', ho'⟩ := hkeep' hun rfl
      obtain ⟨t₁, t₂, hrun₁, hrun₂, hd⟩ := Alike.run_disagree rows h' ht' ⟨hun, hret', hne'⟩
        ((hcore.appendAll _).trans (hcore' hun)) hg (by rw [hc']; exact hc) (by rw [hc']; exact hm)
        (ho'.trans ho) hns
      refine ⟨t₁, t₂, ?_, ?_, hd⟩
      · rw [List.map_cons, Rollout.run, step, hs₁']
        exact hrun₁
      · rw [List.map_cons, Rollout.run, step, hs₂']
        exact hrun₂
    · have hex : ∃ n, 0 < n ∧ n < row.acceptLen + 1 ∧
          s₁.req.finishesAfter (row.proposed.take n) = true := by
        simpa using hbefore
      -- the first position inside the block that finishes the request
      obtain ⟨hk, hlt, hat⟩ := Nat.find_spec hex
      refine h.disagree ht hin hg₁ hc hm ho hk hlt (fun n hn hn' => ?_) hat rows
      by_contra hne
      exact Nat.find_min hex hn' ⟨hn, by omega, by simpa using hne⟩

/-- Both paths start from the same prefill result. -/
theorem prefill_step_core {req : Req} (hfresh : req.Fresh) (tokenId : ℤ) (due : Bool) :
    ∃ s : Rollout B, (init req).step (.prefill tokenId due) = .ok s ∧ s.Tracks ∧ s.Settled ∧
      s.req.isRetracted = false ∧ s.req.outputIds ≠ [] ∧
      s.req.finished = req.finishesAfter [tokenId] ∧
      (s.req.finished = false → (req.appendAll [tokenId]).SameCore s.req) ∧
      (s.req.finished = false → due = false → s.client = ⟨[], .empty, .empty⟩ ∧
        s.req.sendTokenOffset = 0) := by
  obtain ⟨s, hs, ht, hset, -, hret, hlen, hfin⟩ := prefill_step_init (B := B) hfresh tokenId due
  have hpre : prefillReq req tokenId = (req.appendAll [tokenId]).checkFinished 1 :=
    hfresh.prefillReq_eq tokenId
  have hstream : ({ init req with req := prefillReq req tokenId } : Rollout B).stream due = .ok s :=
    hs
  rw [hpre] at hfin hstream
  refine ⟨s, hs, ht, hset, hret, fun hnil => ?_, hfin, fun hun => ?_, fun hun hdue => ?_⟩
  · rw [hnil] at hlen
    cases hlen
  · have hun' := hfin.symm.trans hun
    have hcore := sameCore_stream hstream hun'
    simp only [(Req.eq_of_checkFinished_unfinished hun').1] at hcore
    exact hcore
  · have hun' := hfin.symm.trans hun
    rw [stream_of_not_due hun' hdue] at hstream
    obtain rfl := Except.ok.inj hstream
    refine ⟨rfl, ?_⟩
    simp only [(Req.eq_of_checkFinished_unfinished hun').1]
    exact hfresh.sendTokenOffset_eq

/-- Spec-v2 delivers what spec-v1 delivers, under every emission schedule, exactly when the
request stops at the end of a block, if at all. -/
theorem overlapAgrees_iff {req : Req} (hfresh : req.Fresh) (hg : req.grammar = none)
    (tokenId : ℤ) (rows : List (VerifyRow B)) :
    OverlapAgrees req tokenId rows ↔ req.finishesAfter [tokenId] = true ∨
      StopsAtBlockEnds (req.appendAll [tokenId]) rows := by
  constructor
  · intro hagree
    by_contra hcond
    obtain ⟨hnf, hns⟩ := not_or.mp hcond
    obtain ⟨s, hs, ht, -, hret, hne, hfin, hcore, hkeep⟩ :=
      prefill_step_core (B := B) hfresh tokenId false
    have hun : s.req.finished = false := hfin.trans (Bool.eq_false_iff.mpr hnf)
    obtain ⟨hc, ho⟩ := hkeep hun rfl
    obtain ⟨t₁, t₂, hrun₁, hrun₂, hd⟩ := Alike.run_disagree rows (.refl s) ht ⟨hun, hret, hne⟩
      (hcore hun) hg (by rw [hc]) (by rw [hc]; rfl) ho hns
    obtain ⟨s₁, s₂, hs₁, hs₂, hsame⟩ := hagree false (rows.map fun row => (row, false))
      (by rw [List.map_map]; exact List.map_id _)
    rw [run, hs, List.map_map] at hs₁ hs₂
    obtain rfl := Except.ok.inj (hrun₁.symm.trans hs₁)
    obtain rfl := Except.ok.inj (hrun₂.symm.trans hs₂)
    exact hd hsame
  · intro hcond due xs hxs
    obtain ⟨s, hs, ht, hset, hret, hne, hfin, hcore, -⟩ :=
      prefill_step_core (B := B) hfresh tokenId due
    suffices hsuff : ∃ t₁ t₂, s.run (xs.map fun x => .verify x.1 x.2) = .ok t₁ ∧
        s.run (xs.map fun x => .result x.1 x.2) = .ok t₂ ∧ SameDelivery t₁ t₂ by
      obtain ⟨t₁, t₂, ht₁, ht₂, hd⟩ := hsuff
      refine ⟨t₁, t₂, ?_, ?_, hd⟩
      · rw [run, hs]
        exact ht₁
      · rw [run, hs]
        exact ht₂
    by_cases hf : s.req.finished = true
    · exact (Alike.refl s).run_of_sent hf hset xs
    · have hun : s.req.finished = false := Bool.eq_false_iff.mpr hf
      refine Alike.run xs (.refl s) ht ⟨hun, hret, hne⟩ (hcore hun) hg ?_
      rw [hxs]
      exact hcond.resolve_left (by rw [← hfin]; exact hf)

/-- A block whose tokens all go on is delivered alike. -/
theorem overlapAgrees_acceptedRow :
    OverlapAgrees (Req.new "r" [1] {} none [] 100) 5 [acceptedRow] := by
  refine (overlapAgrees_iff (Req.fresh_new "r" [1] {} none [] 100) rfl 5 [acceptedRow]).mpr
    (Or.inr ⟨fun n hn hlt => ?_, Or.inr trivial⟩)
  have hlt' : n < 2 := hlt
  obtain rfl : n = 1 := by omega
  rfl

/-- A stop token as the accepted draft of a block : spec-v1 marks the stop position, and
spec-v2 the token after it, which the response does not have. -/
theorem not_overlapAgrees_stop_inside_block :
    ¬OverlapAgrees (Req.new "r" [1] { stopTokenIds := [6] } none [] 100) 5 [acceptedRow] := by
  intro hagree
  obtain ⟨s₁, s₂, hs₁, hs₂, hsame⟩ := hagree false [(acceptedRow, false)] rfl
  obtain rfl := Except.ok.inj hs₁
  obtain rfl := Except.ok.inj hs₂
  have hmask : [false, false] = [false, true] := hsame.mask_eq
  exact absurd hmask (by decide)

end Rollout

end DraftOpd
