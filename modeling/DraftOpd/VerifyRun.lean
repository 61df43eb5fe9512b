import DraftOpd.Rollout

/-!
# Spec-v1 runs

Every event of the spec-v1 path keeps `Rollout.Tracks` : the prefill result when it is
not emitted past a short mask (`Tracks.prefill_step`), the verify step always
(`Tracks.verify_step`). Without retraction the prefill token is the only output without
a record, so the runs of the path keep track under every emission schedule.

`verify_run_metadata` is the result : in every such run the aligned reject mask of the
delivered response marks the last token of each verify step, and the four rejected-draft
lists are those of the steps that reached their rejection point.
-/

namespace DraftOpd

variable {B : ℕ}

/-- A check of one new token leaves the tokens before it, and the whole output up to the
stop. -/
theorem Req.checkFinished_last (req : Req) {pre : List ℤ} {t : ℤ} (hun : req.finished = false)
    (hfl : req.finishedLen = none) (hout : req.outputIds = pre ++ [t])
    (hlen : pre.length < req.samplingParams.maxNewTokens) :
    (∃ t', (req.checkFinished 1).outputIdsThroughStop = pre ++ [t']) ∧
      ((req.checkFinished 1).finished = false → (req.checkFinished 1).Open) := by
  rcases Req.checkFinished_one_cases hun hout hlen with ⟨h, hlt⟩ | ⟨hf, hfl', t', hout', -⟩
  · rw [h]
    refine ⟨⟨t, by rw [outputIdsThroughStop, hfl, hout]⟩, fun _ => ⟨hun, hfl, ?_⟩⟩
    rw [hout, List.length_append, List.length_singleton]
    exact hlt
  · refine ⟨⟨t', ?_⟩, fun h => ?_⟩
    · unfold outputIdsThroughStop
      rcases hfl' with hfl' | hfl'
      · rw [hfl', hfl, hout']
      · rw [hfl', hout']
        exact List.take_of_length_le (by simp)
    · rw [hf] at h
      cases h

/-- With a limit of zero the first token finishes the request. -/
theorem Req.finished_of_limit_zero {req : Req} (t : ℤ) (hun : req.finished = false)
    (hnil : req.outputIds = [])
    (hlen : ¬req.outputIds.length < req.samplingParams.maxNewTokens) :
    ((req.append t).checkFinished 1).finished = true := by
  have hlen' : ¬(req.append t).outputIds.length < req.samplingParams.maxNewTokens := by
    simp only [append, hnil, List.length_nil, List.nil_append, List.length_singleton] at hlen ⊢
    omega
  have hun' : (req.append t).finished = false := hun
  rcases checkFinished_cases hun' 1 with
    ⟨-, -, hlt, -⟩ | ⟨reason, toF, h⟩ | ⟨-, -, h⟩ | ⟨hlt, -⟩ | ⟨hlt, -⟩
  · exact absurd hlt hlen'
  · rw [h]
    rfl
  · rw [h]
    rfl
  · exact absurd hlt hlen'
  · exact absurd hlt hlen'

namespace Rollout

/-- A finished request has been sent. -/
def Settled (s : Rollout B) : Prop := s.req.finished = true → s.req.finishedOutput = true

/-- The request would be emitted by the stream. -/
def Emits (s : Rollout B) (due : Bool) : Prop := (⟨s.req, false, due⟩ : StreamItem).emitted = true

/-- The mask covers the response, or there is no mask and at most the first token, or a
finished response, is shipped without it. -/
def MaskShippable (s : Rollout B) : Prop :=
  s.maskStream.side.length = s.response.length ∨
    s.maskStream.side = [] ∧ (s.req.finished = true ∨ s.response.length ≤ 1)

/-- The stream sends what there is and changes nothing of it. -/
structure Streamed (s s' : Rollout B) : Prop where
  log_eq : s'.log = s.log
  response_eq : s'.response = s.response
  outputIds_eq : s'.req.outputIds = s.req.outputIds
  finished_eq : s'.req.finished = s.req.finished
  isRetracted_eq : s'.req.isRetracted = s.req.isRetracted

theorem streamed_afterEmission (s : Rollout B) (client' : ReqState) :
    Streamed s { s with req := s.req.afterEmission, client := client', sent := s.log } := by
  obtain ⟨output, len, offset, hframe⟩ := afterEmission_frame s.req
  exact ⟨rfl, through_markFinishedOutput s.req, by rw [hframe], by rw [hframe]; rfl, by rw [hframe]⟩

theorem stream_of_emits {s : Rollout B} {due : Bool} (h : s.Emits due) : ∃ client',
    s.stream due = .ok { s with req := s.req.afterEmission, client := client', sent := s.log } ∧
      Emitted s.req s.client client' := by
  obtain ⟨client', hstream, hem⟩ := streamOne_of_emitted h s.client
  refine ⟨client', ?_, hem⟩
  have he : (⟨s.req, false, due⟩ : StreamItem).emitted = true := h
  unfold Rollout.stream
  rw [hstream]
  simp only [he, if_true]
  rfl

theorem stream_of_not_emits {s : Rollout B} {due : Bool} (h : ¬s.Emits due) :
    s.stream due = .ok s := by
  have he : (⟨s.req, false, due⟩ : StreamItem).emitted = false := Bool.eq_false_iff.mpr h
  unfold Rollout.stream
  rw [streamOne_of_not_emitted he]
  simp only [he, Bool.false_eq_true, if_false]
  rfl

/-- The stream keeps track when the mask can be shipped, and settles the request. -/
theorem Tracks.stream {s : Rollout B} (h : s.Tracks) {due : Bool}
    (hship : s.Emits due → s.MaskShippable) :
    ∃ s', s.stream due = .ok s' ∧ s'.Tracks ∧ s'.Settled ∧ Streamed s s' := by
  by_cases he : s.Emits due
  · obtain ⟨client', hstream, hem⟩ := stream_of_emits he
    refine ⟨_, hstream, h.emission hem (hship he), fun hf => ?_, streamed_afterEmission s client'⟩
    have hf' : s.req.finished = true := (streamed_afterEmission s client').finished_eq.symm.trans hf
    simp only [Req.afterEmission, Req.markFinishedOutput, if_pos hf']
  · refine ⟨s, stream_of_not_emits he, h, fun hf => ?_, rfl, rfl, rfl, rfl, rfl⟩
    simpa [Emits, StreamItem.emitted, hf] using he

/-- An unfinished request's response is its whole output. -/
theorem Tracks.response_eq {s : Rollout B} (h : s.Tracks) (hun : s.req.finished = false) :
    s.response = s.req.outputIds := by
  rw [response, Req.outputIdsThroughStop, h.finish.finishedLen_eq hun]

/-- The prefill token entered the response, unless the limit is zero. -/
theorem Tracks.prefill {s : Rollout B} (h : s.Tracks) (tokenId : ℤ) :
    Tracks { s with req := prefillReq s.req tokenId } := by
  unfold prefillReq
  split_ifs with hskip
  · exact h
  have hun : s.req.finished = false := by
    simp only [Bool.or_eq_true, not_or, Bool.not_eq_true] at hskip
    exact hskip.1
  have hfl := h.finish.finishedLen_eq hun
  obtain ⟨reason, len, toF, out, hframe⟩ := (s.req.append tokenId).checkFinished_frame 1
  obtain ⟨new, hnew, hopen⟩ : ∃ new, ((s.req.append tokenId).checkFinished 1).outputIdsThroughStop =
      s.response ++ new ∧ (((s.req.append tokenId).checkFinished 1).finished = false →
        ((s.req.append tokenId).checkFinished 1).Open) := by
    rw [h.response_eq hun]
    by_cases hlt : s.req.outputIds.length < s.req.samplingParams.maxNewTokens
    · obtain ⟨⟨t', ht'⟩, hopen⟩ :=
        Req.checkFinished_last (s.req.append tokenId) hun hfl rfl hlt
      exact ⟨[t'], ht', hopen⟩
    · have hnil := (h.finish.room hun).resolve_right hlt
      refine ⟨_, by rw [hnil]; rfl, fun hf => ?_⟩
      rw [Req.finished_of_limit_zero tokenId hun hnil hlt] at hf
      cases hf
  have hctr := h.counters
  refine h.append hnew (by rw [hframe]; rfl) (by rw [hframe]; rfl) ?_ ?_ fun _ => hun
  · rw [hframe]
    exact ⟨hctr.verifyCt, hctr.acceptedTokens, hctr.histogram⟩
  · refine finishTracks_of_open hopen ?_
    rw [hframe]
    exact h.finish.finishedOutput_eq hun

/-- After a record the mask covers the response. -/
theorem maskShippable_of_recorded {s : Rollout B} (h : s.Tracks) (hun : s.req.finished = false)
    {req' : Req} {log : List (StepRecord B)} {new : List ℤ} {row : VerifyRow B} {c : ℕ}
    (hresp : req'.outputIdsThroughStop = s.response ++ new) (hnew : new.length = c)
    (hrec : Recorded row s.req.customizedInfo s.req.outputIds.length c req'.customizedInfo) :
    MaskShippable { s with req := req', log := log } := by
  have hside := h.mask.inStep.side_le
  simp only [maskStream, List.length_map] at hside
  refine Or.inl ?_
  simp only [maskStream, response, List.length_map, hresp, hrec.mask, length_recordAt,
    List.length_append, hnew]
  rw [← h.response_eq hun]
  rw [response] at hside ⊢
  omega

theorem take_proposed (row : VerifyRow B) {n : ℕ} (h : n ≤ row.acceptLen) :
    row.proposed.take n = row.drafts.take n := by
  have hlen := row.length_drafts
  have hacc := row.acceptLen_le
  rw [VerifyRow.proposed, List.take_append_of_le_length (by rw [List.length_take]; omega),
    List.take_take, Nat.min_eq_left h]

/-- The request after the verify step and the check of the decode result. -/
theorem verified_then_checked {row : VerifyRow B} {req : Req} {out : VerifyOutcome}
    (hv : Verified row req out) : ∃ new,
    (out.req.checkFinished 1).outputIdsThroughStop = req.outputIds ++ new ∧
    new.length = out.commitLen ∧ 0 < out.commitLen ∧ out.commitLen ≤ row.acceptLen + 1 ∧
    new.take (out.commitLen - 1) = row.drafts.take (out.commitLen - 1) ∧
    ((out.req.checkFinished 1).finished = false → (out.req.checkFinished 1).Open) := by
  obtain ⟨⟨mid, hc, -, info, kv, -, hreq⟩, -, -⟩ := hv
  have hpos := hc.pos
  have hle : out.commitLen ≤ row.acceptLen + 1 := hc.le.trans_eq row.length_proposed
  obtain ⟨t, hout, -⟩ := hc.outputIds_eq
  have hout' : out.req.outputIds =
      (req.outputIds ++ row.proposed.take (out.commitLen - 1)) ++ [t] := by
    rw [hreq, List.append_assoc]
    exact hout
  have hnew : ∀ t', (row.proposed.take (out.commitLen - 1) ++ [t']).length = out.commitLen := by
    intro t'
    have := hc.le
    simp only [List.length_append, List.length_take, List.length_singleton]
    omega
  have htake : ∀ t', (row.proposed.take (out.commitLen - 1) ++ [t']).take (out.commitLen - 1) =
      row.drafts.take (out.commitLen - 1) := by
    intro t'
    have := hnew t'
    rw [List.length_append, List.length_singleton] at this
    rw [List.take_append_of_le_length (by omega), List.take_take, Nat.min_self,
      take_proposed row (by omega)]
  by_cases hf : out.req.finished = true
  · rw [Req.checkFinished_of_finished hf]
    refine ⟨_, ?_, hnew t, hpos, hle, htake t, fun h => absurd (h.symm.trans hf) (by simp)⟩
    rw [← List.append_assoc, ← hout']
    have hfl : out.req.finishedLen = none ∨
        out.req.finishedLen = some out.req.outputIds.length := by
      rw [hreq]
      exact hc.finishedLen_eq
    unfold Req.outputIdsThroughStop
    rcases hfl with hfl | hfl
    · rw [hfl]
    · rw [hfl]
      exact List.take_length
  · have hun : mid.finished = false := by
      rw [hreq] at hf
      exact Bool.eq_false_iff.mpr hf
    have ho := hc.open_of_unfinished hun
    have hlen := ho.length_lt
    have hmid : out.req.outputIds = mid.outputIds := by rw [hreq]; rfl
    obtain ⟨⟨t', ht'⟩, hopen⟩ := Req.checkFinished_last out.req (Bool.eq_false_iff.mpr hf)
      (by rw [hreq]; exact ho.finishedLen_eq) hout' (by
        rw [← hmid, hout', List.length_append, List.length_singleton] at hlen
        rw [hreq]
        exact Nat.lt_of_succ_lt hlen)
    exact ⟨_, by rw [ht', List.append_assoc], hnew t', hpos, hle, htake t', hopen⟩

/-- The request is in the running batch. -/
structure InBatch (s : Rollout B) : Prop where
  unfinished : s.req.finished = false
  notRetracted : s.req.isRetracted = false
  prefilled : s.req.outputIds ≠ []

theorem inBatch_iff (s : Rollout B) : s.InBatch ↔
    ¬(s.req.finished || s.req.isRetracted || s.req.outputIds.isEmpty) = true := by
  simp only [Bool.or_eq_true, not_or, Bool.not_eq_true, List.isEmpty_eq_false_iff]
  exact ⟨fun h => ⟨⟨h.1, h.2⟩, h.3⟩, fun h => ⟨h.1.1, h.1.2, h.2⟩⟩

/-- A verify step that ran was logged, and its tokens are in the response. -/
structure Logged (s s' : Rollout B) (row : VerifyRow B) (c : ℕ) : Prop where
  commit_eq : (commitLoop s.req 0 row.proposed).2 = c
  log_eq : s'.log = s.logWith c row
  length_eq : s'.response.length = s.response.length + c
  isRetracted_eq : s'.req.isRetracted = s.req.isRetracted
  prefilled : s'.req.outputIds ≠ []

theorem verify_of_not_inBatch {s : Rollout B} (h : ¬s.InBatch) (row : VerifyRow B) (due : Bool) :
    s.verify row due = .ok s := by
  rw [inBatch_iff, not_not] at h
  unfold verify
  rw [if_pos h]
  rfl

/-- The request in the batch has room for a token. -/
theorem Tracks.open_of_inBatch {s : Rollout B} (h : s.Tracks) (hin : s.InBatch) : s.req.Open :=
  ⟨hin.unfinished, h.finish.finishedLen_eq hin.unfinished,
    (h.finish.room hin.unfinished).resolve_left hin.prefilled⟩

/-- The verify step before the stream : it is recorded, and the mask covers the response. -/
theorem Tracks.verified {s : Rollout B} (h : s.Tracks) (hin : s.InBatch) (row : VerifyRow B) :
    ∃ out, verifyReq row s.req = .ok out ∧ Verified row s.req out ∧ (∀ due, s.verify row due =
      { s with req := out.req.checkFinished 1, log := s.logWith out.commitLen row }.stream due) ∧
    Tracks { s with req := out.req.checkFinished 1, log := s.logWith out.commitLen row } ∧
    MaskShippable { s with req := out.req.checkFinished 1, log := s.logWith out.commitLen row } ∧
    Logged s { s with req := out.req.checkFinished 1, log := s.logWith out.commitLen row } row
      out.commitLen := by
  have hun := hin.unfinished
  have hne := hin.prefilled
  obtain ⟨out, hverify, hv⟩ := verifyReq_spec row (h.open_of_inBatch hin)
  obtain ⟨new, hresp, hnew, hpos, hle, hdrafts, hopen⟩ := verified_then_checked hv
  obtain ⟨⟨mid, hc, hloop, info, kv, hrec, hreq⟩, -, -⟩ := id hv
  obtain ⟨o, re, fl, toF, g, hmid⟩ := hc.same
  obtain ⟨reason, len, toF', out', hframe⟩ := out.req.checkFinished_frame 1
  rw [← h.response_eq hun] at hresp
  have hrec' : Recorded row s.req.customizedInfo s.req.outputIds.length out.commitLen
      (out.req.checkFinished 1).customizedInfo := by
    rw [hframe, hreq]
    exact hrec
  refine ⟨out, hverify, hv, fun due => ?_, ?_, maskShippable_of_recorded h hun hresp hnew hrec',
    by rw [hloop], rfl, ?_, ?_, fun hnil => ?_⟩
  · unfold verify
    rw [if_neg ((inBatch_iff s).mp hin), hverify]
    rfl
  · refine h.record hun hne hresp hnew hpos hle hdrafts hrec' ?_ ?_ ?_
    · rw [hframe, hreq, hmid]
      rfl
    · refine h.counters.record ?_ ?_ ?_ <;> rw [hframe, hreq, hmid] <;> rfl
    · refine finishTracks_of_open hopen ?_
      rw [hframe, hreq, hmid]
      exact h.finish.finishedOutput_eq hun
  · rw [response, hresp, List.length_append, hnew]
  · rw [hframe, hreq, hmid]
    rfl
  · have hlen := (out.req.checkFinished 1).length_through_le
    simp only at hnil
    rw [hresp, hnil, List.length_append, List.length_nil] at hlen
    omega

/-- The verify step keeps track, whatever the schedule. -/
theorem Tracks.verify_step {s : Rollout B} (h : s.Tracks) (hin : s.InBatch) (row : VerifyRow B)
    (due : Bool) : ∃ s' c, s.verify row due = .ok s' ∧ s'.Tracks ∧ s'.Settled ∧
      Logged s s' row c := by
  obtain ⟨out, -, -, hverify, htracks, hship, hlg⟩ := h.verified hin row
  obtain ⟨s', hs', ht', hset', hstr⟩ := htracks.stream fun _ : Emits _ due => hship
  refine ⟨s', out.commitLen, (hverify due).trans hs', ht', hset', hlg.commit_eq,
    hstr.log_eq.trans hlg.log_eq, ?_, hstr.isRetracted_eq.trans hlg.isRetracted_eq, ?_⟩
  · rw [hstr.response_eq]
    exact hlg.length_eq
  · rw [hstr.outputIds_eq]
    exact hlg.prefilled

/-! ## Runs without retraction -/

/-- The prefill result of a fresh request : its token may be emitted alone. -/
theorem prefill_step_init {req : Req} (hfresh : req.Fresh) (tokenId : ℤ) (due : Bool) :
    ∃ s', (init req : Rollout B).step (.prefill tokenId due) = .ok s' ∧ s'.Tracks ∧ s'.Settled ∧
      s'.log = [] ∧ s'.req.isRetracted = false ∧ s'.req.outputIds.length = 1 ∧
      s'.req.finished = (prefillReq req tokenId).finished := by
  have hinit := (tracks_init hfresh : (init req : Rollout B).Tracks)
  obtain ⟨reason, len, toF, out, hframe⟩ := (req.append tokenId).checkFinished_frame 1
  have hpre := hfresh.prefillReq_eq tokenId
  have hlen : (prefillReq req tokenId).outputIds.length = 1 := by
    rw [hpre, Req.length_checkFinished]
    simp [Req.append, hfresh.outputIds_eq]
  have hinfo : (prefillReq req tokenId).customizedInfo = none := by
    rw [hpre, hframe]
    exact hfresh.customizedInfo_eq
  obtain ⟨s', hs', ht', hset', hstr⟩ := (hinit.prefill tokenId).stream fun _ : Emits _ due => by
    refine Or.inr ⟨?_, Or.inr ((Req.length_through_le _).trans hlen.le)⟩
    simp [maskStream, init, hinfo, keyList]
  refine ⟨s', hs', ht', hset', hstr.log_eq, ?_, ?_, hstr.finished_eq⟩
  · rw [hstr.isRetracted_eq]
    simp only [init, hpre, hframe]
    exact hfresh.isRetracted_eq
  · rw [hstr.outputIds_eq]
    exact hlen

/-- Consecutive steps from response index `n` to `m`. -/
def Chain : ℕ → List (StepRecord B) → ℕ → Prop
  | n, [], m => m = n
  | n, r :: rs, m => r.start = n ∧ Chain r.stop rs m

/-- What a run of verify steps logs : a step for every row, until the request finishes. -/
structure LogsRows (s s' : Rollout B) (rows : List (VerifyRow B)) : Prop where
  log_eq : ∃ steps, s'.log = s.log ++ steps ∧ steps.map StepRecord.row = rows.take steps.length ∧
    Chain s.response.length steps s'.response.length ∧
    (s.req.finished = true → steps = []) ∧ (steps.length < rows.length → s'.req.finished = true)

theorem run_verify_of_not_inBatch {s : Rollout B} (h : ¬s.InBatch) :
    ∀ rows : List (VerifyRow B × Bool), s.run (rows.map fun x => .verify x.1 x.2) = .ok s
  | [] => rfl
  | x :: rows => by
    rw [List.map_cons, run, step, verify_of_not_inBatch h]
    exact run_verify_of_not_inBatch h rows

/-- Verify steps keep track. -/
theorem Tracks.run_verify : ∀ (rows : List (VerifyRow B × Bool)) {s : Rollout B}, s.Tracks →
    s.Settled → s.req.isRetracted = false → s.req.outputIds ≠ [] →
    ∃ s', s.run (rows.map fun x => .verify x.1 x.2) = .ok s' ∧ s'.Tracks ∧ s'.Settled ∧
      LogsRows s s' (rows.map Prod.fst)
  | [], s, h, hset, _, _ => ⟨s, rfl, h, hset, [], by simp, rfl, rfl, fun _ => rfl, by simp⟩
  | x :: rows, s, h, hset, hret, hne => by
    by_cases hf : s.req.finished = true
    · have hnot : ¬s.InBatch := fun hin => absurd (hin.unfinished.symm.trans hf) (by simp)
      exact ⟨s, run_verify_of_not_inBatch hnot _, h, hset, [], by simp, rfl, rfl,
        fun _ => rfl, fun _ => hf⟩
    · have hin : s.InBatch := ⟨Bool.eq_false_iff.mpr hf, hret, hne⟩
      obtain ⟨s₁, c, hs₁, h₁, hset₁, hlg⟩ := h.verify_step hin x.1 x.2
      obtain ⟨s₂, hs₂, h₂, hset₂, steps, hlog, hrow, hchain, -, hlt⟩ :=
        h₁.run_verify rows hset₁ (hlg.isRetracted_eq.trans hret) hlg.prefilled
      refine ⟨s₂, ?_, h₂, hset₂, ⟨s.req.outputIds.length, c, x.1⟩ :: steps, ?_, ?_, ?_,
        fun h' => absurd h' hf, ?_⟩
      · rw [List.map_cons, run, step, hs₁]
        exact hs₂
      · rw [hlog, hlg.log_eq, logWith, List.append_assoc]
        rfl
      · simp [hrow]
      · refine ⟨by rw [h.response_eq hin.unfinished], ?_⟩
        rw [hlg.length_eq, h.response_eq hin.unfinished] at hchain
        exact hchain
      · simpa using hlt

/-- The consumer's mask of the delivered response marks the logged steps. -/
theorem Tracks.aligned_mask {s : Rollout B} (h : s.Tracks) :
    alignDflashRejectTokenMask (s.client.customizedInfo.get? .dflashRejectTokenMask)
      s.client.outputIds.length = marks (s.log.map StepRecord.stop) s.client.outputIds.length := by
  have hoff : s.client.outputIds.length = s.maskStream.offset := by
    rw [h.client_eq, List.length_take]
    exact Nat.min_eq_left h.mask.inStep.offset_le
  have halign : alignDflashRejectTokenMask (s.client.customizedInfo.get? .dflashRejectTokenMask)
      s.maskStream.offset = s.maskStream.flags.take s.maskStream.offset :=
    align_eq_flags h.mask.inStep rfl
  rw [hoff, halign, h.mask.flags_eq]
  exact take_marks _ h.mask.inStep.offset_le

/-- The delivered lists of the rejected-draft keys are those of the steps that were sent. -/
theorem Tracks.delivered_lists {s : Rollout B} (h : s.Tracks) {key : InfoKey}
    (hkey : key ∈ rejectedKeys) :
    keyList (some s.client.customizedInfo) key =
      (s.sent.flatMap StepRecord.rejected).map fun e => e.value key := by
  rw [(h.keys key hkey).sent_eq, List.map_flatMap]

/-- The accepted drafts of a step that was sent stand in the delivered response after the
step's current token. -/
theorem Tracks.delivered_drafts {s : Rollout B} (h : s.Tracks) {r : StepRecord B}
    (hr : r ∈ s.sent) : (s.client.outputIds.drop r.start).take (r.committed - 1) =
      r.row.drafts.take (r.committed - 1) := by
  obtain ⟨hlog, hstop⟩ := h.sent_stop r hr
  have hin := h.steps r hlog
  rw [← hin.drafts_eq, h.client_eq, List.drop_take, List.take_take, Nat.min_eq_left]
  unfold StepRecord.stop at hstop
  omega

/-- The metadata of a spec-v1 rollout. After any run of the path, under any emission
schedule, the aligned mask of the delivered response marks the last token of each
verify step and the rejected-draft lists are the rejected suffixes of the delivered steps
that reached their rejection point. The steps are one per row, consecutive from the
prefill token on, until the request finishes, when everything has been delivered. -/
theorem verify_run_metadata {req : Req} (hfresh : req.Fresh) (tokenId : ℤ) (due : Bool)
    (rows : List (VerifyRow B × Bool)) : ∃ s : Rollout B,
    (init req).run (.prefill tokenId due :: rows.map fun x => .verify x.1 x.2) = .ok s ∧
    alignDflashRejectTokenMask (s.client.customizedInfo.get? .dflashRejectTokenMask)
        s.client.outputIds.length = marks (s.log.map StepRecord.stop) s.client.outputIds.length ∧
    (∀ key ∈ rejectedKeys, keyList (some s.client.customizedInfo) key =
      (s.sent.flatMap StepRecord.rejected).map fun e => e.value key) ∧
    (∀ r ∈ s.sent, r ∈ s.log ∧ 0 < r.start ∧ r.stop ≤ s.client.outputIds.length ∧
      (r.row.records r.committed = true →
        (s.client.outputIds.drop r.start).take r.row.acceptLen =
          r.row.candidates.tail.take r.row.acceptLen)) ∧
    s.log.map StepRecord.row = (rows.map Prod.fst).take s.log.length ∧
    (s.log ≠ [] → Chain 1 s.log s.response.length) ∧
    (s.req.finished = false → s.log.length = rows.length) ∧
    (s.req.finished = true → s.sent = s.log ∧ s.client.outputIds = s.req.outputIdsThroughStop ∧
      ∀ key, s.client.metaInfo.get? key = (s.client.customizedInfo.get? key).map .list) := by
  obtain ⟨s₁, hs₁, h₁, hset₁, hlog₁, hret₁, hlen₁, -⟩ :=
    prefill_step_init (B := B) hfresh tokenId due
  have hne₁ : s₁.req.outputIds ≠ [] := by
    intro hnil
    rw [hnil] at hlen₁
    cases hlen₁
  obtain ⟨s, hs, h, hset, steps, hlog, hrow, hchain, hnil, hlt⟩ :=
    h₁.run_verify rows hset₁ hret₁ hne₁
  rw [hlog₁, List.nil_append] at hlog
  rw [← hlog] at hrow hchain hlt hnil
  refine ⟨s, ?_, h.aligned_mask, fun key hkey => h.delivered_lists hkey, fun r hr => ?_, hrow,
    fun hne => ?_, fun hun => ?_, fun hfin => ?_⟩
  · rw [run, hs₁]
    exact hs
  · obtain ⟨hmem, hstop⟩ := h.sent_stop r hr
    have hin := h.steps r hmem
    refine ⟨hmem, hin.start_pos, ?_, fun hrec => ?_⟩
    · rw [h.client_eq, List.length_take]
      exact le_min hstop hin.stop_le
    · have hacc : r.committed - 1 = r.row.acceptLen := by
        have hle := hin.le
        simp only [VerifyRow.records, decide_eq_true_eq] at hrec
        omega
      rw [← hacc]
      exact h.delivered_drafts hr
  · have hun : s₁.req.finished = false := Bool.eq_false_iff.mpr fun hf => hne (hnil hf)
    rw [h₁.response_eq hun, hlen₁] at hchain
    exact hchain
  · have hle : s.log.length ≤ rows.length := by
      have := congrArg List.length hrow
      rw [List.length_map, List.length_take, List.length_map] at this
      omega
    exact le_antisymm hle (Nat.le_of_not_lt fun h' => by
      have := hlt (by rw [List.length_map]; exact h')
      rw [hun] at this
      cases this)
  · obtain ⟨hoff, hsent, hmeta⟩ := h.finish.all_sent (hset hfin)
    refine ⟨hsent, ?_, hmeta⟩
    rw [h.client_eq, hoff, List.take_length]
    rfl

/-- A row of block size two whose draft is accepted. -/
def acceptedRow : VerifyRow 2 := ⟨[5, 6], [6, 7], fun _ _ => ⊥, by decide, rfl, rfl⟩

/-- A response of three tokens, delivered after its only verify step. -/
theorem verify_run_metadata_acceptedRow :
    ∃ s : Rollout 2, (init (Req.new "r" [1] {} none [] 100)).run
        [.prefill 5 true, .verify acceptedRow true] = .ok s ∧ s.log.length = 1 ∧
      alignDflashRejectTokenMask (s.client.customizedInfo.get? .dflashRejectTokenMask)
        s.client.outputIds.length =
          marks (s.log.map StepRecord.stop) s.client.outputIds.length := by
  obtain ⟨s, hs, hmask, -, -, -, -, hlog, -⟩ := verify_run_metadata
    (Req.fresh_new "r" [1] {} none [] 100) 5 true [(acceptedRow, true)]
  refine ⟨s, hs, hlog ?_, hmask⟩
  obtain rfl := Except.ok.inj hs
  rfl

end Rollout

end DraftOpd
