import DraftOpd.VerifyRun

/-!
# Runs with retraction and late results

A retraction resets the KV state of a request but neither its output nor its metadata,
and the prefill after it appends a token that no verify step records. On the overlap
path a result may be processed after its request finished or was retracted, and writes
counters and metadata before it is skipped. Both can put the mask out of step with the
response (`metadata_out_of_step`).

`StepOk` is the condition on an event that rules this out, and `retraction_run_metadata`
the result for the runs whose events meet it : the metadata and the counters are those of
the steps whose tokens entered the output.
-/

namespace DraftOpd

namespace Rollout

variable {B : ℕ}

/-- A prefill token is not shipped by itself once there has been a verify step. Before
the first one it may be shipped as the first token, or when it finishes the request. -/
def PrefillOk (s : Rollout B) (tokenId : ℤ) (due : Bool) : Prop :=
  if s.req.finished || s.req.isRetracted then s.Emits due → s.MaskShippable
  else Emits { s with req := prefillReq s.req tokenId } due →
    s.log = [] ∧ ((prefillReq s.req tokenId).finished = true ∨ s.req.outputIds = [])

/-- A result arrives while its request is running, and no token before the last of its
block stops the request. -/
structure ResultOk (s : Rollout B) (row : VerifyRow B) : Prop where
  inBatch : s.InBatch
  endsBlock : s.req.EndsBlock row.proposed

/-- The condition on an event. -/
def StepOk (s : Rollout B) : Event B → Prop
  | .prefill tokenId due => s.PrefillOk tokenId due
  | .result row _ => s.ResultOk row
  | _ => True

/-- Every event of the run meets its condition in the state it happens in. -/
def RunOk : Rollout B → List (Event B) → Prop
  | _, [] => True
  | s, e :: es => s.StepOk e ∧ ∀ s', s.step e = .ok s' → s'.RunOk es

/-! ## The events -/

theorem Tracks.prefill_step {s : Rollout B} (h : s.Tracks) {tokenId : ℤ} {due : Bool}
    (hok : s.PrefillOk tokenId due) :
    ∃ s', s.step (.prefill tokenId due) = .ok s' ∧ s'.Tracks ∧ s'.Settled := by
  obtain ⟨s', hs', ht', hset', -⟩ := (h.prefill tokenId).stream fun hem : Emits _ due => by
    unfold PrefillOk at hok
    by_cases hskip : (s.req.finished || s.req.isRetracted) = true
    · have hpre : prefillReq s.req tokenId = s.req := if_pos hskip
      rw [if_pos hskip] at hok
      rw [hpre] at hem ⊢
      exact hok hem
    · have hpre : prefillReq s.req tokenId = (s.req.append tokenId).checkFinished 1 := if_neg hskip
      rw [if_neg hskip] at hok
      obtain ⟨hlog, hfin⟩ := hok hem
      refine Or.inr ⟨(h.prefill tokenId).mask.side_nil hlog, hfin.imp id fun hnil => ?_⟩
      refine (Req.length_through_le _).trans_eq ?_
      simp only [hpre, Req.length_checkFinished, Req.append, hnil, List.nil_append,
        List.length_singleton]
  exact ⟨s', hs', ht', hset'⟩

/-- A whole block appended to a request that stops nowhere before its end. -/
theorem extendChecked_of_endsBlock (row : VerifyRow B) {req : Req} (info : Option CustomizedInfo)
    (kv : ℕ) (hun : req.finished = false) (hfl : req.finishedLen = none)
    (hends : req.EndsBlock row.proposed) :
    (∃ t, ((req.resolved row info kv).extendChecked row.proposed).outputIdsThroughStop =
      req.outputIds ++ (row.drafts.take row.acceptLen ++ [t])) ∧
    (((req.resolved row info kv).extendChecked row.proposed).finished = false →
      ((req.resolved row info kv).extendChecked row.proposed).Open) := by
  obtain ⟨hlen, hnot⟩ := hends
  have hdrop : row.proposed.dropLast = row.drafts.take row.acceptLen := by
    rw [VerifyRow.proposed, List.dropLast_concat]
  have hprop : row.proposed = row.drafts.take row.acceptLen ++ [row.bonus] := rfl
  have hone : (req.resolved row info kv).extendChecked row.proposed =
      Req.checkFinished { req.resolved row info kv with
        outputIds := req.outputIds ++ row.proposed } 1 :=
    Req.checkFinished_block rfl fun x hx => hnot x (hdrop ▸ hx)
  obtain ⟨⟨t, ht⟩, hopen⟩ := Req.checkFinished_last
    { req.resolved row info kv with outputIds := req.outputIds ++ row.proposed }
    hun hfl (by rw [hprop, ← List.append_assoc]) (by
      rw [hprop, List.length_append, List.length_singleton] at hlen
      rw [List.length_append]
      exact Nat.lt_of_lt_of_le (by omega) hlen)
  rw [hone]
  exact ⟨⟨t, by rw [ht, List.append_assoc]⟩, hopen⟩

/-- A result of a running request is its verify step, when the block ends where the
request stops. -/
theorem Tracks.result_step {s : Rollout B} (h : s.Tracks) {row : VerifyRow B} {due : Bool}
    (hok : s.ResultOk row) :
    ∃ s', s.step (.result row due) = .ok s' ∧ s'.Tracks ∧ s'.Settled := by
  obtain ⟨⟨hun, hret, hne⟩, hends⟩ := hok
  have hfl := h.finish.finishedLen_eq hun
  obtain ⟨info, kv, g, hdecode, -, hrec⟩ := decodeOverlap_running row hun hret
  obtain ⟨⟨t, hthrough⟩, hopen⟩ := extendChecked_of_endsBlock row info kv hun hfl hends
  obtain ⟨reason, len, toF, out, hframe⟩ :=
    (s.req.resolved row info kv).extendChecked_frame row.proposed
  obtain ⟨req', hreq'⟩ : ∃ req' : Req, req' =
    { (s.req.resolved row info kv).extendChecked row.proposed with grammar := g } := ⟨_, rfl⟩
  have hnew : (row.drafts.take row.acceptLen ++ [t]).length = row.acceptLen + 1 := by
    have := row.acceptLen_le
    simp [row.length_drafts, this]
  have hresp : req'.outputIdsThroughStop
      = s.response ++ (row.drafts.take row.acceptLen ++ [t]) := by
    rw [h.response_eq hun, hreq']
    exact hthrough
  have hrec' : Recorded row s.req.customizedInfo s.req.outputIds.length (row.acceptLen + 1)
      req'.customizedInfo := by
    rw [hreq', hframe]
    exact hrec
  have htracks : Tracks { s with req := req', log := s.logWith (row.acceptLen + 1) row } := by
    refine h.record hun hne hresp hnew (Nat.succ_pos _) le_rfl ?_ hrec' ?_ ?_ ?_
    · rw [Nat.add_sub_cancel, List.take_append_of_le_length, List.take_take, Nat.min_self]
      rw [List.length_append, List.length_singleton] at hnew
      omega
    · rw [hreq', hframe]
      rfl
    · refine h.counters.record ?_ ?_ ?_ <;> rw [hreq', hframe] <;> rfl
    · refine finishTracks_of_open (fun hf => ?_) ?_
      · rw [hreq'] at hf ⊢
        have ho := hopen hf
        exact ⟨ho.unfinished, ho.finishedLen_eq, ho.length_lt⟩
      · rw [hreq', hframe]
        exact h.finish.finishedOutput_eq hun
  obtain ⟨s', hs', ht', hset', -⟩ := htracks.stream fun _ : Emits _ due =>
    maskShippable_of_recorded h hun hresp hnew hrec'
  refine ⟨s', ?_, ht', hset'⟩
  rw [step, result, hdecode, ← hreq', if_neg (by simp [hun, hret])]
  exact hs'

/-- A field of the request that the metadata does not depend on changed. -/
theorem Tracks.frame {s : Rollout B} (h : s.Tracks) {retracted : Bool} {count kvC kvA : ℕ}
    {toFinish : Option FinishReason} :
    Tracks { s with req := { s.req with
      isRetracted := retracted, retractionCount := count, kvCommittedLen := kvC,
      kvAllocatedLen := kvA, toFinish := toFinish } } :=
  h.append (List.append_nil _).symm rfl rfl
    ⟨h.counters.verifyCt, h.counters.acceptedTokens, h.counters.histogram⟩
    ⟨h.finish.finishedLen_eq, h.finish.finishedOutput_eq, h.finish.room, h.finish.all_sent⟩ id

/-- Every event that meets its condition keeps track. -/
theorem Tracks.step_ok {s : Rollout B} (h : s.Tracks) (hset : s.Settled) {e : Event B}
    (hok : s.StepOk e) : ∃ s', s.step e = .ok s' ∧ s'.Tracks ∧ s'.Settled := by
  cases e with
  | prefill tokenId due => exact h.prefill_step hok
  | verify row due =>
    by_cases hin : s.InBatch
    · obtain ⟨s', c, hs', ht', hset', -⟩ := h.verify_step hin row due
      exact ⟨s', hs', ht', hset'⟩
    · exact ⟨s, verify_of_not_inBatch hin row due, h, hset⟩
  | result row due => exact h.result_step hok
  | retract => exact ⟨_, rfl, h.frame, hset⟩
  | extend => exact ⟨_, rfl, h.frame, hset⟩
  | abort reason => exact ⟨_, rfl, h.frame, hset⟩

/-- Every run whose events meet their conditions keeps track. -/
theorem Tracks.run_ok : ∀ (events : List (Event B)) {s : Rollout B}, s.Tracks → s.Settled →
    s.RunOk events → ∃ s', s.run events = .ok s' ∧ s'.Tracks ∧ s'.Settled
  | [], s, h, hset, _ => ⟨s, rfl, h, hset⟩
  | e :: es, s, h, hset, hok => by
    obtain ⟨s₁, hs₁, h₁, hset₁⟩ := h.step_ok hset hok.1
    obtain ⟨s₂, hs₂, h₂, hset₂⟩ := h₁.run_ok es hset₁ (hok.2 s₁ hs₁)
    refine ⟨s₂, ?_, h₂, hset₂⟩
    rw [run, hs₁]
    exact hs₂

/-- The metadata across retractions and late results. In every run whose events meet their
conditions, the counters and the lists of the request are those of the steps whose tokens
entered the output, and once the request finishes the aligned mask of the response marks
the last token of each of them. -/
theorem retraction_run_metadata {req : Req} (hfresh : req.Fresh) (events : List (Event B))
    (hok : (init req : Rollout B).RunOk events) : ∃ s : Rollout B, (init req).run events = .ok s ∧
    s.CountersTrack ∧ s.maskStream.flags = marks (s.log.map StepRecord.stop) s.response.length ∧
    (∀ key ∈ rejectedKeys, (keyList s.req.customizedInfo key).flatMap Value.asList =
      (s.log.flatMap StepRecord.rejected).map fun e => e.value key) ∧
    (s.req.finished = true →
      s.client.outputIds = s.req.outputIdsThroughStop ∧
      alignDflashRejectTokenMask ((s.client.metaInfo.get? .dflashRejectTokenMask).map Value.asList)
        s.client.outputIds.length = marks (s.log.map StepRecord.stop) s.client.outputIds.length ∧
      ∀ key ∈ rejectedKeys, ((s.client.metaInfo.get? key).map Value.asList).getD [] =
        (s.log.flatMap StepRecord.rejected).map fun e => e.value key) := by
  have hset : (init req : Rollout B).Settled := fun hf =>
    absurd (hf.symm.trans hfresh.unfinished) (by simp)
  obtain ⟨s, hs, h, hset'⟩ := (tracks_init hfresh).run_ok events hset hok
  refine ⟨s, hs, h.counters, h.mask.flags_eq, fun key hkey => ?_, fun hfin => ?_⟩
  · rw [(h.keys key hkey).recorded, List.map_flatMap]
  · obtain ⟨hoff, hsent, hmeta⟩ := h.finish.all_sent (hset' hfin)
    have hlist : ∀ key, (s.client.metaInfo.get? key).map Value.asList =
        s.client.customizedInfo.get? key := fun key => by
      rw [hmeta key, Option.map_map]
      exact Option.map_id'
    refine ⟨?_, ?_, fun key hkey => ?_⟩
    · rw [h.client_eq, hoff, List.take_length]
      rfl
    · rw [hlist]
      exact h.aligned_mask
    · rw [hlist, ← hsent]
      exact h.delivered_lists hkey

/-- A retracted request that is prefilled again and verified before anything is sent. -/
theorem retraction_run_metadata_unsent :
    ∃ s : Rollout 2, (init (Req.new "r" [1] {} none [] 100)).run
        [.prefill 5 false, .verify acceptedRow true, .retract, .extend, .prefill 8 false,
          .verify acceptedRow true] = .ok s ∧ s.CountersTrack := by
  obtain ⟨s, hs, hctr, -⟩ := retraction_run_metadata (B := 2)
    (Req.fresh_new "r" [1] {} none [] 100)
    [.prefill 5 false, .verify acceptedRow true, .retract, .extend, .prefill 8 false,
      .verify acceptedRow true] (by
    refine ⟨fun h => absurd h Bool.false_ne_true, ?_⟩
    rintro s₁ hs₁
    obtain rfl := Except.ok.inj hs₁
    refine ⟨trivial, ?_⟩
    rintro s₂ hs₂
    obtain rfl := Except.ok.inj hs₂
    refine ⟨trivial, ?_⟩
    rintro s₃ hs₃
    obtain rfl := Except.ok.inj hs₃
    refine ⟨trivial, ?_⟩
    rintro s₄ hs₄
    obtain rfl := Except.ok.inj hs₄
    refine ⟨fun h => absurd h Bool.false_ne_true, ?_⟩
    rintro s₅ hs₅
    obtain rfl := Except.ok.inj hs₅
    exact ⟨trivial, fun _ _ => trivial⟩)
  exact ⟨s, hs, hctr⟩

/-- The token of a second prefill finishes the request : the mask arrives one short and
the mark of the verify step, at index 2, moves to index 3. A late result of a finished
request is skipped, but it is counted. -/
theorem metadata_out_of_step :
    (∃ s : Rollout 2, (init (Req.new "r" [1] { maxNewTokens := 4 } none [] 100)).run
        [.prefill 5 false, .verify acceptedRow false, .retract, .extend, .prefill 8 false] = .ok s ∧
      s.req.finished = true ∧ s.log.map StepRecord.stop = [3] ∧
      alignDflashRejectTokenMask ((s.client.metaInfo.get? .dflashRejectTokenMask).map Value.asList)
        s.client.outputIds.length = [false, false, false, true]) ∧
    ∃ s : Rollout 2, (init (Req.new "r" [1] { maxNewTokens := 1 } none [] 100)).run
        [.prefill 5 false, .result acceptedRow false] = .ok s ∧
      s.log.length = 0 ∧ s.req.specVerifyCt = 1 :=
  ⟨⟨_, rfl, rfl, rfl, rfl⟩, ⟨_, rfl, rfl, rfl⟩⟩

end Rollout

end DraftOpd
