import DraftOpd.Overlap
import DraftOpd.StreamOutput

/-!
# Runs of one request

A run of one request is a list of events : the prefill result, verify steps of the
spec-v1 path, late decode results of the spec-v2 path, retraction and the prefill after
it, aborts. Every result is followed by `stream_output_generation`, with the due flag of
the event as the emission schedule, and the client accumulates what is emitted.

`Rollout` carries, besides the request and its client, the log of the verify steps
whose tokens entered the output, and how much of the log has been sent. `Tracks` is the
invariant that relates the metadata to the log. It is kept by appending an unrecorded
token (`Tracks.append`), by a recorded step (`Tracks.record`), and by an emission that
ships a mask covering the response, or none at all (`Tracks.emission`).
-/

namespace DraftOpd

variable {B : ℕ}

/-- A verify step whose tokens entered the output : the response index it started at,
the tokens it committed, its row. -/
structure StepRecord (B : ℕ) where
  start : ℕ
  committed : ℕ
  row : VerifyRow B

/-- One past the last token of the step. -/
def StepRecord.stop (r : StepRecord B) : ℕ := r.start + r.committed

/-- A request, its client, and the log of its verify steps. -/
structure Rollout (B : ℕ) where
  req : Req
  client : ReqState
  log : List (StepRecord B)
  /-- The part of the log whose tokens have been sent. -/
  sent : List (StepRecord B)

/-- What can happen to a request. -/
inductive Event (B : ℕ) where
  /-- `process_batch_result_prefill`. -/
  | prefill (tokenId : ℤ) (due : Bool)
  /-- `DFlashVerifyInput.verify`, then `process_batch_result_decode`. -/
  | verify (row : VerifyRow B) (due : Bool)
  /-- `process_batch_result_decode` of an overlapped result. -/
  | result (row : VerifyRow B) (due : Bool)
  /-- `reset_for_retract`. -/
  | retract
  /-- `prepare_for_extend`. -/
  | extend
  /-- `to_finish` set by an abort. -/
  | abort (reason : FinishReason)

/-- The exceptions of a run. -/
inductive RolloutError where
  | verify (error : VerifyError)
  | metadata (error : MetadataError)
  | index (error : IndexError)

/-- One request of `process_batch_result_prefill`
(`scheduler_output_processor_mixin.py:160-172`). -/
def prefillReq (req : Req) (tokenId : ℤ) : Req :=
  if req.finished || req.isRetracted then req else (req.append tokenId).checkFinished 1

namespace Rollout

/-- The stream after a result, and the client's side of it. -/
def stream (s : Rollout B) (due : Bool) : Except RolloutError (Rollout B) := do
  let emitted := (⟨s.req, false, due⟩ : StreamItem).emitted
  let (req, client) ← (streamOne s.req due s.client).mapError .index
  return { s with req := req, client := client, sent := if emitted then s.log else s.sent }

/-- The log with a step that starts at the end of the output. -/
def logWith (s : Rollout B) (committed : ℕ) (row : VerifyRow B) : List (StepRecord B) :=
  s.log ++ [⟨s.req.outputIds.length, committed, row⟩]

/-- The verify step of spec-v1. A request that is finished, retracted or not yet
prefilled is not in the batch. -/
def verify (s : Rollout B) (row : VerifyRow B) (due : Bool) : Except RolloutError (Rollout B) := do
  if s.req.finished || s.req.isRetracted || s.req.outputIds.isEmpty then return s
  else
    let out ← (verifyReq row s.req).mapError .verify
    { s with req := out.req.checkFinished 1, log := s.logWith out.commitLen row }.stream due

/-- A decode result of spec-v2. -/
def result (s : Rollout B) (row : VerifyRow B) (due : Bool) : Except RolloutError (Rollout B) := do
  let req ← (decodeOverlap row s.req).mapError .metadata
  let log := if s.req.finished || s.req.isRetracted then s.log
    else s.logWith (row.acceptLen + 1) row
  { s with req := req, log := log }.stream due

/-- One event. -/
def step (s : Rollout B) : Event B → Except RolloutError (Rollout B)
  | .prefill tokenId due => { s with req := prefillReq s.req tokenId }.stream due
  | .verify row due => s.verify row due
  | .result row due => s.result row due
  | .retract => .ok { s with req := s.req.resetForRetract }
  | .extend => .ok { s with req := s.req.prepareForExtend }
  | .abort reason => .ok { s with req := { s.req with toFinish := some reason } }

/-- A list of events. -/
def run : Rollout B → List (Event B) → Except RolloutError (Rollout B)
  | s, [] => .ok s
  | s, e :: es => do (← s.step e).run es

/-- A request nothing has happened to. -/
def init (req : Req) : Rollout B := ⟨req, ⟨[], .empty, .empty⟩, [], []⟩

end Rollout

/-- A request as it enters the scheduler. -/
structure Req.Fresh (req : Req) : Prop where
  outputIds_eq : req.outputIds = []
  unfinished : req.finished = false
  finishedLen_eq : req.finishedLen = none
  finishedOutput_eq : req.finishedOutput = false
  isRetracted_eq : req.isRetracted = false
  sendTokenOffset_eq : req.sendTokenOffset = 0
  customizedInfo_eq : req.customizedInfo = none
  specVerifyCt_eq : req.specVerifyCt = 0
  specAcceptedTokens_eq : req.specAcceptedTokens = 0
  specAcceptanceHistogram_eq : req.specAcceptanceHistogram = []

theorem Req.fresh_new (rid : String) (originInputIds : List ℤ) (samplingParams : SamplingParams)
    (tokenizer : Option Tokenizer) (eosTokenIds : List ℤ) (vocabSize : ℤ) :
    (Req.new rid originInputIds samplingParams tokenizer eosTokenIds vocabSize).Fresh :=
  ⟨rfl, rfl, rfl, rfl, rfl, rfl, rfl, rfl, rfl, rfl⟩

theorem Req.Fresh.prefillReq_eq {req : Req} (h : req.Fresh) (tokenId : ℤ) :
    prefillReq req tokenId = (req.append tokenId).checkFinished 1 := by
  rw [prefillReq, if_neg (by simp [h.unfinished, h.isRetracted_eq])]

/-! ## What the metadata should be -/

/-- One rejected draft token with its position and target log-probability. -/
structure RejectedEntry where
  anchor : ℤ
  offset : ℕ
  token : ℤ
  teacherLogprob : LogProb

/-- The rejected drafts of a step that reached its rejection point : offsets
`acceptLen + 1` to `B - 1` of its block, each with the target's log-probability at the row
before it. The anchor is the response index of the step's current token. -/
def StepRecord.rejected (r : StepRecord B) : List RejectedEntry :=
  if r.row.records r.committed then
    (List.range' (r.row.acceptLen + 1) (B - 1 - r.row.acceptLen)).map fun o =>
      ⟨(r.start : ℤ) - 1, o, r.row.candidates.getD o 0,
        r.row.targetLogprob (o - 1) (r.row.candidates.getD o 0)⟩
  else []

/-- The value an entry has under each of the rejected-draft keys. -/
def RejectedEntry.value (e : RejectedEntry) : InfoKey → Value
  | .dflashRejectedDraftAnchorIndices => .int e.anchor
  | .dflashRejectedDraftOffsets => .int e.offset
  | .dflashRejectedDraftTokenIds => .int e.token
  | .dflashRejectedDraftTeacherLogprobs => .float e.teacherLogprob
  | _ => .none

/-- The four `dflash_rejected_draft_*` keys. -/
def rejectedKeys : List InfoKey :=
  [.dflashRejectedDraftAnchorIndices, .dflashRejectedDraftOffsets, .dflashRejectedDraftTokenIds,
    .dflashRejectedDraftTeacherLogprobs]

/-- The chunk a step records under a rejected-draft key lists its entries. -/
theorem lookup_rejectedChunksAt (r : StepRecord B) {key : InfoKey} (hkey : key ∈ rejectedKeys)
    (hrec : r.row.records r.committed = true) :
    Dict.lookup key (r.row.rejectedChunksAt ((r.start : ℤ) - 1)) =
      some (.list (r.rejected.map fun e => e.value key)) := by
  have hlen := r.row.length_drafts
  have htok : r.row.rejectedTokenIds = (List.range' (r.row.acceptLen + 1)
      (B - 1 - r.row.acceptLen)).map fun o => r.row.candidates.getD o 0 := by
    refine List.ext_getElem (by simp [VerifyRow.length_rejectedTokenIds]) fun i hi hi' => ?_
    rw [VerifyRow.length_rejectedTokenIds] at hi
    simp only [VerifyRow.rejectedTokenIds, VerifyRow.drafts, List.getElem_drop, List.getElem_tail,
      List.getElem_map, List.getElem_range', Nat.one_mul]
    rw [List.getD_eq_getElem _ _ (by rw [r.row.length_candidates]; omega)]
    congr 1
    omega
  have hlp : r.row.rejectedTeacherLogprobs = (List.range' (r.row.acceptLen + 1)
      (B - 1 - r.row.acceptLen)).map fun o =>
        r.row.targetLogprob (o - 1) (r.row.candidates.getD o 0) := by
    refine List.ext_getElem (by simp [VerifyRow.length_rejectedTeacherLogprobs]) fun i hi hi' => ?_
    rw [VerifyRow.length_rejectedTeacherLogprobs] at hi
    simp only [VerifyRow.rejectedTeacherLogprobs, VerifyRow.candidateTeacherLogprobs,
      VerifyRow.drafts, List.getElem_drop, List.getElem_mapIdx, List.getElem_tail,
      List.getElem_map, List.getElem_range', Nat.one_mul]
    rw [List.getD_eq_getElem _ _ (by rw [r.row.length_candidates]; omega)]
    congr 2 <;> omega
  unfold StepRecord.rejected
  rw [if_pos hrec]
  simp only [rejectedKeys, List.mem_cons, List.not_mem_nil, or_false] at hkey
  rcases hkey with rfl | rfl | rfl | rfl
  · simp [VerifyRow.rejectedChunksAt, rejectedChunks, Dict.lookup_cons, RejectedEntry.value,
      VerifyRow.rejectedOffsets, Function.comp_def]
  · simp [VerifyRow.rejectedChunksAt, rejectedChunks, Dict.lookup_cons, RejectedEntry.value,
      VerifyRow.rejectedOffsets, Function.comp_def]
  · simp [VerifyRow.rejectedChunksAt, rejectedChunks, Dict.lookup_cons, RejectedEntry.value,
      htok, Function.comp_def]
  · simp [VerifyRow.rejectedChunksAt, rejectedChunks, Dict.lookup_cons, RejectedEntry.value,
      hlp, Function.comp_def]

theorem exists_lookup_rejectedChunksAt (row : VerifyRow B) (anchor : ℤ) {key : InfoKey}
    (hkey : key ∈ rejectedKeys) : ∃ chunk, Dict.lookup key (row.rejectedChunksAt anchor) =
      some chunk := by
  simp only [rejectedKeys, List.mem_cons, List.not_mem_nil, or_false] at hkey
  rcases hkey with rfl | rfl | rfl | rfl <;> exact ⟨_, rfl⟩

theorem StepRecord.rejected_of_not_records {r : StepRecord B}
    (h : ¬r.row.records r.committed = true) : r.rejected = [] := by
  rw [StepRecord.rejected, if_neg h]

/-! ## The invariant -/

namespace Rollout

/-- The response so far. -/
def response (s : Rollout B) : List ℤ := s.req.outputIdsThroughStop

/-- The reject mask as a side list of the response. -/
def maskStream (s : Rollout B) : SideStream Bool where
  len := s.response.length
  side := (keyList s.req.customizedInfo .dflashRejectTokenMask).map Value.truthy
  offset := s.req.sendTokenOffset
  got := (keyList (some s.client.customizedInfo) .dflashRejectTokenMask).map Value.truthy

/-- The mask marks the last token of every logged step. -/
structure MaskTracks (s : Rollout B) : Prop where
  inStep : s.maskStream.InStep
  flags_eq : s.maskStream.flags = marks (s.log.map StepRecord.stop) s.response.length
  side_nil : s.log = [] → s.maskStream.side = []
  first : s.req.finished = false → s.maskStream.side = [] → s.req.sendTokenOffset ≤ 1

/-- A rejected-draft list holds the entries of the logged steps, and the client those of
the steps that were sent. -/
structure KeyTracks (s : Rollout B) (key : InfoKey) : Prop where
  delivered : ∃ got, keyList (some s.client.customizedInfo) key = got.flatMap Value.asList ∧
    SideStream.Delivered Value.asList
      ⟨s.response.length, keyList s.req.customizedInfo key, s.req.sendTokenOffset, got⟩
  recorded : (keyList s.req.customizedInfo key).flatMap Value.asList =
    s.log.flatMap fun r => r.rejected.map fun e => e.value key
  sent_eq : keyList (some s.client.customizedInfo) key =
    s.sent.flatMap fun r => r.rejected.map fun e => e.value key

/-- The step's tokens are in the response, its accepted drafts as drafted. -/
structure StepIn (response : List ℤ) (r : StepRecord B) : Prop where
  start_pos : 0 < r.start
  pos : 0 < r.committed
  le : r.committed ≤ r.row.acceptLen + 1
  stop_le : r.stop ≤ response.length
  drafts_eq : (response.drop r.start).take (r.committed - 1) = r.row.drafts.take (r.committed - 1)

/-- The counters count the logged steps. -/
structure CountersTrack (s : Rollout B) : Prop where
  verifyCt : s.req.specVerifyCt = s.log.length
  acceptedTokens : s.req.specAcceptedTokens = (s.log.map fun r => r.committed - 1).sum
  histogram : s.req.specAcceptanceHistogram = s.log.foldl (fun h r =>
    Req.updateSpecAcceptanceHistogram h (r.committed - 1)) []

/-- The finish fields fit together, and a finished response that was sent was sent whole. -/
structure FinishTracks (s : Rollout B) : Prop where
  finishedLen_eq : s.req.finished = false → s.req.finishedLen = none
  finishedOutput_eq : s.req.finished = false → s.req.finishedOutput = false
  room : s.req.finished = false → s.req.outputIds = [] ∨
    s.req.outputIds.length < s.req.samplingParams.maxNewTokens
  all_sent : s.req.finishedOutput = true → s.req.sendTokenOffset = s.response.length ∧
    s.sent = s.log ∧
      ∀ key, s.client.metaInfo.get? key = (s.client.customizedInfo.get? key).map .list

/-- The metadata, on both sides, is that of the logged steps. -/
structure Tracks (s : Rollout B) : Prop where
  mask : s.MaskTracks
  keys : ∀ key ∈ rejectedKeys, s.KeyTracks key
  steps : ∀ r ∈ s.log, StepIn s.response r
  sent_stop : ∀ r ∈ s.sent, r ∈ s.log ∧ r.stop ≤ s.req.sendTokenOffset
  counters : s.CountersTrack
  finish : s.FinishTracks
  client_eq : s.client.outputIds = s.response.take s.req.sendTokenOffset

/-- A request that was not sent yet, with room for a token unless it finished. -/
theorem finishTracks_of_open {s : Rollout B} (hopen : s.req.finished = false → s.req.Open)
    (hout : s.req.finishedOutput = false) : s.FinishTracks :=
  ⟨fun hf => (hopen hf).finishedLen_eq, fun _ => hout, fun hf => Or.inr (hopen hf).length_lt,
    fun hf => absurd (hf.symm.trans hout) (by simp)⟩

/-- Counting a step and logging it. -/
theorem CountersTrack.record {s : Rollout B} (h : s.CountersTrack) {req' : Req} {c : ℕ}
    {row : VerifyRow B} (hct : req'.specVerifyCt = s.req.specVerifyCt + 1)
    (hacc : req'.specAcceptedTokens = s.req.specAcceptedTokens + (c - 1))
    (hhist : req'.specAcceptanceHistogram =
      Req.updateSpecAcceptanceHistogram s.req.specAcceptanceHistogram (c - 1)) :
    CountersTrack { s with req := req', log := s.logWith c row } := by
  refine ⟨?_, ?_, ?_⟩
  · simp [hct, h.verifyCt, logWith]
  · simp [hacc, h.acceptedTokens, logWith]
  · simp [hhist, h.histogram, logWith]

theorem tracks_init {req : Req} (h : req.Fresh) : (init req : Rollout B).Tracks := by
  have hresp : (init req : Rollout B).response = [] := by
    simp [response, init, Req.outputIdsThroughStop, h.finishedLen_eq, h.outputIds_eq]
  have hkey : ∀ key, keyList (init req : Rollout B).req.customizedInfo key = [] := fun key => by
    simp [init, keyList, h.customizedInfo_eq]
  have hclient : ∀ key, keyList (some (init req : Rollout B).client.customizedInfo) key = [] :=
    fun key => by simp [init, keyList]
  have hoff : (init req : Rollout B).req.sendTokenOffset = 0 := h.sendTokenOffset_eq
  have hside : (init req : Rollout B).maskStream.side = [] := by simp [maskStream, hkey]
  refine ⟨⟨⟨?_, ?_, fun _ => ?_, fun hs => absurd hside hs⟩, ?_, fun _ => hside, fun _ _ => ?_⟩,
    fun key _ => ?_,
    fun r hr => ?_, fun r hr => ?_, ⟨h.specVerifyCt_eq, h.specAcceptedTokens_eq,
      h.specAcceptanceHistogram_eq⟩, ⟨fun _ => h.finishedLen_eq, fun _ => h.finishedOutput_eq,
      fun _ => Or.inl h.outputIds_eq, fun hout => ?_⟩, ?_⟩
  · simp [hside]
  · simp [maskStream, hoff]
  · simp [maskStream, hclient]
  · rw [SideStream.flags_of_side_nil hside]
    simp [maskStream, hresp, marks]
  · omega
  · refine ⟨⟨[], hclient key, ⟨?_, ?_, ?_⟩⟩, ?_, hclient key⟩
    · simp [hkey]
    · simp [hoff]
    · simp only [hkey, List.take_nil]
    · rw [hkey]
      rfl
  · simp [init] at hr
  · simp [init] at hr
  · have := h.finishedOutput_eq
    simp only [init] at hout
    rw [this] at hout
    cases hout
  · rw [hresp, List.take_nil]
    rfl

/-- A step that was in the response stays in it. -/
theorem StepIn.append {response : List ℤ} {r : StepRecord B} (h : StepIn response r)
    (new : List ℤ) : StepIn (response ++ new) r := by
  obtain ⟨hs, hp, hle, hstop, hdr⟩ := h
  refine ⟨hs, hp, hle, hstop.trans (by simp), ?_⟩
  rw [← hdr]
  unfold StepRecord.stop at hstop
  rw [List.drop_append_of_le_length (by omega),
    List.take_append_of_le_length (by rw [List.length_drop]; omega)]

/-- Tokens entered the response without a record. -/
theorem Tracks.append {s : Rollout B} (h : s.Tracks) {req' : Req} {new : List ℤ}
    (hresp : req'.outputIdsThroughStop = s.response ++ new)
    (hinfo : req'.customizedInfo = s.req.customizedInfo)
    (hoff : req'.sendTokenOffset = s.req.sendTokenOffset)
    (hctr : CountersTrack { s with req := req' }) (hfin : FinishTracks { s with req := req' })
    (hun : req'.finished = false → s.req.finished = false) : Tracks { s with req := req' } := by
  have hlen : ({ s with req := req' } : Rollout B).response.length =
      s.response.length + new.length := by
    rw [response, hresp, List.length_append]
  have hstream : ({ s with req := req' } : Rollout B).maskStream =
      s.maskStream.output new.length := by
    unfold maskStream SideStream.output
    rw [hlen]
    simp only [hinfo, hoff]
  have hofflen : s.req.sendTokenOffset ≤ s.response.length := h.mask.inStep.offset_le
  refine ⟨⟨?_, ?_, fun hlog => ?_, fun hf hs => ?_⟩, fun key hkey => ?_, fun r hr => ?_,
    fun r hr => ?_, hctr, hfin, ?_⟩
  · rw [hstream]
    exact h.mask.inStep.output _
  · rw [hstream, SideStream.flags_output h.mask.inStep.side_le, h.mask.flags_eq, hlen, marks_output]
    simp only [List.mem_map, forall_exists_index, and_imp, forall_apply_eq_imp_iff₂]
    exact fun r hr => (h.steps r hr).stop_le
  · rw [hstream]
    exact h.mask.side_nil hlog
  · rw [hstream] at hs
    exact hoff.trans_le (h.mask.first (hun hf) hs)
  · obtain ⟨⟨got, hgot, hd⟩, hrec, hsent⟩ := h.keys key hkey
    refine ⟨⟨got, hgot, ?_⟩, ?_, hsent⟩
    · rw [hlen]
      simp only [hinfo, hoff]
      exact hd.output _
    · simp only [hinfo]
      exact hrec
  · rw [response, hresp]
    exact (h.steps r hr).append new
  · obtain ⟨hlog, hstop⟩ := h.sent_stop r hr
    exact ⟨hlog, hstop.trans_eq hoff.symm⟩
  · simp only [hoff]
    rw [response, hresp, List.take_append_of_le_length hofflen]
    exact h.client_eq

/-- A recorded step adds its rejected entries under each rejected-draft key. -/
theorem KeyTracks.record {s s' : Rollout B} {key : InfoKey} (hkey : key ∈ rejectedKeys)
    (h : s.KeyTracks key) {row : VerifyRow B} {c : ℕ} (hpos : 0 < c)
    (hs : s.response.length = s.req.outputIds.length)
    (hlen : s'.response.length = s.response.length + c) (hlog : s'.log = s.logWith c row)
    (hrec : Recorded row s.req.customizedInfo s.req.outputIds.length c s'.req.customizedInfo)
    (hoff : s'.req.sendTokenOffset = s.req.sendTokenOffset) (hclient : s'.client = s.client)
    (hsent : s'.sent = s.sent) : s'.KeyTracks key := by
  obtain ⟨⟨got, hgot, hd⟩, hrecd, hsent'⟩ := h
  obtain ⟨chunk, hchunk⟩ :=
    exists_lookup_rejectedChunksAt row ((s.req.outputIds.length : ℤ) - 1) hkey
  have hkl := hrec.rejected key chunk hchunk
  obtain ⟨r, hr⟩ : ∃ r : StepRecord B, r = ⟨s.req.outputIds.length, c, row⟩ := ⟨_, rfl⟩
  have hlog' : s'.log = s.log ++ [r] := by rw [hlog, logWith, hr]
  by_cases hrecords : row.records c = true
  · have hval : chunk = .list (r.rejected.map fun e => e.value key) := by
      have := lookup_rejectedChunksAt r hkey (by rw [hr]; exact hrecords)
      rw [hr] at this ⊢
      exact Option.some.inj (hchunk.symm.trans this)
    rw [if_pos hrecords] at hkl
    refine ⟨⟨got, by rw [hclient]; exact hgot, ?_⟩, ?_, by rw [hclient, hsent]; exact hsent'⟩
    · have hd' := hd.record (rfl : Value.asList (.list []) = []) chunk hpos
      simp only [SideStream.record, hs] at hd'
      rw [hlen, hkl, hoff, hs]
      exact hd'
    · rw [hkl, SideStream.flatMap_recordAt rfl chunk _ hpos, hrecd, hlog', List.flatMap_append,
        List.flatMap_singleton, hval]
      rfl
  · rw [if_neg hrecords] at hkl
    refine ⟨⟨got, by rw [hclient]; exact hgot, ?_⟩, ?_, by rw [hclient, hsent]; exact hsent'⟩
    · rw [hlen, hkl, hoff]
      exact hd.output c
    · have hnil : r.rejected = [] :=
        StepRecord.rejected_of_not_records (by rw [hr]; exact hrecords)
      rw [hkl, hrecd, hlog', List.flatMap_append, List.flatMap_singleton, hnil, List.map_nil,
        List.append_nil]

/-- A verify step entered the response and was recorded. -/
theorem Tracks.record {s : Rollout B} (h : s.Tracks) (hun : s.req.finished = false)
    (hne : s.req.outputIds ≠ []) {req' : Req} {new : List ℤ} {row : VerifyRow B} {c : ℕ}
    (hresp : req'.outputIdsThroughStop = s.response ++ new) (hnew : new.length = c) (hpos : 0 < c)
    (hle : c ≤ row.acceptLen + 1) (hdrafts : new.take (c - 1) = row.drafts.take (c - 1))
    (hrec : Recorded row s.req.customizedInfo s.req.outputIds.length c req'.customizedInfo)
    (hoff : req'.sendTokenOffset = s.req.sendTokenOffset)
    (hctr : CountersTrack { s with req := req', log := s.logWith c row })
    (hfin : FinishTracks { s with req := req', log := s.logWith c row }) :
    Tracks { s with req := req', log := s.logWith c row } := by
  have hs : s.response = s.req.outputIds := by
    rw [response, Req.outputIdsThroughStop, h.finish.finishedLen_eq hun]
  obtain ⟨s', hs'⟩ : ∃ s' : Rollout B, s' = { s with req := req', log := s.logWith c row } :=
    ⟨_, rfl⟩
  have hlen : s'.response.length = s.response.length + c := by
    rw [hs', response, hresp, List.length_append, hnew]
  have hofflen : s.req.sendTokenOffset ≤ s.response.length := h.mask.inStep.offset_le
  have hstops : ∀ x ∈ s.log.map StepRecord.stop, x ≤ s.response.length := by
    simp only [List.mem_map, forall_exists_index, and_imp, forall_apply_eq_imp_iff₂]
    exact fun r hr => (h.steps r hr).stop_le
  have hlog : s'.log.map StepRecord.stop =
      s.log.map StepRecord.stop ++ [s.response.length + c] := by
    rw [hs', logWith, List.map_append, hs]
    rfl
  have hstream : s'.maskStream = s.maskStream.record false true c := by
    unfold maskStream SideStream.record
    rw [hlen]
    simp only [hs', hrec.mask, hoff, map_recordAt, Value.truthy, hs]
  rw [← hs'] at hctr hfin ⊢
  refine ⟨⟨?_, ?_, fun hnil => ?_, fun hf hside => ?_⟩, fun key hkey => ?_, fun r hr => ?_,
    fun r hr => ?_, hctr, hfin, ?_⟩
  · rw [hstream]
    exact h.mask.inStep.record hpos (h.mask.first hun)
  · rw [hstream, SideStream.flags_record h.mask.inStep.side_le hpos, h.mask.flags_eq, hlen, hlog,
      marks_record hstops hpos]
  · rw [hs'] at hnil
    simp [logWith] at hnil
  · rw [hstream] at hside
    exact absurd hside (recordAt_ne_nil _ _ _ hpos _)
  · exact KeyTracks.record hkey (h.keys key hkey) hpos (by rw [hs]) hlen (by rw [hs'])
      (by rw [hs']; exact hrec) (by rw [hs']; exact hoff) (by rw [hs']) (by rw [hs'])
  · have hresp' : s'.response = s.response ++ new := by rw [hs', response, hresp]
    rw [hs', logWith] at hr
    rw [hresp']
    rcases List.mem_append.mp hr with hr | hr
    · exact (h.steps r hr).append new
    · obtain rfl := List.mem_singleton.mp hr
      refine ⟨List.length_pos_iff.mpr hne, hpos, hle, ?_, ?_⟩
      · simp [StepRecord.stop, hs, hnew]
      · rw [hs, List.drop_left]
        exact hdrafts
  · obtain ⟨hmem, hstop⟩ := h.sent_stop r (by rw [hs'] at hr; exact hr)
    rw [hs']
    exact ⟨List.mem_append_left _ hmem, hstop.trans_eq hoff.symm⟩
  · rw [hs']
    simp only [hoff]
    rw [response, hresp, List.take_append_of_le_length hofflen]
    exact h.client_eq

theorem through_markFinishedOutput (req : Req) :
    req.markFinishedOutput.outputIdsThroughStop = req.outputIdsThroughStop := by
  unfold Req.markFinishedOutput Req.outputIdsThroughStop
  split_ifs
  · cases req.finishedLen <;> simp
  · rfl

/-- The client gets the entries of a rejected-draft list that it does not have. -/
theorem KeyTracks.emission {s s' : Rollout B} {key : InfoKey} (hkey : key ∈ rejectedKeys)
    (h : s.KeyTracks key) (hem : Emitted s.req s.client s'.client)
    (hresp : s'.response = s.response) (hinfo : s'.req.customizedInfo = s.req.customizedInfo)
    (hoff : s'.req.sendTokenOffset = s.response.length) (hlog : s'.log = s.log)
    (hsent : s'.sent = s.log) : s'.KeyTracks key := by
  obtain ⟨⟨got, hgot, hd⟩, hrec, -⟩ := h
  have hmeta : key.isRejectedDraftMetaKey = true := by
    simp only [rejectedKeys, List.mem_cons, List.not_mem_nil, or_false] at hkey
    rcases hkey with rfl | rfl | rfl | rfl <;> rfl
  have hclient : keyList (some s'.client.customizedInfo) key =
      (got ++ (keyList s.req.customizedInfo key).drop s.req.sendTokenOffset).flatMap
        Value.asList := by
    rw [hem.keyList_eq, hgot, chunkValues, if_pos hmeta, List.flatMap_append]
    rfl
  refine ⟨⟨_, hclient, ?_⟩, ?_, ?_⟩
  · rw [hresp, hinfo, hoff]
    exact hd.send
  · rw [hinfo, hlog]
    exact hrec
  · rw [hclient, hsent]
    exact (hd.send.got_of_offset_eq rfl).trans hrec

/-- An emission of an open request moves its offset only, and one of a finished request sends
what is left. -/
theorem FinishTracks.emission {s s' : Rollout B} (h : s.FinishTracks)
    (hopen : s.req.finished = false →
      s'.req = { s.req with sendTokenOffset := s.response.length })
    (hfinished : s.req.finished = true → s'.req.finished = true ∧
      s'.req.sendTokenOffset = s'.response.length ∧ s'.sent = s'.log ∧
      ∀ key, s'.client.metaInfo.get? key = (s'.client.customizedInfo.get? key).map .list) :
    s'.FinishTracks := by
  by_cases hf : s.req.finished = true
  · obtain ⟨hfin, hall⟩ := hfinished hf
    have habsurd : ¬s'.req.finished = false := by
      rw [hfin]
      exact Bool.noConfusion
    exact ⟨fun h' => absurd h' habsurd, fun h' => absurd h' habsurd, fun h' => absurd h' habsurd,
      fun _ => hall⟩
  · have hun : s.req.finished = false := by simpa using hf
    have hout := h.finishedOutput_eq hun
    have hreq := hopen hun
    refine ⟨fun _ => ?_, fun _ => ?_, fun _ => ?_, fun h' => ?_⟩
    · rw [hreq]
      exact h.finishedLen_eq hun
    · rw [hreq]
      exact hout
    · rw [hreq]
      exact h.room hun
    · rw [hreq] at h'
      exact absurd (h'.symm.trans hout) Bool.noConfusion

/-- An emission keeps track when it ships a mask that covers the response, or no mask at
all with at most the first token or a finished response. -/
theorem Tracks.emission {s : Rollout B} (h : s.Tracks) {client' : ReqState}
    (hem : Emitted s.req s.client client')
    (hfull : s.maskStream.side.length = s.response.length ∨
      s.maskStream.side = [] ∧ (s.req.finished = true ∨ s.response.length ≤ 1)) :
    Tracks { s with req := s.req.afterEmission, client := client', sent := s.log } := by
  obtain ⟨s', hs'⟩ : ∃ s' : Rollout B, s' =
    { s with req := s.req.afterEmission, client := client', sent := s.log } := ⟨_, rfl⟩
  have hresp : s'.response = s.response := by
    rw [hs']
    exact through_markFinishedOutput s.req
  have hoff : s'.req.sendTokenOffset = s.response.length := by
    rw [hs']
    exact congrArg List.length (through_markFinishedOutput s.req)
  have hinfo : s'.req.customizedInfo = s.req.customizedInfo := by
    rw [hs']
    exact (markFinishedOutput_info s.req).1
  have hfinished : s'.req.finished = s.req.finished := by
    rw [hs', Req.afterEmission, Req.finished, Req.markFinishedOutput]
    split_ifs <;> rfl
  have hstream : s'.maskStream = s.maskStream.send := by
    unfold maskStream SideStream.send
    rw [hresp, hinfo, hoff, hs', hem.keyList_eq, List.map_append]
    simp [chunkValues, InfoKey.isRejectedDraftMetaKey]
  rw [← hs']
  refine ⟨⟨?_, ?_, fun hnil => ?_, fun hf hside => ?_⟩, fun key hkey => ?_, fun r hr => ?_,
    fun r hr => ?_, ?_, ?_, ?_⟩
  · rw [hstream]
    exact h.mask.inStep.send (hfull.imp id And.left)
  · rw [hstream, hresp, hs']
    exact h.mask.flags_eq
  · rw [hs'] at hnil
    rw [hstream]
    exact h.mask.side_nil hnil
  · rw [hstream] at hside
    rw [hoff]
    rcases hfull with hfull | ⟨-, hf' | hle⟩
    · have hside' : s.maskStream.side = [] := hside
      rw [hside', List.length_nil] at hfull
      omega
    · rw [hfinished, hf'] at hf
      cases hf
    · exact hle
  · exact (h.keys key hkey).emission hkey (by rw [hs']; exact hem) hresp hinfo hoff (by rw [hs'])
      (by rw [hs'])
  · rw [hresp]
    exact h.steps r (by rw [hs'] at hr; exact hr)
  · rw [hs'] at hr
    rw [hoff, hs']
    exact ⟨hr, (h.steps r hr).stop_le⟩
  · have hctr := h.counters
    rw [hs', Req.afterEmission, Req.markFinishedOutput]
    split_ifs <;> exact ⟨hctr.verifyCt, hctr.acceptedTokens, hctr.histogram⟩
  · refine h.finish.emission (fun hun => ?_) fun hf => ⟨by rw [hfinished, hf],
      by rw [hoff, hresp], by rw [hs'], by rw [hs']; exact hem.metaInfo_eq hf⟩
    have hsame : s.req.markFinishedOutput = s.req := if_neg (by simp [hun])
    rw [hs', Req.afterEmission, hsame]
    rfl
  · rw [hoff, hresp, List.take_length, hs', hem.outputIds_eq, h.client_eq,
      through_markFinishedOutput]
    exact List.take_append_drop _ _

end Rollout

end DraftOpd
