import DraftOpd.Verify

/-!
# The overlap path

With overlap scheduling the worker only computes the committed tokens and the rejected
suffix of each row (`DFlashWorkerV2`, `speculative/dflash_worker_v2.py:404-486`). The
scheduler processes a result later : `_resolve_spec_overlap_token_ids`
(`managers/scheduler_output_processor_mixin.py:320-366`) writes counters and metadata
for every request of the batch, then `process_batch_result_decode` (`:379-427`) skips
the requests that were finished or retracted in the meantime and appends the whole
block to the others, with one check of the stop conditions.

`resolveReq_spec` : the resolution never raises, and records what the verify step of
`Verify` records for a block committed whole. `Req.checkFinished_block` : when no token
before the last of the block stops the request, the one check of the block is the check
of its last token.
-/

namespace DraftOpd

variable {B : ℕ}

/-- `out_tokens` (`dflash_worker_v2.py:479-486`) : the drafted tokens, the bonus token
scattered over them. -/
def VerifyRow.outTokens (row : VerifyRow B) : List ℤ :=
  (row.drafts ++ [0]).set row.acceptLen row.bonus

/-- `suffix_metadata["offsets"]` of the row. -/
def VerifyRow.suffixOffsets (row : VerifyRow B) : List ℤ :=
  if B - 1 ≤ row.acceptLen then [] else row.rejectedOffsets

/-- `suffix_metadata["token_ids"]` of the row. -/
def VerifyRow.suffixTokenIds (row : VerifyRow B) : List ℤ :=
  if B - 1 ≤ row.acceptLen then [] else row.rejectedTokenIds

/-- `suffix_metadata["teacher_logprobs"]` of the row. -/
def VerifyRow.suffixTeacherLogprobs (row : VerifyRow B) : List LogProb :=
  if B - 1 ≤ row.acceptLen then [] else row.rejectedTeacherLogprobs

/-- One request of `_resolve_spec_overlap_token_ids`, with its committed tokens. -/
def resolveReq (row : VerifyRow B) (req : Req) : Except MetadataError (Req × List ℤ) := do
  let acceptLens := row.acceptLen + 1
  let req := { req with kvCommittedLen := req.kvCommittedLen + acceptLens }
  let committedTokens := row.outTokens.take acceptLens
  let req := req.countVerify (acceptLens - 1)
  let info := appendDflashRejectTokenMask req.customizedInfo req.outputIds.length acceptLens false
  let info ← appendDflashRejectedDraftMetadata info req.outputIds.length acceptLens
    ((req.outputIds.length : ℤ) - 1) row.suffixOffsets row.suffixTokenIds row.suffixTeacherLogprobs
    false
  return ({ req with customizedInfo := info }, committedTokens)

/-- `req.output_ids.extend(next_token_id)` and the check after it. -/
def Req.extendChecked (req : Req) (tokens : List ℤ) : Req :=
  ({ req with outputIds := req.outputIds ++ tokens }).checkFinished tokens.length

theorem Req.extendChecked_frame (req : Req) (tokens : List ℤ) : ∃ reason len toFinish out,
    req.extendChecked tokens = { req with
      finishedReason := reason, finishedLen := len, toFinish := toFinish, outputIds := out } := by
  obtain ⟨reason, len, toF, out, h⟩ := Req.checkFinished_frame
    { req with outputIds := req.outputIds ++ tokens } tokens.length
  exact ⟨reason, len, toF, out, h⟩

/-- One request of `process_batch_result_decode` with overlap scheduling. -/
def decodeOverlap (row : VerifyRow B) (req : Req) : Except MetadataError Req := do
  let (req, tokens) ← resolveReq row req
  if req.finished || req.isRetracted then return req
  else
    let req := req.extendChecked tokens
    return tokens.foldl Req.acceptToken req

/-- The committed tokens are the ones the commit loop proposes. -/
theorem VerifyRow.take_outTokens (row : VerifyRow B) :
    row.outTokens.take (row.acceptLen + 1) = row.proposed := by
  have hacc := row.acceptLen_le
  have hlen := row.length_drafts
  have hpos := row.block_pos
  unfold outTokens proposed
  rw [List.take_succ_eq_append_getElem (by simp; omega), List.getElem_set_self,
    List.take_set_of_le (le_refl _), List.take_append_of_le_length (by omega)]

/-- What the resolution does, for a request in any state. -/
theorem resolveReq_spec (row : VerifyRow B) (req : Req) : ∃ info kv,
    resolveReq row req = .ok ({ req.countVerify row.acceptLen with
      customizedInfo := info, kvCommittedLen := kv }, row.proposed) ∧
    Recorded row req.customizedInfo req.outputIds.length (row.acceptLen + 1) info := by
  obtain ⟨masked, hmasked⟩ : ∃ masked, masked = writeKey (.bool false) (.bool true)
      req.outputIds.length (row.acceptLen + 1) (req.customizedInfo.getD .empty)
      .dflashRejectTokenMask := ⟨_, rfl⟩
  have hmask : appendDflashRejectTokenMask req.customizedInfo req.outputIds.length
      (row.acceptLen + 1) false = some masked := by
    rw [appendDflashRejectTokenMask, if_neg (by omega), hmasked]
    rfl
  have hget : masked.get? .dflashRejectTokenMask = some (recordAt (.bool false) (.bool true)
      req.outputIds.length (row.acceptLen + 1)
      (keyList req.customizedInfo .dflashRejectTokenMask)) := by
    rw [hmasked, get?_writeKey, if_pos rfl]
    rfl
  have hold : ∀ key chunk,
      Dict.lookup key (row.rejectedChunksAt ((req.outputIds.length : ℤ) - 1)) = some chunk →
      masked.get? key = (req.customizedInfo.getD .empty).get? key := by
    intro key chunk hk
    rw [hmasked, get?_writeKey, if_neg (row.lookup_rejectedChunksAt_isSome _ hk).1]
  refine ⟨_, req.kvCommittedLen + (row.acceptLen + 1), ?_, recorded_write row hget hold⟩
  have hrej : appendDflashRejectedDraftMetadata (some masked) req.outputIds.length
      (row.acceptLen + 1) ((req.outputIds.length : ℤ) - 1) row.suffixOffsets row.suffixTokenIds
      row.suffixTeacherLogprobs false =
      .ok (some (if row.records (row.acceptLen + 1) then
        writeChunks (row.rejectedChunksAt ((req.outputIds.length : ℤ) - 1)) req.outputIds.length
          (row.acceptLen + 1) masked
      else masked)) := by
    unfold VerifyRow.suffixOffsets VerifyRow.suffixTokenIds VerifyRow.suffixTeacherLogprobs
    by_cases hacc : row.acceptLen < B - 1
    · have hrec : row.records (row.acceptLen + 1) = true := by simp [VerifyRow.records, hacc]
      simp only [if_neg (Nat.not_le.mpr hacc)]
      rw [if_pos hrec, appendRejected_ok row masked _ (by omega) _ hacc]
      rfl
    · have hrec : ¬row.records (row.acceptLen + 1) = true := by simp [VerifyRow.records, hacc]
      simp only [if_pos (Nat.not_lt.mp hacc)]
      rw [if_neg hrec]
      rfl
  unfold resolveReq
  simp only [Req.countVerify, hmask, row.take_outTokens]
  rw [hrej]
  rfl

/-! ## One check for a whole block -/

/-- The token stops the request, as a stop token or by being outside the vocabulary. -/
def Req.stopsAt (req : Req) (tokenId : ℤ) : Bool :=
  (!req.samplingParams.ignoreEos && req.matchesEos tokenId) || req.outsideVocab tokenId

/-- No token before the last of the block stops the request, and the limit is not reached
before it. -/
structure Req.EndsBlock (req : Req) (tokens : List ℤ) : Prop where
  length_le : req.outputIds.length + tokens.length ≤ req.samplingParams.maxNewTokens
  not_stops : ∀ t ∈ tokens.dropLast, req.stopsAt t = false

theorem findIdx?_snoc {p : ℤ → Bool} {ts : List ℤ} (h : ∀ t ∈ ts, p t = false) (t : ℤ) :
    (ts ++ [t]).findIdx? p = if p t then some ts.length else none := by
  have hnone : ts.findIdx? p = none := List.findIdx?_eq_none_iff.mpr h
  rw [List.findIdx?_append, hnone, Option.none_or, List.findIdx?_singleton]
  split_ifs <;> simp

theorem Req.lastTokens_append (pre : List ℤ) {tokens : List ℤ} (hne : tokens ≠ []) :
    lastTokens (pre ++ tokens) tokens.length = tokens := by
  have hpos := List.length_pos_iff.mpr hne
  rw [lastTokens, if_neg (by omega), List.length_append, Nat.add_sub_cancel, List.drop_left]

/-- When only the last token of the block can stop the request, checking the block is
checking that token. -/
theorem Req.checkFinished_block {req : Req} {pre ts : List ℤ} {t : ℤ}
    (hout : req.outputIds = pre ++ (ts ++ [t])) (hnot : ∀ x ∈ ts, req.stopsAt x = false) :
    req.checkFinished (ts ++ [t]).length = req.checkFinished 1 := by
  have hblock : lastTokens req.outputIds (ts ++ [t]).length = ts ++ [t] := by
    rw [hout, lastTokens_append _ (by simp)]
  have hlast : lastTokens req.outputIds 1 = [t] := by
    rw [hout, ← List.append_assoc, lastTokens_snoc]
  have hlen : req.outputIds.length = pre.length + ts.length + 1 := by
    rw [hout]
    simp only [List.length_append, List.length_singleton]
    omega
  have hvoc : req.checkVocabBoundaryFinish (ts ++ [t]) = req.checkVocabBoundaryFinish [t] := by
    unfold checkVocabBoundaryFinish
    rw [findIdx?_snoc (fun x hx => ?_), List.findIdx?_singleton]
    · split_ifs
      · simp [hlen]
      · rfl
    · have := hnot x hx
      simp only [stopsAt, Bool.or_eq_false_iff] at this
      exact this.2
  have htok : req.checkTokenBasedFinish (ts ++ [t]) = req.checkTokenBasedFinish [t] := by
    unfold checkTokenBasedFinish
    split_ifs with hig
    · rfl
    rw [findIdx?_snoc (fun x hx => ?_), List.findIdx?_singleton]
    · split_ifs
      · simp [hlen]
      · rfl
    · have := hnot x hx
      simp only [stopsAt, Bool.or_eq_false_iff] at this
      simpa [hig] using this.1
  unfold checkFinished
  simp only [hblock, hlast, hvoc, htok]

/-! ## Decoding a result -/

theorem foldl_acceptToken_frame (tokens : List ℤ) : ∀ req : Req, ∃ g,
    tokens.foldl Req.acceptToken req = { req with grammar := g } ∧
      (req.grammar = none → g = none) := by
  induction tokens with
  | nil => exact fun req => ⟨_, rfl, id⟩
  | cons t tokens ih =>
    intro req
    obtain ⟨g, hg, hnone⟩ := ih (req.acceptToken t)
    exact ⟨g, hg, fun h => hnone (by rw [Req.acceptToken, h]; rfl)⟩

/-- The request with the counters and the metadata of a result. -/
def Req.resolved (req : Req) (row : VerifyRow B) (info : Option CustomizedInfo) (kv : ℕ) : Req :=
  { req.countVerify row.acceptLen with customizedInfo := info, kvCommittedLen := kv }

/-- A result of a running request. -/
theorem decodeOverlap_running (row : VerifyRow B) {req : Req} (hun : req.finished = false)
    (hret : req.isRetracted = false) : ∃ info kv g,
    decodeOverlap row req = .ok { (req.resolved row info kv).extendChecked row.proposed with
      grammar := g } ∧ (req.grammar = none → g = none) ∧
    Recorded row req.customizedInfo req.outputIds.length (row.acceptLen + 1) info := by
  obtain ⟨info, kv, hresolve, hrec⟩ := resolveReq_spec row req
  obtain ⟨g, hg, hnone⟩ := foldl_acceptToken_frame row.proposed
    ((req.resolved row info kv).extendChecked row.proposed)
  obtain ⟨reason, len, toF, out, hframe⟩ :=
    (req.resolved row info kv).extendChecked_frame row.proposed
  refine ⟨info, kv, g, ?_, fun h => hnone (by rw [hframe]; exact h), hrec⟩
  have hrun : ((req.resolved row info kv).finished || (req.resolved row info kv).isRetracted) =
      false := by
    simp only [Req.resolved, Req.countVerify, Req.finished, Bool.or_eq_false_iff]
    exact ⟨hun, hret⟩
  unfold decodeOverlap
  rw [hresolve]
  simp only [Req.resolved] at hrun hg ⊢
  rw [← hg]
  simp only [bind, Except.bind, hrun]
  rfl

/-- A result of a request that finished or was retracted writes counters and metadata. -/
theorem decodeOverlap_skipped (row : VerifyRow B) {req : Req}
    (hskip : (req.finished || req.isRetracted) = true) : ∃ info kv,
    decodeOverlap row req = .ok (req.resolved row info kv) ∧
    Recorded row req.customizedInfo req.outputIds.length (row.acceptLen + 1) info := by
  obtain ⟨info, kv, hresolve, hrec⟩ := resolveReq_spec row req
  refine ⟨info, kv, ?_, hrec⟩
  have hskip' : ((req.resolved row info kv).finished || (req.resolved row info kv).isRetracted) =
      true := hskip
  unfold decodeOverlap
  rw [hresolve]
  simp only [Req.resolved] at hskip' ⊢
  simp only [bind, Except.bind, hskip']
  rfl

end DraftOpd
