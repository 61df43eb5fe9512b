import Mathlib.Algebra.GroupWithZero.Nat
import Mathlib.Data.List.GetD
import DraftOpd.Request

/-!
# The verify step of one request

`VerifyRow` is the row of one request in a verify forward of block size `B` : the
candidates, of which the first is the current token, the target's prediction at each
row, and the target's log-probabilities. `verifyReq` is what
`DFlashVerifyInput.verify` (`speculative/dflash_info.py:318-553`) does to that request
with it : the accept length and the bonus token, the commit loop that checks the stop
conditions after every token, the counters, and the metadata it records.

`commitLoop_spec` says what the commit loop does to an unfinished request, and
`verifyReq_spec` what the whole step does : it never raises, commits between one and
`acceptLen + 1` tokens, and writes each metadata key with one `recordAt`.
-/

namespace DraftOpd

/-! ## Accept length and bonus token -/

/-- `cumprod`, from the product `acc` of what came before. -/
def cumprod (acc : ℕ) : List ℕ → List ℕ
  | [] => []
  | x :: xs => (acc * x) :: cumprod (acc * x) xs

theorem sum_cumprod_zero : ∀ xs : List ℕ, (cumprod 0 xs).sum = 0
  | [] => rfl
  | x :: xs => by simp [cumprod, sum_cumprod_zero xs]

/-- The sum of the cumulative product of matches counts the leading ones. -/
theorem sum_cumprod_one : ∀ bs : List Bool,
    (cumprod 1 (bs.map Bool.toNat)).sum = (bs.takeWhile id).length
  | [] => rfl
  | true :: bs => by simp [cumprod, sum_cumprod_one bs, Nat.add_comm]
  | false :: bs => by simp [cumprod, sum_cumprod_zero]

/-- One request's row of a verify forward with block size `B`. -/
structure VerifyRow (B : ℕ) where
  /-- The current token, then the drafted ones. -/
  candidates : List ℤ
  /-- The target's greedy token at each row. -/
  targetPredict : List ℤ
  /-- The target's log-probability of a token at a row. -/
  targetLogprob : ℕ → ℤ → LogProb
  block_pos : 0 < B
  length_candidates : candidates.length = B
  length_targetPredict : targetPredict.length = B

namespace VerifyRow

variable {B : ℕ}

/-- `candidates[1:]`, the drafted tokens. -/
def drafts (row : VerifyRow B) : List ℤ := row.candidates.tail

/-- `candidates[:, 1:] == target_predict[:, :-1]`. -/
def matched (row : VerifyRow B) : List Bool :=
  List.zipWith (fun c t => c == t) row.drafts row.targetPredict.dropLast

/-- `accept_len` of `compute_dflash_accept_len_and_bonus` (`dflash_utils.py:652-690`). -/
def acceptLen (row : VerifyRow B) : ℕ := (cumprod 1 (row.matched.map Bool.toNat)).sum

/-- `bonus` of `compute_dflash_accept_len_and_bonus`. -/
def bonus (row : VerifyRow B) : ℤ := row.targetPredict.getD row.acceptLen 0

/-- `compute_dflash_candidate_logprobs` : the log-probability of each drafted token at
the row before it. -/
def candidateTeacherLogprobs (row : VerifyRow B) : List LogProb :=
  row.drafts.mapIdx row.targetLogprob

/-- The tokens the commit loop proposes. -/
def proposed (row : VerifyRow B) : List ℤ := row.drafts.take row.acceptLen ++ [row.bonus]

theorem length_drafts (row : VerifyRow B) : row.drafts.length = B - 1 := by
  simp [drafts, row.length_candidates]

theorem length_matched (row : VerifyRow B) : row.matched.length = B - 1 := by
  simp [matched, length_drafts, row.length_targetPredict]

theorem acceptLen_eq (row : VerifyRow B) : row.acceptLen = (row.matched.takeWhile id).length :=
  sum_cumprod_one _

theorem acceptLen_le (row : VerifyRow B) : row.acceptLen ≤ B - 1 := by
  rw [acceptLen_eq, ← length_matched row]
  exact List.Sublist.length_le (List.takeWhile_sublist _)

theorem length_proposed (row : VerifyRow B) : row.proposed.length = row.acceptLen + 1 := by
  have := row.acceptLen_le
  simp [proposed, length_drafts, this]

theorem length_candidateTeacherLogprobs (row : VerifyRow B) :
    row.candidateTeacherLogprobs.length = B - 1 := by
  simp [candidateTeacherLogprobs, length_drafts]

/-- The suffix of the block that the target rejected : its offsets in the block. -/
def rejectedOffsets (row : VerifyRow B) : List ℤ :=
  (List.range' (row.acceptLen + 1) (B - 1 - row.acceptLen)).map Int.ofNat

/-- The rejected drafted tokens. -/
def rejectedTokenIds (row : VerifyRow B) : List ℤ := row.drafts.drop row.acceptLen

/-- The target's log-probabilities of the rejected drafted tokens. -/
def rejectedTeacherLogprobs (row : VerifyRow B) : List LogProb :=
  row.candidateTeacherLogprobs.drop row.acceptLen

theorem length_rejectedOffsets (row : VerifyRow B) :
    row.rejectedOffsets.length = B - 1 - row.acceptLen := by
  simp [rejectedOffsets]

theorem length_rejectedTokenIds (row : VerifyRow B) :
    row.rejectedTokenIds.length = B - 1 - row.acceptLen := by
  simp [rejectedTokenIds, length_drafts]

theorem length_rejectedTeacherLogprobs (row : VerifyRow B) :
    row.rejectedTeacherLogprobs.length = B - 1 - row.acceptLen := by
  simp [rejectedTeacherLogprobs, length_candidateTeacherLogprobs]

end VerifyRow

/-! ## The commit loop -/

/-- `grammar.accept_token`, for a request with a grammar. -/
def Req.acceptToken (req : Req) (tokenId : ℤ) : Req :=
  { req with grammar := req.grammar.map fun g => g.acceptToken tokenId }

/-- `req.output_ids.append(token_id)`. -/
def Req.append (req : Req) (tokenId : ℤ) : Req :=
  { req with outputIds := req.outputIds ++ [tokenId] }

/-- The commit loop of `verify` (`dflash_info.py:404-413`). -/
def commitLoop : Req → ℕ → List ℤ → Req × ℕ
  | req, appended, [] => (req, appended)
  | req, appended, tokenId :: rest =>
    let req := (req.append tokenId).checkFinished 1
    if req.finished then (req, appended + 1)
    else commitLoop (req.acceptToken tokenId) (appended + 1) rest

/-- Room for another token : unfinished, without a stop position, below the limit. -/
structure Req.Open (req : Req) : Prop where
  unfinished : req.finished = false
  finishedLen_eq : req.finishedLen = none
  length_lt : req.outputIds.length < req.samplingParams.maxNewTokens

/-- The same request up to its output and the fields a check writes. -/
def Req.SameBut (req req' : Req) : Prop :=
  ∃ out reason len toFinish grammar, req' = { req with
    outputIds := out, finishedReason := reason, finishedLen := len, toFinish := toFinish,
    grammar := grammar }

theorem Req.SameBut.trans {r₁ r₂ r₃ : Req} (h₁ : r₁.SameBut r₂) (h₂ : r₂.SameBut r₃) :
    r₁.SameBut r₃ := by
  obtain ⟨out, reason, len, toF, g, rfl⟩ := h₁
  obtain ⟨out', reason', len', toF', g', rfl⟩ := h₂
  exact ⟨out', reason', len', toF', g', rfl⟩

theorem Req.sameBut_checkFinished (req : Req) (n : ℕ) : req.SameBut (req.checkFinished n) := by
  obtain ⟨reason, len, toF, out, h⟩ := req.checkFinished_frame n
  exact ⟨out, reason, len, toF, _, h⟩

/-- Tokens were committed : `n` of `ts`, all of them unless the request finished, and
only the last of them possibly overwritten. -/
structure Committed (req : Req) (ts : List ℤ) (req' : Req) (n : ℕ) : Prop where
  same : req.SameBut req'
  pos : 0 < n
  le : n ≤ ts.length
  finished_of_lt : n < ts.length → req'.finished = true
  open_of_unfinished : req'.finished = false → req'.Open
  finishedLen_eq : req'.finishedLen = none ∨ req'.finishedLen = some req'.outputIds.length
  outputIds_eq : ∃ t, req'.outputIds = req.outputIds ++ (ts.take (n - 1) ++ [t]) ∧
    (t = ts.getD (n - 1) 0 ∨ (req.outsideVocab (ts.getD (n - 1) 0) = true ∧
      t = req.vocabReplacement (ts.getD (n - 1) 0) ∧
      req'.finishedReason = some (.matchedStr "NaN happened")))

/-- A token that finishes the request. -/
theorem committed_of_finished {req : Req} (ho : req.Open) (t : ℤ) (rest : List ℤ)
    (hf : ((req.append t).checkFinished 1).finished = true) :
    Committed req (t :: rest) ((req.append t).checkFinished 1) 1 := by
  have hun : (req.append t).finished = false := ho.unfinished
  have hsame : req.SameBut ((req.append t).checkFinished 1) :=
    Req.SameBut.trans ⟨_, _, _, _, _, rfl⟩ (Req.sameBut_checkFinished _ _)
  rcases Req.checkFinished_one_cases hun rfl ho.length_lt with ⟨h, -⟩ | ⟨-, hfl, t', hout, ht⟩
  · rw [h, hun] at hf
    cases hf
  · refine ⟨hsame, Nat.one_pos, by simp, fun _ => hf, fun h => ?_, ?_, t', ?_, ht⟩
    · rw [hf] at h
      cases h
    · rcases hfl with hfl | hfl
      · exact Or.inl (hfl.trans ho.finishedLen_eq)
      · exact Or.inr (by rw [hfl, hout]; simp)
    · simpa using hout

/-- A token that does not finish the request leaves room for another. -/
theorem open_of_unfinished {req : Req} (ho : req.Open) (t : ℤ)
    (hf : ((req.append t).checkFinished 1).finished = false) :
    (req.append t).checkFinished 1 = req.append t ∧ (req.append t).Open := by
  have hun : (req.append t).finished = false := ho.unfinished
  rcases Req.checkFinished_one_cases hun rfl ho.length_lt with ⟨h, hlt⟩ | ⟨hf', -⟩
  · exact ⟨h, hun, ho.finishedLen_eq, by simpa [Req.append] using hlt⟩
  · rw [hf] at hf'
    cases hf'

/-- Committing more tokens after one that did not finish the request. -/
theorem Committed.cons {req r₁ r₂ : Req} {t : ℤ} {rest : List ℤ} {n : ℕ}
    (hsame : req.SameBut r₁) (hout : r₁.outputIds = req.outputIds ++ [t])
    (h : Committed r₁ rest r₂ n) : Committed req (t :: rest) r₂ (n + 1) := by
  obtain ⟨t', hout', ht'⟩ := h.outputIds_eq
  obtain ⟨k, rfl⟩ : ∃ k, n = k + 1 := ⟨n - 1, by have := h.pos; omega⟩
  obtain ⟨o, re, ln, tf, g, rfl⟩ := hsame
  refine ⟨Req.SameBut.trans ⟨o, re, ln, tf, g, rfl⟩ h.same, Nat.succ_pos _, ?_, fun hlt => ?_,
    h.open_of_unfinished, h.finishedLen_eq, t', ?_, ht'⟩
  · simpa using h.le
  · exact h.finished_of_lt (by simpa using hlt)
  · rw [hout']
    simp only at hout
    simp [hout]

/-- The commit loop on a request with room for a token. -/
theorem commitLoop_spec : ∀ (ts : List ℤ) (req : Req) (appended : ℕ), req.Open → ts ≠ [] →
    ∃ req' n, commitLoop req appended ts = (req', appended + n) ∧ Committed req ts req' n
  | [], _, _, _, hne => absurd rfl hne
  | t :: rest, req, appended, ho, _ => by
    rw [commitLoop]
    by_cases hf : ((req.append t).checkFinished 1).finished = true
    · rw [if_pos hf]
      exact ⟨_, 1, rfl, committed_of_finished ho t rest hf⟩
    · obtain ⟨heq, ho'⟩ := open_of_unfinished ho t (by simpa using hf)
      rw [if_neg hf, heq]
      have hsame : req.SameBut ((req.append t).acceptToken t) := ⟨_, _, _, _, _, rfl⟩
      have ho₁ : ((req.append t).acceptToken t).Open :=
        ⟨ho'.unfinished, ho'.finishedLen_eq, ho'.length_lt⟩
      cases rest with
      | nil =>
        exact ⟨_, 1, rfl, hsame, Nat.one_pos, le_rfl, fun h => absurd h (lt_irrefl _),
          fun _ => ho₁, Or.inl ho₁.finishedLen_eq, t, rfl, Or.inl rfl⟩
      | cons t' rest =>
        obtain ⟨r, n, hr, hc⟩ := commitLoop_spec (t' :: rest) _ (appended + 1) ho₁ (by simp)
        exact ⟨r, n + 1, by rw [hr, Nat.add_assoc, Nat.add_comm 1 n], Committed.cons hsame rfl hc⟩

theorem Committed.length_outputIds {req req' : Req} {ts : List ℤ} {n : ℕ}
    (h : Committed req ts req' n) : req'.outputIds.length = req.outputIds.length + n := by
  obtain ⟨t, hout, -⟩ := h.outputIds_eq
  have hpos := h.pos
  have hle := h.le
  rw [hout]
  simp only [List.length_append, List.length_take, List.length_singleton]
  omega

/-! ## The step -/

/-- The exceptions of the verify step. -/
inductive VerifyError where
  | noCurrentToken
  | metadata (error : MetadataError)
deriving DecidableEq, Repr

/-- What the verify step returns for one request. -/
structure VerifyOutcome where
  req : Req
  newVerifiedId : ℤ
  commitLen : ℕ
  acceptLength : ℕ

/-- The new current token (`dflash_info.py:415-423`). -/
def newVerifiedToken (req : Req) : Except VerifyError ℤ :=
  match req.outputIds.getLast?.or req.originInputIds.getLast? with
  | some tokenId => .ok tokenId
  | none => .error .noCurrentToken

/-- The counters of a request after a verify step (`dflash_info.py:427-430`). -/
def Req.countVerify (req : Req) (acceptLength : ℕ) : Req :=
  { req with
    specVerifyCt := req.specVerifyCt + 1
    specAcceptedTokens := req.specAcceptedTokens + acceptLength
    specAcceptanceHistogram :=
      Req.updateSpecAcceptanceHistogram req.specAcceptanceHistogram acceptLength }

/-- `drafted_len` (`dflash_info.py:438-443`). -/
def draftedLen (accLen appended maxAcc : ℕ) : ℕ :=
  if accLen + 1 ≤ appended then maxAcc
  else if maxAcc ≤ accLen ∧ maxAcc ≤ appended then maxAcc
  else appended - 1

/-- `anchor_index`, after the commit loop. -/
def anchorIndex (req : Req) (appended : ℕ) : ℤ := (req.outputIds.length : ℤ) - appended - 1

/-- The replay block of the step, when the request asks for it (`dflash_info.py:444-457`). -/
def recordReplayBlock {B : ℕ} (row : VerifyRow B) (req : Req) (appended : ℕ)
    (info : Option CustomizedInfo) : Except MetadataError (Option CustomizedInfo) :=
  if req.samplingParams.useReplayDis then
    appendDflashReplayBlockMetadata info req.outputIds.length appended (anchorIndex req appended)
      ((appended - 1 : ℕ) : ℤ) (draftedLen row.acceptLen appended (B - 1)) true
  else .ok info

/-- A step that committed `n` tokens records a rejected suffix. -/
def VerifyRow.records {B : ℕ} (row : VerifyRow B) (n : ℕ) : Bool :=
  row.acceptLen + 1 ≤ n ∧ row.acceptLen < B - 1

/-- The rejected suffix of the step (`dflash_info.py:458-477`). -/
def recordRejectedDraft {B : ℕ} (row : VerifyRow B) (req : Req) (appended : ℕ)
    (info : Option CustomizedInfo) : Except MetadataError (Option CustomizedInfo) :=
  if row.records appended then
    appendDflashRejectedDraftMetadata info req.outputIds.length appended (anchorIndex req appended)
      row.rejectedOffsets row.rejectedTokenIds row.rejectedTeacherLogprobs true
  else .ok info

/-- The metadata the step records after the commit loop (`dflash_info.py:431-477`). -/
def recordVerify {B : ℕ} (row : VerifyRow B) (req : Req) (appended : ℕ) :
    Except MetadataError (Option CustomizedInfo) := do
  let info := appendDflashRejectTokenMask req.customizedInfo req.outputIds.length appended true
  let info ← recordReplayBlock row req appended info
  recordRejectedDraft row req appended info

/-- One request of `DFlashVerifyInput.verify` (`dflash_info.py:398-477, 508-511`). -/
def verifyReq {B : ℕ} (row : VerifyRow B) (req : Req) : Except VerifyError VerifyOutcome := do
  let (req, appended) := commitLoop req 0 row.proposed
  let newVerifiedId ← newVerifiedToken req
  let req := req.countVerify (appended - 1)
  let info ← (recordVerify row req appended).mapError .metadata
  let kvCommittedLen := req.kvCommittedLen + appended
  return {
    req := { req with
      customizedInfo := info, kvCommittedLen := kvCommittedLen, kvAllocatedLen := kvCommittedLen }
    newVerifiedId := newVerifiedId
    commitLen := appended
    acceptLength := appended - 1 }

/-! ## What the step records -/

/-- The four chunks a step records for its rejected suffix. -/
def VerifyRow.rejectedChunksAt {B : ℕ} (row : VerifyRow B) (anchorIndex : ℤ) :
    List (InfoKey × Value) :=
  rejectedChunks anchorIndex row.rejectedOffsets row.rejectedTokenIds row.rejectedTeacherLogprobs

theorem VerifyRow.lookup_rejectedChunksAt_isSome {B : ℕ} (row : VerifyRow B) (anchorIndex : ℤ)
    {key : InfoKey} {chunk : Value}
    (h : Dict.lookup key (row.rejectedChunksAt anchorIndex) = some chunk) :
    key ≠ .dflashRejectTokenMask ∧
      ∀ a b c, key ∉ (replayChunks a b c).map Prod.fst := by
  have hmem : key ∈ (row.rejectedChunksAt anchorIndex).map Prod.fst := by
    by_contra hne
    rw [Dict.lookup_eq_none_iff.mpr hne] at h
    cases h
  simp only [rejectedChunksAt, rejectedChunks, List.map_cons, List.map_nil] at hmem
  rcases List.mem_cons.mp hmem with rfl | hmem
  · simp [replayChunks]
  · simp only [List.mem_cons, List.not_mem_nil, or_false] at hmem
    rcases hmem with rfl | rfl | rfl <;> simp [replayChunks]

/-- A committed prefix of the block is never longer than the drafted length. -/
theorem sub_one_le_draftedLen {accLen n maxAcc : ℕ} (hn : n ≤ accLen + 1) (hacc : accLen ≤ maxAcc) :
    n - 1 ≤ draftedLen accLen n maxAcc := by
  unfold draftedLen
  split_ifs <;> omega

/-- The replay metadata is written, or skipped, without touching other keys. -/
theorem appendReplay_ok (info : CustomizedInfo) (outputLen committed : ℕ) (anchorIndex : ℤ)
    {acceptedLength draftedLength : ℕ} (h : acceptedLength ≤ draftedLength) :
    ∃ info', appendDflashReplayBlockMetadata (some info) outputLen committed anchorIndex
        acceptedLength draftedLength true = .ok (some info') ∧
      ∀ key, (∀ a b c, key ∉ (replayChunks a b c).map Prod.fst) →
        info'.get? key = info.get? key := by
  unfold appendDflashReplayBlockMetadata
  split_ifs with h0 hbad
  · exact ⟨info, rfl, fun _ _ => rfl⟩
  · omega
  · exact ⟨_, rfl, fun key hkey =>
      get?_writeChunks_of_not_mem (nodup_replayChunks _ _ _) (hkey _ _ _) _ _ _⟩

/-- What a step that committed `n` tokens records, starting from `len` tokens. -/
structure Recorded {B : ℕ} (row : VerifyRow B) (old : Option CustomizedInfo) (len n : ℕ)
    (info : Option CustomizedInfo) : Prop where
  mask : keyList info .dflashRejectTokenMask =
    recordAt (.bool false) (.bool true) len n (keyList old .dflashRejectTokenMask)
  rejected : ∀ key chunk, Dict.lookup key (row.rejectedChunksAt ((len : ℤ) - 1)) = some chunk →
    keyList info key =
      if row.records n then recordAt (.list []) chunk len n (keyList old key)
      else keyList old key

/-- The rejected suffix is written under its four keys. -/
theorem appendRejected_ok {B : ℕ} (row : VerifyRow B) (info : CustomizedInfo)
    (outputLen : ℕ) {n : ℕ} (hn : 0 < n) (anchorIndex : ℤ) (hacc : row.acceptLen < B - 1)
    (already : Bool) :
    appendDflashRejectedDraftMetadata (some info) outputLen n anchorIndex row.rejectedOffsets
        row.rejectedTokenIds row.rejectedTeacherLogprobs already =
      .ok (some (writeChunks (row.rejectedChunksAt anchorIndex)
        (prefixLen outputLen n already) n info)) := by
  have hoff := row.length_rejectedOffsets
  unfold appendDflashRejectedDraftMetadata
  rw [if_neg, if_neg, if_neg]
  · rfl
  · omega
  · rw [not_not, hoff, row.length_rejectedTokenIds, row.length_rejectedTeacherLogprobs]
    exact ⟨rfl, rfl⟩
  · intro hnil
    rw [hnil, List.length_nil] at hoff
    omega

/-- The info with the mask entry written, and the rejected suffix when there is one. -/
theorem recorded_write {B : ℕ} (row : VerifyRow B) {old : Option CustomizedInfo} {len n : ℕ}
    {info : CustomizedInfo}
    (hmask : info.get? .dflashRejectTokenMask = some (recordAt (.bool false) (.bool true) len n
      (keyList old .dflashRejectTokenMask)))
    (hold : ∀ key chunk, Dict.lookup key (row.rejectedChunksAt ((len : ℤ) - 1)) = some chunk →
      info.get? key = (old.getD .empty).get? key) :
    Recorded row old len n (some (if row.records n then
      writeChunks (row.rejectedChunksAt ((len : ℤ) - 1)) len n info else info)) := by
  have hnd : ((row.rejectedChunksAt ((len : ℤ) - 1)).map Prod.fst).Nodup :=
    nodup_rejectedChunks _ _ _ _
  have hnot : InfoKey.dflashRejectTokenMask ∉
      (row.rejectedChunksAt ((len : ℤ) - 1)).map Prod.fst := by
    simp [VerifyRow.rejectedChunksAt, rejectedChunks]
  by_cases hrec : row.records n = true
  · refine ⟨?_, fun key chunk hk => ?_⟩
    · rw [if_pos hrec, keyList, Option.getD_some, get?_writeChunks_of_not_mem hnd hnot, hmask,
        Option.getD_some]
    · rw [if_pos hrec, if_pos hrec, keyList, Option.getD_some, get?_writeChunks hnd, hk,
        Option.elim_some, Option.getD_some, hold key chunk hk]
      rfl
  · refine ⟨?_, fun key chunk hk => ?_⟩
    · rw [if_neg hrec, keyList, Option.getD_some, hmask, Option.getD_some]
    · rw [if_neg hrec, if_neg hrec, keyList, Option.getD_some, hold key chunk hk]
      rfl

/-- The metadata of a verify step is always recorded. -/
theorem recordVerify_spec {B : ℕ} (row : VerifyRow B) (req : Req) {len n : ℕ} (hn : 0 < n)
    (hle : n ≤ row.acceptLen + 1) (hlen : req.outputIds.length = len + n) :
    ∃ info, recordVerify row req n = .ok info ∧ Recorded row req.customizedInfo len n info := by
  have hprefix : prefixLen req.outputIds.length n true = len := by
    simp only [prefixLen, if_true]
    omega
  have hanchor : anchorIndex req n = (len : ℤ) - 1 := by
    unfold anchorIndex
    omega
  obtain ⟨masked, hmasked⟩ : ∃ masked, masked = writeKey (.bool false) (.bool true) len n
      (req.customizedInfo.getD .empty) .dflashRejectTokenMask := ⟨_, rfl⟩
  have hmask : appendDflashRejectTokenMask req.customizedInfo req.outputIds.length n true =
      some masked := by
    rw [appendDflashRejectTokenMask, if_neg (by omega), hprefix, hmasked]
  obtain ⟨replayed, hreplay, hkeys⟩ : ∃ replayed,
      recordReplayBlock row req n (some masked) = .ok (some replayed) ∧
      ∀ key, (∀ a b c, key ∉ (replayChunks a b c).map Prod.fst) →
        replayed.get? key = masked.get? key := by
    unfold recordReplayBlock
    split_ifs
    · exact appendReplay_ok masked _ n _ (sub_one_le_draftedLen hle row.acceptLen_le)
    · exact ⟨masked, rfl, fun _ _ => rfl⟩
  have hold : ∀ key chunk, Dict.lookup key (row.rejectedChunksAt ((len : ℤ) - 1)) = some chunk →
      replayed.get? key = (req.customizedInfo.getD .empty).get? key := by
    intro key chunk hk
    obtain ⟨hne, hnot⟩ := row.lookup_rejectedChunksAt_isSome _ hk
    rw [hkeys key hnot, hmasked, get?_writeKey, if_neg hne]
  have hmaskrep : replayed.get? .dflashRejectTokenMask = some (recordAt (.bool false) (.bool true)
      len n (keyList req.customizedInfo .dflashRejectTokenMask)) := by
    rw [hkeys _ (by simp [replayChunks]), hmasked, get?_writeKey, if_pos rfl]
    rfl
  have heq : recordVerify row req n = recordRejectedDraft row req n (some replayed) := by
    unfold recordVerify
    simp only [hmask]
    rw [hreplay]
    rfl
  refine ⟨_, ?_, recorded_write row hmaskrep hold⟩
  rw [heq, recordRejectedDraft, hanchor]
  split_ifs with hrec
  · have hacc : row.acceptLen < B - 1 := by
      simp only [VerifyRow.records, decide_eq_true_eq] at hrec
      exact hrec.2
    rw [appendRejected_ok row replayed _ hn _ hacc, hprefix]
  · rfl

/-- What the verify step does to a request with room for a token. -/
structure Verified {B : ℕ} (row : VerifyRow B) (req : Req) (out : VerifyOutcome) : Prop where
  committed : ∃ mid, Committed req row.proposed mid out.commitLen ∧
    commitLoop req 0 row.proposed = (mid, out.commitLen) ∧ ∃ info kv,
    Recorded row req.customizedInfo req.outputIds.length out.commitLen info ∧
    out.req = { mid.countVerify (out.commitLen - 1) with
      customizedInfo := info, kvCommittedLen := kv, kvAllocatedLen := kv }
  acceptLength_eq : out.acceptLength = out.commitLen - 1
  newVerifiedId_eq : out.req.outputIds.getLast? = some out.newVerifiedId

/-- The verify step never raises on a request with room for a token. -/
theorem verifyReq_spec {B : ℕ} (row : VerifyRow B) {req : Req} (ho : req.Open) :
    ∃ out, verifyReq row req = .ok out ∧ Verified row req out := by
  have hne : row.proposed ≠ [] := by simp [VerifyRow.proposed]
  obtain ⟨mid, n, hloop, hc⟩ := commitLoop_spec row.proposed req 0 ho hne
  rw [Nat.zero_add] at hloop
  have hlen := hc.length_outputIds
  have hpos := hc.pos
  have hle : n ≤ row.acceptLen + 1 := hc.le.trans_eq row.length_proposed
  obtain ⟨out, reason, fl, toF, g, hmid⟩ := hc.same
  have hci : (mid.countVerify (n - 1)).customizedInfo = req.customizedInfo := by rw [hmid]; rfl
  obtain ⟨info, hinfo, hrec⟩ := recordVerify_spec row (mid.countVerify (n - 1)) hpos hle hlen
  rw [hci] at hrec
  obtain ⟨t, hlast⟩ : ∃ t, mid.outputIds.getLast? = some t := by
    rw [← Option.isSome_iff_exists, List.getLast?_isSome]
    rintro hnil
    rw [hnil, List.length_nil] at hlen
    omega
  have hnew : newVerifiedToken mid = .ok t := by rw [newVerifiedToken, hlast]; rfl
  refine ⟨⟨{ mid.countVerify (n - 1) with
    customizedInfo := info, kvCommittedLen := mid.kvCommittedLen + n
    kvAllocatedLen := mid.kvCommittedLen + n }, t, n, n - 1⟩, ?_,
    ⟨mid, hc, hloop, info, _, hrec, rfl⟩, rfl, hlast⟩
  unfold verifyReq
  rw [hloop]
  simp only
  rw [hnew]
  simp only [hinfo]
  rfl

end DraftOpd
