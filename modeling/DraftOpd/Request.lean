import Mathlib.Data.List.Infix
import DraftOpd.CustomizedInfo

/-!
# Requests and their stop conditions

`Req` holds the fields of `managers/schedule_batch.py` that the rollout reads or
writes. `Req.checkFinished` is `Req.check_finished` (`schedule_batch.py:996-1091`) with
every condition it tests, in its order : a pending abort, the length limit, the
grammar, a stop token among the new tokens, a token outside the vocabulary, a stop
string or regex in the decoded tail. The vocabulary test overwrites the offending
token with a stop token.

A check writes the finish fields and, through the vocabulary test, one token of
the output (`checkFinished_frame`). `checkFinished_one_cases` says what a check of
one new token does.
-/

namespace DraftOpd

/-- The subclasses of `BaseFinishReason`. -/
inductive FinishReason where
  | matchedToken (matched : ℤ)
  | matchedStr (matched : String)
  | matchedRegex (matched : String)
  | length (length : ℕ)
  | abort (message : String)
deriving DecidableEq, Repr

/-- A stop regex with its `re.search`. -/
structure StopRegex where
  pattern : String
  search : String → Bool

/-- What the stop conditions read of a tokenizer. -/
structure Tokenizer where
  eosTokenId : Option ℤ
  additionalStopTokenIds : List ℤ
  decode : List ℤ → String

/-- A grammar object : the tokens it accepted, and whether it terminates on them. -/
structure Grammar where
  accepted : List ℤ
  terminates : List ℤ → Bool

/-- `grammar.accept_token`. -/
def Grammar.acceptToken (g : Grammar) (tokenId : ℤ) : Grammar :=
  { g with accepted := g.accepted ++ [tokenId] }

/-- `grammar.is_terminated`. -/
def Grammar.isTerminated (g : Grammar) : Bool := g.terminates g.accepted

/-- The sampling parameters read by the rollout, with their defaults. A set of token ids
is the list of its elements in iteration order, `None` the empty list. -/
structure SamplingParams where
  maxNewTokens : ℕ := 128
  stopTokenIds : List ℤ := []
  ignoreEos : Bool := false
  stopStrs : List String := []
  stopStrMaxLen : ℕ := 0
  stopRegexStrs : List StopRegex := []
  stopRegexMaxLen : ℕ := 0
  /-- `custom_params["use_replay_dis"]`. -/
  useReplayDis : Bool := false

/-- A request of the scheduler. -/
structure Req where
  rid : String
  originInputIds : List ℤ
  outputIds : List ℤ
  samplingParams : SamplingParams
  tokenizer : Option Tokenizer
  eosTokenIds : List ℤ
  vocabSize : ℤ
  grammar : Option Grammar
  decodedText : String
  finishedReason : Option FinishReason
  finishedLen : Option ℕ
  finishedOutput : Bool
  toFinish : Option FinishReason
  isRetracted : Bool
  retractionCount : ℕ
  sendTokenOffset : ℕ
  customizedInfo : Option CustomizedInfo
  specVerifyCt : ℕ
  specAcceptedTokens : ℕ
  specAcceptanceHistogram : List ℕ
  kvCommittedLen : ℕ
  kvAllocatedLen : ℕ

namespace Req

/-- A request as `Req.__init__` builds it (`schedule_batch.py:497-800`). -/
def new (rid : String) (originInputIds : List ℤ) (samplingParams : SamplingParams)
    (tokenizer : Option Tokenizer) (eosTokenIds : List ℤ) (vocabSize : ℤ) : Req where
  rid := rid
  originInputIds := originInputIds
  outputIds := []
  samplingParams := samplingParams
  tokenizer := tokenizer
  eosTokenIds := eosTokenIds
  vocabSize := vocabSize
  grammar := none
  decodedText := ""
  finishedReason := none
  finishedLen := none
  finishedOutput := false
  toFinish := none
  isRetracted := false
  retractionCount := 0
  sendTokenOffset := 0
  customizedInfo := none
  specVerifyCt := 0
  specAcceptedTokens := 0
  specAcceptanceHistogram := []
  kvCommittedLen := 0
  kvAllocatedLen := 0

/-- `Req.finished`. -/
def finished (req : Req) : Bool := req.finishedReason.isSome

/-- `Req.output_ids_through_stop` (`schedule_batch.py:812-817`). -/
def outputIdsThroughStop (req : Req) : List ℤ :=
  match req.finishedLen with
  | some n => req.outputIds.take n
  | none => req.outputIds

/-- `Req.update_spec_acceptance_histogram` (`schedule_batch.py:839-850`). -/
def updateSpecAcceptanceHistogram (histogram : List ℕ) (acceptedDraftTokens : ℕ) : List ℕ :=
  (padTo 0 (acceptedDraftTokens + 1) histogram).modify acceptedDraftTokens (· + 1)

/-! ## Stop conditions -/

/-- `output_ids[-n:]`. -/
def lastTokens (xs : List ℤ) (n : ℕ) : List ℤ :=
  if n = 0 then xs else xs.drop (xs.length - n)

/-- The token tests of `_check_token_based_finish`. -/
def matchesEos (req : Req) (tokenId : ℤ) : Bool :=
  tokenId ∈ req.samplingParams.stopTokenIds ∨ tokenId ∈ req.eosTokenIds ∨
    (∃ tok ∈ req.tokenizer, tok.eosTokenId = some tokenId ∨ tokenId ∈ tok.additionalStopTokenIds)

/-- `_check_token_based_finish` (`schedule_batch.py:996-1018`). -/
def checkTokenBasedFinish (req : Req) (newAcceptedTokens : List ℤ) : Option Req :=
  if req.samplingParams.ignoreEos then none
  else (newAcceptedTokens.findIdx? req.matchesEos).map fun i =>
    let matchedPos := req.outputIds.length - newAcceptedTokens.length + i
    { req with
      finishedReason := some (.matchedToken (newAcceptedTokens.getD i 0))
      finishedLen := some (matchedPos + 1) }

/-- A token outside the vocabulary, as `_check_vocab_boundary_finish` tests it. -/
def outsideVocab (req : Req) (tokenId : ℤ) : Bool :=
  tokenId > req.vocabSize ∨ tokenId < 0

/-- What a token outside the vocabulary is overwritten with : the first stop token,
and the first end-of-sequence token over it. -/
def vocabReplacement (req : Req) (tokenId : ℤ) : ℤ :=
  (req.eosTokenIds.head?.or req.samplingParams.stopTokenIds.head?).getD tokenId

/-- `_check_vocab_boundary_finish` (`schedule_batch.py:1045-1059`). -/
def checkVocabBoundaryFinish (req : Req) (newAcceptedTokens : List ℤ) : Option Req :=
  (newAcceptedTokens.findIdx? req.outsideVocab).map fun i =>
    let offset := req.outputIds.length - newAcceptedTokens.length + i
    { req with
      outputIds := req.outputIds.modify offset req.vocabReplacement
      finishedReason := some (.matchedStr "NaN happened")
      finishedLen := some (offset + 1) }

/-- Python's `needle in haystack` on strings. -/
def isSubstring (needle haystack : String) : Bool :=
  needle.toList <:+: haystack.toList

/-- `Req.tail_str` (`schedule_batch.py:951-965`). -/
def tailStr (req : Req) : String :=
  let params := req.samplingParams
  if params.stopStrs = [] ∧ params.stopRegexStrs.isEmpty then ""
  else
    let maxLenTailStr := max (params.stopStrMaxLen + 1) (params.stopRegexMaxLen + 1)
    let tailLen := min maxLenTailStr req.outputIds.length
    (req.tokenizer.map fun tok => tok.decode (lastTokens req.outputIds tailLen)).getD ""

/-- `_check_str_based_finish` (`schedule_batch.py:1020-1041`). -/
def checkStrBasedFinish (req : Req) : Option Req :=
  let params := req.samplingParams
  match params.stopStrs.find? fun s =>
    isSubstring s req.tailStr || isSubstring s req.decodedText with
  | some s => some { req with finishedReason := some (.matchedStr s) }
  | none =>
    (params.stopRegexStrs.find? fun re => re.search req.tailStr).map fun re =>
      { req with finishedReason := some (.matchedRegex re.pattern) }

/-- `Req.check_finished` (`schedule_batch.py:1061-1091`). -/
def checkFinished (req : Req) (newAcceptedLen : ℕ) : Req :=
  if req.finished then req
  else match req.toFinish with
  | some reason => { req with finishedReason := some reason, toFinish := none }
  | none =>
    if req.samplingParams.maxNewTokens ≤ req.outputIds.length then
      { req with
        finishedReason := some (.length req.samplingParams.maxNewTokens)
        finishedLen := some req.samplingParams.maxNewTokens }
    else if req.grammar.any Grammar.isTerminated then
      { req with finishedReason := some (.matchedToken (req.outputIds.getLastD 0)) }
    else
      let newAcceptedTokens := lastTokens req.outputIds newAcceptedLen
      ((req.checkTokenBasedFinish newAcceptedTokens).or
        ((req.checkVocabBoundaryFinish newAcceptedTokens).or req.checkStrBasedFinish)).getD req

/-! ## What a check does -/

theorem checkFinished_of_finished {req : Req} (h : req.finished = true) (n : ℕ) :
    req.checkFinished n = req := by
  rw [checkFinished, if_pos h]

theorem eq_of_checkTokenBasedFinish {req req' : Req} {ts : List ℤ}
    (h : req.checkTokenBasedFinish ts = some req') :
    req.samplingParams.ignoreEos = false ∧ ∃ i, ts.findIdx? req.matchesEos = some i ∧
      req' = { req with
        finishedReason := some (.matchedToken (ts.getD i 0))
        finishedLen := some (req.outputIds.length - ts.length + i + 1) } := by
  unfold checkTokenBasedFinish at h
  split_ifs at h with hi
  obtain ⟨i, hidx, rfl⟩ := Option.map_eq_some_iff.mp h
  exact ⟨by simpa using hi, i, hidx, rfl⟩

theorem eq_of_checkVocabBoundaryFinish {req req' : Req} {ts : List ℤ}
    (h : req.checkVocabBoundaryFinish ts = some req') :
    ∃ i, ts.findIdx? req.outsideVocab = some i ∧
      req' = { req with
        outputIds := req.outputIds.modify (req.outputIds.length - ts.length + i)
          req.vocabReplacement
        finishedReason := some (.matchedStr "NaN happened")
        finishedLen := some (req.outputIds.length - ts.length + i + 1) } := by
  obtain ⟨i, hidx, rfl⟩ := Option.map_eq_some_iff.mp h
  exact ⟨i, hidx, rfl⟩

theorem eq_of_checkStrBasedFinish {req req' : Req} (h : req.checkStrBasedFinish = some req') :
    ∃ reason, req' = { req with finishedReason := some reason } := by
  unfold checkStrBasedFinish at h
  simp only at h
  split at h
  · exact ⟨_, (Option.some.inj h).symm⟩
  · obtain ⟨re, -, rfl⟩ := Option.map_eq_some_iff.mp h
    exact ⟨_, rfl⟩

/-- Everything a check of an unfinished request can do. -/
theorem checkFinished_cases {req : Req} (hun : req.finished = false) (n : ℕ) :
    (req.checkFinished n = req ∧ req.toFinish = none ∧
      req.outputIds.length < req.samplingParams.maxNewTokens ∧
      req.checkTokenBasedFinish (lastTokens req.outputIds n) = none ∧
      req.checkVocabBoundaryFinish (lastTokens req.outputIds n) = none) ∨
    (∃ reason toFinish, req.checkFinished n =
      { req with finishedReason := some reason, toFinish := toFinish }) ∨
    (req.toFinish = none ∧ req.samplingParams.maxNewTokens ≤ req.outputIds.length ∧
      req.checkFinished n = { req with
        finishedReason := some (.length req.samplingParams.maxNewTokens)
        finishedLen := some req.samplingParams.maxNewTokens }) ∨
    (req.outputIds.length < req.samplingParams.maxNewTokens ∧
      req.checkTokenBasedFinish (lastTokens req.outputIds n) = some (req.checkFinished n)) ∨
    (req.outputIds.length < req.samplingParams.maxNewTokens ∧
      req.checkTokenBasedFinish (lastTokens req.outputIds n) = none ∧
      req.checkVocabBoundaryFinish (lastTokens req.outputIds n) = some (req.checkFinished n)) := by
  unfold checkFinished
  rw [if_neg (by simp [hun])]
  cases hto : req.toFinish with
  | some reason => exact Or.inr (Or.inl ⟨reason, none, by simp⟩)
  | none =>
    simp only
    split_ifs with hlen hgram
    · exact Or.inr (Or.inr (Or.inl ⟨trivial, hlen, rfl⟩))
    · exact Or.inr (Or.inl ⟨.matchedToken (req.outputIds.getLastD 0), none, by simp⟩)
    · have hlt := Nat.lt_of_not_le hlen
      cases htok : req.checkTokenBasedFinish (lastTokens req.outputIds n) with
      | some r => exact Or.inr (Or.inr (Or.inr (Or.inl ⟨hlt, by simp⟩)))
      | none =>
        cases hvoc : req.checkVocabBoundaryFinish (lastTokens req.outputIds n) with
        | some r => exact Or.inr (Or.inr (Or.inr (Or.inr ⟨hlt, rfl, by simp⟩)))
        | none =>
          cases hstr : req.checkStrBasedFinish with
          | none => exact Or.inl ⟨by simp, trivial, hlt, rfl, rfl⟩
          | some r =>
            obtain ⟨reason, rfl⟩ := eq_of_checkStrBasedFinish hstr
            exact Or.inr (Or.inl ⟨reason, none, by simp [hto]⟩)

/-- A check writes the finish fields and the output, nothing else. -/
theorem checkFinished_frame (req : Req) (n : ℕ) : ∃ reason len toFinish out,
    req.checkFinished n = { req with
      finishedReason := reason, finishedLen := len, toFinish := toFinish, outputIds := out } := by
  by_cases hun : req.finished = true
  · exact ⟨_, _, _, _, checkFinished_of_finished hun n⟩
  rcases checkFinished_cases (by simpa using hun) n with
    ⟨h, -⟩ | ⟨reason, toF, h⟩ | ⟨-, -, h⟩ | ⟨-, h⟩ | ⟨-, -, h⟩
  · exact ⟨_, _, _, _, h⟩
  · exact ⟨_, _, _, _, h⟩
  · exact ⟨_, _, _, _, h⟩
  · obtain ⟨-, i, -, h⟩ := eq_of_checkTokenBasedFinish h
    exact ⟨_, _, _, _, h⟩
  · obtain ⟨i, -, h⟩ := eq_of_checkVocabBoundaryFinish h
    exact ⟨_, _, _, _, h⟩

/-- A check never changes the number of tokens. -/
theorem length_checkFinished (req : Req) (n : ℕ) :
    (req.checkFinished n).outputIds.length = req.outputIds.length := by
  by_cases hun : req.finished = true
  · rw [checkFinished_of_finished hun]
  rcases checkFinished_cases (by simpa using hun) n with
    ⟨h, -⟩ | ⟨reason, toF, h⟩ | ⟨-, -, h⟩ | ⟨-, h⟩ | ⟨-, -, h⟩
  · rw [h]
  · rw [h]
  · rw [h]
  · obtain ⟨-, i, -, h⟩ := eq_of_checkTokenBasedFinish h
    rw [h]
  · obtain ⟨i, -, h⟩ := eq_of_checkVocabBoundaryFinish h
    rw [h]
    exact List.length_modify _ _ _

theorem length_through_le (req : Req) :
    req.outputIdsThroughStop.length ≤ req.outputIds.length := by
  unfold outputIdsThroughStop
  cases req.finishedLen with
  | none => exact le_rfl
  | some n => exact (List.length_take_le' _ _)

theorem lastTokens_snoc (pre : List ℤ) (t : ℤ) : lastTokens (pre ++ [t]) 1 = [t] := by
  simp [lastTokens]

/-- What a check of one new token can do : nothing, or finish the request there. Only a
token outside the vocabulary is changed. -/
theorem checkFinished_one_cases {req : Req} {pre : List ℤ} {t : ℤ} (hun : req.finished = false)
    (hout : req.outputIds = pre ++ [t]) (hlen : pre.length < req.samplingParams.maxNewTokens) :
    (req.checkFinished 1 = req ∧ pre.length + 1 < req.samplingParams.maxNewTokens) ∨
    ((req.checkFinished 1).finished = true ∧
      ((req.checkFinished 1).finishedLen = req.finishedLen ∨
        (req.checkFinished 1).finishedLen = some (pre.length + 1)) ∧
      ∃ t', (req.checkFinished 1).outputIds = pre ++ [t'] ∧
        (t' = t ∨ (req.outsideVocab t = true ∧ t' = req.vocabReplacement t ∧
          (req.checkFinished 1).finishedReason = some (.matchedStr "NaN happened")))) := by
  have hlen' : req.outputIds.length = pre.length + 1 := by simp [hout]
  have hnew : lastTokens req.outputIds 1 = [t] := by rw [hout, lastTokens_snoc]
  have hcases := checkFinished_cases hun 1
  rw [hnew] at hcases
  rcases hcases with ⟨h, -, hlt, -⟩ | ⟨reason, toF, h⟩ | ⟨-, hge, h⟩ | ⟨-, h⟩ | ⟨-, -, h⟩
  · exact Or.inl ⟨h, by omega⟩
  · rw [h]
    exact Or.inr ⟨rfl, Or.inl rfl, t, hout, Or.inl rfl⟩
  · rw [h]
    exact Or.inr ⟨rfl, Or.inr (congrArg some (by omega)), t, hout, Or.inl rfl⟩
  · obtain ⟨-, i, hi, h⟩ := eq_of_checkTokenBasedFinish h
    obtain ⟨hi, -⟩ := List.findIdx?_eq_some_iff_getElem.mp hi
    obtain rfl : i = 0 := by simpa using hi
    rw [h]
    refine Or.inr ⟨rfl, Or.inr ?_, t, hout, Or.inl rfl⟩
    simp [hlen']
  · obtain ⟨i, hi, h⟩ := eq_of_checkVocabBoundaryFinish h
    obtain ⟨hi, hvoc, -⟩ := List.findIdx?_eq_some_iff_getElem.mp hi
    obtain rfl : i = 0 := by simpa using hi
    rw [h]
    refine Or.inr ⟨rfl, Or.inr ?_, req.vocabReplacement t, ?_, Or.inr ⟨hvoc, rfl, rfl⟩⟩
    · simp [hlen']
    · rw [hout]
      simp [List.modify_eq_take_cons_drop]

/-! ## Retraction -/

/-- `Req.reset_for_retract` (`schedule_batch.py:1093-1122`). -/
def resetForRetract (req : Req) : Req :=
  { req with
    retractionCount := req.retractionCount + 1
    isRetracted := true
    kvAllocatedLen := 0
    kvCommittedLen := 0 }

/-- `prepare_for_extend` (`schedule_batch.py:1505-1560`), on one request : the prompt and
the output so far are prefilled again. -/
def prepareForExtend (req : Req) : Req :=
  let seqLen := req.originInputIds.length + req.outputIds.length
  { req with kvCommittedLen := seqLen, kvAllocatedLen := seqLen, isRetracted := false }

end Req

end DraftOpd
