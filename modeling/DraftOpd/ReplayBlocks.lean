import DraftOpd.Autoregress
import DraftOpd.StopFold
import DraftOpd.StopPosition

/-!
# Replay blocks of a request that finishes

A verify step records how many drafted tokens it accepted as the number of tokens it committed
less one, for the bonus token. The trainer reads the records as replay blocks and counts the
token after the accepted ones as rejected (`replay_block_counts`).

When an accepted draft finishes the request, no bonus token is committed, and the record is one
short. `commitLoop_commits_all_iff` : the loop reaches the bonus token when none of the accepted
drafts finishes the request (`Req.finishesOn`), and those are the steps whose records are right
(`replay_record_exact_iff`).
-/

namespace DraftOpd

/-! ## The trainer's counts -/

/-- The counts of `replay_block_counts`. -/
structure ReplayCounts where
  accepted : ℤ
  firstRejected : ℤ
  postRejectionSuffix : ℤ
deriving DecidableEq, Repr

/-- The `ValueError` of `replay_block_counts`. -/
inductive ReplayError where
  | acceptedExceedsDrafted (r length : ℤ)
deriving DecidableEq, Repr

/-- `replay_block_counts` (`replay_distribution.py:31-42`). -/
def replayBlockCounts (acceptedLength draftedLength : ℤ) : Except ReplayError ReplayCounts :=
  let r := max acceptedLength 0
  let length := max draftedLength 0
  if r > length then .error (.acceptedExceedsDrafted r length)
  else
    let firstRejected := if r < length then 1 else 0
    .ok ⟨r, firstRejected, max (length - r - firstRejected) 0⟩

/-! ## How far the commit loop gets -/

namespace Req

/-- The check of the last of the new tokens finishes the request, whose grammar has accepted the
ones before it. -/
def finishesOn (req : Req) (tokens : List ℤ) : Bool :=
  (((tokens.dropLast.foldl acceptToken req).appendAll tokens).checkFinished 1).finished

theorem foldl_acceptToken_appendAll (ts us : List ℤ) (req : Req) :
    (ts.foldl acceptToken (req.appendAll us)) = (ts.foldl acceptToken req).appendAll us := by
  induction ts generalizing req with
  | nil => rfl
  | cons t ts ih => exact ih (req.acceptToken t)

/-- The tokens after one that was committed. -/
theorem finishesOn_cons (req : Req) (t : ℤ) {us : List ℤ} (h : us ≠ []) :
    ((req.append t).acceptToken t).finishesOn us = req.finishesOn (t :: us) := by
  have hstart : (req.append t).acceptToken t = (req.acceptToken t).appendAll [t] := rfl
  unfold finishesOn
  rw [List.dropLast_cons_of_ne_nil h, List.foldl_cons, hstart, foldl_acceptToken_appendAll,
    appendAll_append, List.singleton_append]

end Req

/-- The commit loop gets to the last token when no token before it finishes the request. -/
theorem commitLoop_commits_all_iff (last : ℤ) : ∀ (ts : List ℤ) (req : Req) (appended : ℕ),
    (commitLoop req appended (ts ++ [last])).2 = appended + ts.length + 1 ↔
      ∀ i < ts.length, req.finishesOn (ts.take (i + 1)) = false
  | [], req, appended => by
    simp only [List.nil_append, commitLoop, List.length_nil, Nat.add_zero, Nat.not_lt_zero,
      IsEmpty.forall_iff, implies_true, iff_true]
    split_ifs <;> rfl
  | t :: ts, req, appended => by
    have hfirst : req.finishesOn [t] = ((req.append t).checkFinished 1).finished := rfl
    rw [List.cons_append, commitLoop]
    by_cases hf : ((req.append t).checkFinished 1).finished = true
    · rw [if_pos hf]
      refine iff_of_false (by simp) fun h => ?_
      have hgo := h 0 (by simp)
      rw [List.take_succ_cons, List.take_zero, hfirst, hf] at hgo
      cases hgo
    · have heq := (Req.eq_of_checkFinished_unfinished (by simpa using hf)).1
      rw [if_neg hf, heq, List.length_cons]
      have ih := commitLoop_commits_all_iff last ts ((req.append t).acceptToken t) (appended + 1)
      rw [show appended + 1 + ts.length + 1 = appended + (ts.length + 1) + 1 by omega] at ih
      rw [ih]
      have hnext : ∀ i < ts.length, ((req.append t).acceptToken t).finishesOn (ts.take (i + 1)) =
          req.finishesOn ((t :: ts).take (i + 1 + 1)) := fun i hi => by
        rw [List.take_succ_cons]
        exact req.finishesOn_cons t (by
          rw [Ne, List.take_eq_nil_iff]
          rintro (h | h)
          · omega
          · rw [h] at hi
            exact absurd hi (Nat.not_lt_zero i))
      constructor
      · intro h i hi
        cases i with
        | zero =>
          rw [List.take_succ_cons, List.take_zero, hfirst]
          simpa using hf
        | succ i => rw [← hnext i (by omega), h i (by omega)]
      · intro h i hi
        rw [hnext i hi, h (i + 1) (by omega)]

/-! ## The replay block of a step -/

/-- A step wrote a replay block after `len` tokens. -/
def RecordsBlock (old new : Option CustomizedInfo) (len committed : ℕ)
    (anchorIndex acceptedLength draftedLength : ℤ) : Prop :=
  ∀ key chunk, Dict.lookup key (replayChunks anchorIndex acceptedLength draftedLength) =
    some chunk → keyList new key = recordAt (.list []) chunk len committed (keyList old key)

theorem recordAt_right_inj {α : Type*} {pad x y : α} {n c : ℕ} (hc : 0 < c) {xs : List α}
    (h : recordAt pad x n c xs = recordAt pad y n c xs) : x = y := by
  rw [recordAt_eq pad x n hc, recordAt_eq pad y n hc] at h
  simpa using h

/-- The keys of a replay block. -/
def InfoKey.IsReplay (key : InfoKey) : Prop := key ∈ (replayChunks 0 0 0).map Prod.fst

theorem keyList_appendMask {key : InfoKey} (hkey : key.IsReplay) (info : Option CustomizedInfo)
    (outputLen committed : ℕ) (already : Bool) :
    keyList (appendDflashRejectTokenMask info outputLen committed already) key =
      keyList info key := by
  have hne : key ≠ .dflashRejectTokenMask := by
    rintro rfl
    simp [InfoKey.IsReplay, replayChunks] at hkey
  unfold appendDflashRejectTokenMask
  split_ifs
  · rfl
  · rw [keyList, Option.getD_some, get?_writeKey, if_neg hne]
    rfl

theorem keyList_recordRejectedDraft {B : ℕ} {row : VerifyRow B} {req : Req} {n : ℕ}
    {info info' : Option CustomizedInfo} {key : InfoKey} (hkey : key.IsReplay)
    (h : recordRejectedDraft row req n info = .ok info') :
    keyList info' key = keyList info key := by
  have hnot : key ∉ (row.rejectedChunksAt (anchorIndex req n)).map Prod.fst := by
    intro hmem
    obtain ⟨e, he, rfl⟩ := List.mem_map.mp hmem
    exact (row.lookup_rejectedChunksAt_isSome _ (Dict.lookup_of_mem
      (nodup_rejectedChunks _ _ _ _) he)).2 0 0 0 hkey
  unfold recordRejectedDraft appendDflashRejectedDraftMetadata at h
  split_ifs at h
  · rw [Except.ok.inj h]
  · rw [Except.ok.inj h]
  · rw [← Except.ok.inj h, keyList, Option.getD_some]
    exact congrArg (fun values => values.getD [])
      (get?_writeChunks_of_not_mem (nodup_rejectedChunks _ _ _ _) hnot _ _ _)
  · rw [Except.ok.inj h]

/-- The block's writer writes all three keys, or none when nothing was drafted. -/
theorem keyList_recordReplayBlock {B : ℕ} {row : VerifyRow B} {req : Req} {len n : ℕ} (hn : 0 < n)
    (hlen : req.outputIds.length = len + n) {info info' : Option CustomizedInfo} {key : InfoKey}
    {chunk : Value} (hkey : Dict.lookup key (replayChunks (anchorIndex req n) ((n - 1 : ℕ) : ℤ)
      (draftedLen row.acceptLen n (B - 1))) = some chunk)
    (h : recordReplayBlock row req n info = .ok info') :
    keyList info' key = if req.samplingParams.useReplayDis = true ∧
        0 < draftedLen row.acceptLen n (B - 1) then
      recordAt (.list []) chunk len n (keyList info key) else keyList info key := by
  have hprefix : prefixLen req.outputIds.length n true = len := by
    simp only [prefixLen, if_true]
    omega
  unfold recordReplayBlock appendDflashReplayBlockMetadata at h
  by_cases huse : req.samplingParams.useReplayDis = true
  · rw [if_pos huse] at h
    by_cases hzero : n = 0 ∨ (draftedLen row.acceptLen n (B - 1) : ℤ) ≤ 0
    · rw [if_pos hzero] at h
      rw [if_neg (by omega), Except.ok.inj h]
    · rw [if_neg hzero] at h
      split_ifs at h
      rw [if_pos ⟨huse, by omega⟩, ← Except.ok.inj h, keyList, Option.getD_some,
        get?_writeChunks (nodup_replayChunks _ _ _), hkey, hprefix]
      rfl
  · rw [if_neg huse] at h
    rw [if_neg (fun h => huse h.1), Except.ok.inj h]

/-- The lengths of the block a step wrote. -/
theorem recordsBlock_lengths {B : ℕ} {row : VerifyRow B} {req : Req} {len n : ℕ} (hn : 0 < n)
    (hlen : req.outputIds.length = len + n) {info : Option CustomizedInfo}
    (h : recordVerify row req n = .ok info) {anchor accepted drafted : ℤ}
    (hblock : RecordsBlock req.customizedInfo info len n anchor accepted drafted) :
    accepted = ((n - 1 : ℕ) : ℤ) ∧ drafted = draftedLen row.acceptLen n (B - 1) := by
  unfold recordVerify at h
  obtain ⟨replayed, hreplay, h⟩ := of_bind_ok h
  -- Both lists end with the chunk of this step ; a list that was not written is too short.
  have hkeys : ∀ (key : InfoKey) {chunk chunk' : Value},
      Dict.lookup key (replayChunks anchor accepted drafted) = some chunk →
      Dict.lookup key (replayChunks (anchorIndex req n) ((n - 1 : ℕ) : ℤ)
        (draftedLen row.acceptLen n (B - 1))) = some chunk' → key.IsReplay →
      chunk = chunk' := by
    intro key chunk chunk' h₁ h₂ hkey
    have hwrite := (keyList_recordRejectedDraft hkey h).trans
      (keyList_recordReplayBlock hn hlen h₂ hreplay)
    rw [keyList_appendMask hkey, hblock key chunk h₁] at hwrite
    split_ifs at hwrite
    · exact recordAt_right_inj hn hwrite
    · have hlength := congrArg List.length hwrite
      rw [length_recordAt] at hlength
      omega
  have haccepted := hkeys .dflashReplayBlockAcceptedLengths rfl rfl
    (by simp [InfoKey.IsReplay, replayChunks])
  have hdrafted := hkeys .dflashReplayBlockDraftedLengths rfl rfl
    (by simp [InfoKey.IsReplay, replayChunks])
  simp only [Value.list.injEq, List.cons.injEq, Value.int.injEq, and_true] at haccepted hdrafted
  exact ⟨haccepted, hdrafted⟩

/-! ## When the records are right -/

/-- The target's prediction is not the drafted token at an offset of the block. -/
def VerifyRow.RejectsAt {B : ℕ} (row : VerifyRow B) (offset : ℕ) : Prop :=
  0 < offset ∧ offset < B ∧ row.candidates[offset]? ≠ row.targetPredict[offset - 1]?

/-- What the records of a step should say : the number of accepted drafts among the tokens it
committed, and no rejected token that the target did not reject. -/
structure ReplayExact {B : ℕ} (row : VerifyRow B) (req : Req) (out : VerifyOutcome) : Prop where
  acceptLength_eq : out.acceptLength = min out.commitLen row.acceptLen
  specAcceptedTokens_eq :
    out.req.specAcceptedTokens = req.specAcceptedTokens + min out.commitLen row.acceptLen
  block : ∀ anchor accepted drafted, RecordsBlock req.customizedInfo out.req.customizedInfo
      req.outputIds.length out.commitLen anchor accepted drafted →
    accepted = (min out.commitLen row.acceptLen : ℕ) ∧
    (accepted < drafted → row.RejectsAt (accepted.toNat + 1)) ∧
    ∀ counts, replayBlockCounts accepted drafted = .ok counts → 0 < counts.firstRejected →
      row.RejectsAt (accepted.toNat + 1)

theorem VerifyRow.rejectsAt_acceptLen {B : ℕ} (row : VerifyRow B) (h : row.acceptLen < B - 1) :
    row.RejectsAt (row.acceptLen + 1) := by
  refine ⟨Nat.succ_pos _, by omega, ?_⟩
  have hmatched : row.matched[row.acceptLen]? = some false := by
    rw [row.acceptLen_eq]
    exact (getElem?_takeWhile_id row.matched).2 (by
      rw [← row.acceptLen_eq, row.length_matched]
      exact h)
  rw [VerifyRow.matched, List.getElem?_zipWith, VerifyRow.drafts, List.getElem?_tail,
    List.getElem?_dropLast, row.length_targetPredict, if_pos h] at hmatched
  intro heq
  rw [Nat.add_sub_cancel] at heq
  rw [heq] at hmatched
  cases hpredict : row.targetPredict[row.acceptLen]? with
  | none =>
    rw [hpredict] at hmatched
    cases hmatched
  | some t =>
    rw [hpredict] at hmatched
    simp at hmatched

theorem lt_of_firstRejected {accepted drafted : ℤ} {counts : ReplayCounts}
    (h : replayBlockCounts accepted drafted = .ok counts) (hpos : 0 < counts.firstRejected) :
    accepted < drafted := by
  unfold replayBlockCounts at h
  simp only at h
  split_ifs at h with h₁ h₂
  · omega
  · rw [← Except.ok.inj h] at hpos
    exact absurd hpos (lt_irrefl _)

theorem of_verifyReq_ok {B : ℕ} {row : VerifyRow B} {req : Req} {out : VerifyOutcome}
    (h : verifyReq row req = .ok out) : ∃ mid,
      commitLoop req 0 row.proposed = (mid, out.commitLen) ∧
      recordVerify row (mid.countVerify (out.commitLen - 1)) out.commitLen =
        .ok out.req.customizedInfo ∧
      out.req.specAcceptedTokens = mid.specAcceptedTokens + (out.commitLen - 1) := by
  unfold verifyReq at h
  cases hloop : commitLoop req 0 row.proposed with
  | mk mid n =>
    rw [hloop] at h
    obtain ⟨newVerifiedId, -, h⟩ := of_bind_ok h
    obtain ⟨info, hinfo, h⟩ := of_bind_ok h
    obtain rfl := Except.ok.inj h
    exact ⟨mid, rfl, of_mapError_ok hinfo, rfl⟩

/-- The records of a step are right when no accepted draft finishes the request, and only
then. -/
theorem replay_record_exact_iff {B : ℕ} (row : VerifyRow B) {req : Req} (ho : req.Open) :
    ∃ out, verifyReq row req = .ok out ∧ (ReplayExact row req out ↔
      ∀ i < row.acceptLen, req.finishesOn (row.drafts.take (i + 1)) = false) := by
  obtain ⟨out, hout, hverified⟩ := verifyReq_spec row ho
  refine ⟨out, hout, ?_⟩
  obtain ⟨mid, hloop, hrecord, hcount⟩ := of_verifyReq_ok hout
  obtain ⟨mid', hcommitted, hloop', -⟩ := hverified.committed
  obtain rfl : mid' = mid := congrArg Prod.fst (hloop'.symm.trans hloop)
  have hpos := hcommitted.pos
  have hle : out.commitLen ≤ row.acceptLen + 1 := hcommitted.le.trans_eq row.length_proposed
  have hlength : (row.drafts.take row.acceptLen).length = row.acceptLen := by
    rw [List.length_take, row.length_drafts]
    exact Nat.min_eq_left row.acceptLen_le
  have hall : out.commitLen = row.acceptLen + 1 ↔
      ∀ i < row.acceptLen, req.finishesOn (row.drafts.take (i + 1)) = false := by
    have hiff := commitLoop_commits_all_iff row.bonus (row.drafts.take row.acceptLen) req 0
    rw [hlength, Nat.zero_add] at hiff
    have hn : (commitLoop req 0 row.proposed).2 = out.commitLen := by rw [hloop]
    rw [← hn, VerifyRow.proposed, hiff]
    refine forall₂_congr fun i hi => ?_
    rw [List.take_take, Nat.min_eq_left (by omega)]
  rw [← hall]
  obtain ⟨o, reason, fl, toF, g, hmid⟩ := hcommitted.same
  constructor
  · intro hexact
    have heq := hverified.acceptLength_eq.symm.trans hexact.acceptLength_eq
    omega
  · intro hcommit
    have hmin : min out.commitLen row.acceptLen = out.commitLen - 1 := by omega
    refine ⟨hverified.acceptLength_eq.trans hmin.symm, ?_, fun anchor accepted drafted hblock => ?_⟩
    · rw [hcount, hmin, hmid]
    · have hci : (mid'.countVerify (out.commitLen - 1)).customizedInfo = req.customizedInfo := by
        rw [hmid]
        rfl
      rw [← hci] at hblock
      obtain ⟨haccepted, hdrafted⟩ := recordsBlock_lengths hpos hcommitted.length_outputIds hrecord
        hblock
      have hmax : draftedLen row.acceptLen out.commitLen (B - 1) = B - 1 := by
        rw [draftedLen, if_pos (by omega)]
      have hreject : accepted < drafted → row.RejectsAt (accepted.toNat + 1) := fun hlt => by
        have hacc : accepted.toNat = row.acceptLen := by omega
        rw [hacc]
        exact row.rejectsAt_acceptLen (by omega)
      exact ⟨by omega, hreject, fun counts hcounts hfirst =>
        hreject (lt_of_firstRejected hcounts hfirst)⟩

/-- A block of two drafts that the target predicts. -/
def twoDraftRow : VerifyRow 3 where
  candidates := [5, 6, 7]
  targetPredict := [6, 7, 8]
  targetLogprob := fun _ _ => ⊥
  block_pos := by decide
  length_candidates := rfl
  length_targetPredict := rfl

/-- A request with one token, that ends with the given one and asks for replay blocks. -/
def stopReq (stop : ℤ) : Req :=
  { Req.new "r" [4] { stopTokenIds := [stop], useReplayDis := true } none [] 100 with
    outputIds := [5] }

theorem stopReq_open (stop : ℤ) : (stopReq stop).Open :=
  ⟨rfl, rfl, by simp [stopReq, Req.new]⟩

/-- Both drafts are accepted and the last one ends the request : one is recorded. -/
theorem replay_record_short : ¬∀ (B : ℕ) (row : VerifyRow B) (req : Req), req.Open →
    ∃ out, verifyReq row req = .ok out ∧ ReplayExact row req out := by
  intro h
  obtain ⟨out, hout, hexact⟩ := h 3 twoDraftRow (stopReq 7) (stopReq_open 7)
  have hlen : (verifyReq twoDraftRow (stopReq 7)).toOption.map (fun out =>
      (out.acceptLength, out.commitLen)) = some (1, 2) := by decide
  rw [hout] at hlen
  have hrecord := hexact.acceptLength_eq
  simp only [Except.toOption, Option.map_some, Option.some.injEq, Prod.mk.injEq] at hlen
  rw [hlen.1, hlen.2] at hrecord
  exact absurd hrecord (by decide)

theorem replay_record_exact_bonus : ∃ out, verifyReq twoDraftRow (stopReq 8) = .ok out ∧
    ReplayExact twoDraftRow (stopReq 8) out := by
  obtain ⟨out, hout, hiff⟩ := replay_record_exact_iff twoDraftRow (stopReq_open 8)
  exact ⟨out, hout, hiff.mpr (by decide)⟩

end DraftOpd
