import DraftOpd.PagedKv
import DraftOpd.Ragged

/-!
# The draft input of a batch

`DraftInput` is `DFlashDraftInput` (`speculative/dflash_info.py:59-150`), the draft state a
batch carries between iterations of the v1 worker : the current token of each request, the
target's hidden rows that are not in the draft cache yet, all requests' rows in one flat
list, and the lengths that cut the list. `SpecBatch` is the part of `ScheduleBatch` the
draft input is used with. `filterBatch` and `mergeBatch` are the batch's own and the draft
input's, `appendTargetHidden` is `_append_target_hidden_to_draft_kv`
(`speculative/dflash_worker.py:873-1010`), and `forwardPrefill` and `forwardVerify` are the
parts of `forward_batch_generation` (`dflash_worker.py:1232-1359`) that change the draft
input.

A hidden row is a value of an arbitrary type : the draft model projects row by row.
-/

namespace DraftOpd

/-- What the draft worker can raise over a draft input. -/
inductive DraftError where
  | indexOutOfRange
  | missingTargetHidden
  | ctxLensMismatch (got bs : ℕ)
  | draftSeqLensMismatch (got bs : ℕ)
  | invalidMaxCtx (maxCtx : ℕ)
  | cacheLocMismatch (rows locs : ℕ)
  deriving DecidableEq, Repr

/-- `DFlashDraftInput`. -/
structure DraftInput (α : Type) where
  verifiedId : List ℤ
  targetHidden : Option (List α)
  ctxLens : List ℕ
  draftSeqLens : List ℕ

/-- `ScheduleBatch`, as far as the draft input is concerned ; a request is its id. -/
structure SpecBatch (α : Type) where
  reqs : List ℕ
  reqPoolIndices : List ℕ
  seqLens : List ℕ
  specInfo : DraftInput α

/-- What the worker is configured with. -/
structure DraftWorker where
  blockSize : ℕ
  pageSize : ℕ
  /-- `draft_window_size` ; the draft cache is compact when it is set. -/
  draftWindowSize : Option ℕ

variable {α β : Type}

/-- Indexing a tensor with a tensor of indices. -/
def indexSelect (xs : List β) (indices : List ℕ) : Except DraftError (List β) :=
  match gather xs indices with
  | some ys => .ok ys
  | none => .error .indexOutOfRange

/-- `max`, of lengths. -/
def maxLen (lens : List ℕ) : ℕ := lens.foldr max 0

/-- `pos2d[mask]` with `pos2d = start[:, None] + r` and `mask = r < lens[:, None]`, for
`r = arange(width)`. -/
def maskedPositions (width : ℕ) (starts lens : List ℕ) : List ℕ :=
  (starts.zip lens).flatMap fun seg =>
    ((List.range width).filter (· < seg.2)).map (seg.1 + ·)

namespace DraftInput

/-- The rows at `newIndices` of a flat list cut by `ctxLens`, by one masked gather. -/
def filterRows (ctxLens : List ℕ) (hidden : List α) (newIndices : List ℕ) :
    Except DraftError (List α) := do
  let offsets := 0 :: cumsum 0 ctxLens
  let segStart ← indexSelect offsets.dropLast newIndices
  let segLens ← indexSelect ctxLens newIndices
  if maxLen segLens ≤ 0 then .ok []
  else indexSelect hidden (maskedPositions (maxLen segLens) segStart segLens)

/-- The hidden rows of the requests at `newIndices`. -/
def filterHidden (d : DraftInput α) (newIndices : List ℕ) :
    Except DraftError (Option (List α)) :=
  match d.targetHidden with
  | none => .ok none
  | some [] => .ok (some [])
  | some hidden => do return some (← filterRows d.ctxLens hidden newIndices)

/-- `DFlashDraftInput.filter_batch` (`dflash_info.py:97-133`). -/
def filterBatch (d : DraftInput α) (newIndices : List ℕ) : Except DraftError (DraftInput α) := do
  let verifiedId ← indexSelect d.verifiedId newIndices
  let ctxLens ← indexSelect d.ctxLens newIndices
  let draftSeqLens ← indexSelect d.draftSeqLens newIndices
  let targetHidden ← d.filterHidden newIndices
  return { verifiedId, targetHidden, ctxLens, draftSeqLens }

/-- `DFlashDraftInput.merge_batch` (`dflash_info.py:135-150`). -/
def mergeBatch (d other : DraftInput α) : DraftInput α where
  verifiedId := d.verifiedId ++ other.verifiedId
  ctxLens := d.ctxLens ++ other.ctxLens
  draftSeqLens := d.draftSeqLens ++ other.draftSeqLens
  targetHidden :=
    match d.targetHidden, other.targetHidden with
    | none, hidden => hidden
    | some [], hidden => hidden
    | some hidden, none => some hidden
    | some hidden, some [] => some hidden
    | some hidden, some rest => some (hidden ++ rest)

end DraftInput

namespace SpecBatch

/-- Every tensor of the batch, and its draft input, indexed by `keepIndices`. -/
def filterIndices (b : SpecBatch α) (keepIndices : List ℕ) : Except DraftError (SpecBatch α) := do
  let reqs ← indexSelect b.reqs keepIndices
  let reqPoolIndices ← indexSelect b.reqPoolIndices keepIndices
  let seqLens ← indexSelect b.seqLens keepIndices
  let specInfo ← b.specInfo.filterBatch keepIndices
  return { reqs, reqPoolIndices, seqLens, specInfo }

/-- `ScheduleBatch.filter_batch` (`schedule_batch.py:2054-2133`). -/
def filterBatch (b : SpecBatch α) (keepIndices : List ℕ) : Except DraftError (SpecBatch α) :=
  if keepIndices = [] then .ok { b with reqs := [] }
  else if keepIndices.length = b.reqs.length then .ok b
  else b.filterIndices keepIndices

/-- `ScheduleBatch.merge_batch` (`schedule_batch.py:2135-2186`). -/
def mergeBatch (b other : SpecBatch α) : SpecBatch α where
  reqs := b.reqs ++ other.reqs
  reqPoolIndices := b.reqPoolIndices ++ other.reqPoolIndices
  seqLens := b.seqLens ++ other.seqLens
  specInfo := b.specInfo.mergeBatch other.specInfo

/-- How the scheduler adds the last prefill batch to the running one
(`scheduler.py:2009-2014`). -/
def mergeLast (running last : SpecBatch α) : SpecBatch α :=
  if last.reqs = [] then running
  else if running.reqs = [] then last
  else running.mergeBatch last

end SpecBatch

/-! ## Appending to the draft cache -/

/-- A request of the append : its row of `req_to_token`, its length, its rows. -/
structure CtxRow where
  reqPoolIndex : ℕ
  seqLen : ℕ
  ctxLen : ℕ

/-- The slot and the position of the `r`-th row of a request : `ctx_start + r`. -/
def ctxIndex (reqToToken : ReqToToken) (row : CtxRow) (r : ℕ) : ℕ × ℤ :=
  let position : ℤ := row.seqLen - row.ctxLen + r
  (reqToToken row.reqPoolIndex position.toNat, position)

/-- The fast path for a single request : one index for each hidden row. -/
def fastPath (reqToToken : ReqToToken) (rows : List CtxRow) (totalCtx : ℕ) : List (ℕ × ℤ) :=
  rows.flatMap fun row => (List.range totalCtx).map (ctxIndex reqToToken row)

/-- The general path : a rectangle `maxCtx` wide, masked by the requests' lengths. -/
def generalPath (reqToToken : ReqToToken) (rows : List CtxRow) (maxCtx : ℕ) : List (ℕ × ℤ) :=
  rows.flatMap fun row =>
    ((List.range maxCtx).filter (· < row.ctxLen)).map (ctxIndex reqToToken row)

namespace DraftWorker

/-- `_compute_compact_draft_seq_lens` (`dflash_worker.py:420-436`), for one length. -/
def compactDraftSeqLen (w : DraftWorker) (window seqLen : ℕ) : ℕ :=
  let visibleLen := min seqLen window
  if w.pageSize ≤ 1 then visibleLen
  else
    let visibleStart := seqLen - visibleLen
    let alignedStart := visibleStart - visibleStart % w.pageSize
    seqLen - alignedStart

/-- `_gather_req_to_token_segments` (`dflash_worker.py:387-418`). -/
def gatherSegments (reqToToken : ReqToToken) (segments : List (ℕ × ℕ × ℕ)) : List ℕ :=
  let width := maxLen (segments.map fun seg => seg.2.2)
  segments.flatMap fun seg =>
    ((List.range width).filter (· < seg.2.2)).map fun r => reqToToken seg.1 (seg.2.1 + r)

/-- What an append leaves behind : the draft cache's writes as triples of slot, hidden row
and position, and the draft worker's own `req_to_token`. -/
structure Appended (α : Type) where
  writes : List (ℕ × α × ℤ)
  batch : SpecBatch α
  draftReqToToken : ReqToToken

/-- The lengths visible to the draft worker after an append. -/
def draftSeqLen (w : DraftWorker) (seqLen : ℕ) : ℕ :=
  match w.draftWindowSize with
  | some window => w.compactDraftSeqLen window seqLen
  | none => seqLen

/-- The compact mapping of the draft worker after an append. -/
def compactTable (w : DraftWorker) (reqToToken draftReqToToken : ReqToToken)
    (b : SpecBatch α) : ReqToToken :=
  match w.draftWindowSize with
  | none => draftReqToToken
  | some window =>
    let lens := b.seqLens.map (w.compactDraftSeqLen window)
    let suffixStart := List.zipWith (· - ·) b.seqLens lens
    let suffixCacheLoc := gatherSegments reqToToken (b.reqPoolIndices.zip (suffixStart.zip lens))
    assignReqToTokenPool draftReqToToken
      (b.reqPoolIndices.zip (lens.map fun len => (0, len))) suffixCacheLoc

/-- The slots and positions of the rows to append. -/
def ctxIndices (w : DraftWorker) (reqToToken : ReqToToken) (b : SpecBatch α) (isExtend : Bool)
    (totalCtx : ℕ) : Except DraftError (List (ℕ × ℤ)) :=
  let rows := (b.reqPoolIndices.zip (b.seqLens.zip b.specInfo.ctxLens)).map fun row =>
    { reqPoolIndex := row.1, seqLen := row.2.1, ctxLen := row.2.2 : CtxRow }
  if b.reqs.length = 1 then .ok (fastPath reqToToken rows totalCtx)
  else
    let maxCtx := if isExtend then maxLen b.specInfo.ctxLens else w.blockSize
    if maxCtx ≤ 0 then .error (.invalidMaxCtx maxCtx)
    else .ok (generalPath reqToToken rows maxCtx)

/-- `_append_target_hidden_to_draft_kv` ; `isExtend` is
`batch.forward_mode.is_extend() or batch.is_extend_in_batch`. -/
def appendTargetHidden (w : DraftWorker) (reqToToken draftReqToToken : ReqToToken)
    (isExtend : Bool) (b : SpecBatch α) : Except DraftError (Appended α) :=
  match b.specInfo.targetHidden with
  | none => .error .missingTargetHidden
  | some hidden =>
    let bs := b.reqs.length
    let d := b.specInfo
    if d.ctxLens.length ≠ bs then .error (.ctxLensMismatch d.ctxLens.length bs)
    else if d.draftSeqLens.length ≠ bs then
      .error (.draftSeqLensMismatch d.draftSeqLens.length bs)
    else
      let emptied := { d with ctxLens := d.ctxLens.map fun _ => 0, targetHidden := some [] }
      if hidden.length ≤ 0 then .ok ⟨[], { b with specInfo := emptied }, draftReqToToken⟩
      else do
        let indices ← w.ctxIndices reqToToken b isExtend hidden.length
        if hidden.length ≠ indices.length then
          throw (.cacheLocMismatch hidden.length indices.length)
        return {
          writes := List.zipWith (fun row index => (index.1, row, index.2)) hidden indices
          batch := { b with
            specInfo := { emptied with draftSeqLens := b.seqLens.map w.draftSeqLen } }
          draftReqToToken := w.compactTable reqToToken draftReqToToken b }

/-! ## The worker's forwards -/

/-- A request of a prefill batch. -/
structure PrefillReq where
  rid : ℕ
  reqPoolIndex : ℕ
  /-- `extend_prefix_lens` : what is cached already. -/
  prefixLen : ℕ
  /-- `extend_seq_lens`. -/
  extendLen : ℕ
  nextTokenId : ℤ

/-- The batch of a prefill with its new draft input, before the append
(`dflash_worker.py:1281-1293`) ; `hidden` is what the target captured, one row for each
input token. -/
def prefillBatch (w : DraftWorker) (reqs : List PrefillReq) (hidden : List α) : SpecBatch α where
  reqs := reqs.map (·.rid)
  reqPoolIndices := reqs.map (·.reqPoolIndex)
  seqLens := reqs.map fun req => req.prefixLen + req.extendLen
  specInfo :=
    { verifiedId := reqs.map (·.nextTokenId)
      targetHidden := some hidden
      ctxLens := reqs.map (·.extendLen)
      draftSeqLens :=
        if w.draftWindowSize.isSome then reqs.map fun _ => 0 else reqs.map (·.prefixLen) }

/-- The prefill branch of `forward_batch_generation`. -/
def forwardPrefill (w : DraftWorker) (reqToToken draftReqToToken : ReqToToken)
    (reqs : List PrefillReq) (hidden : List α) : Except DraftError (Appended α) :=
  w.appendTargetHidden reqToToken draftReqToToken true (w.prefillBatch reqs hidden)

/-- What `verify` answers for a request. -/
structure VerifyAnswer where
  newVerifiedId : ℤ
  commitLen : ℕ

/-- `next_target_hidden` of `verify` (`dflash_info.py:533-543`) : of each request's rows of
the verify forward, those of the committed tokens. -/
def nextTargetHidden (w : DraftWorker) (answers : List VerifyAnswer) (hidden : List α) :
    List α :=
  let view := splitLens (List.replicate answers.length w.blockSize) hidden
  ((answers.zip view).map fun p => p.2.take p.1.commitLen).flatten

/-- The batch after a verify, before the append (`dflash_info.py:523-531`,
`dflash_worker.py:1354-1356`). -/
def verifiedBatch (w : DraftWorker) (b : SpecBatch α) (answers : List VerifyAnswer)
    (hidden : List α) : SpecBatch α :=
  { b with
    seqLens := List.zipWith (fun seqLen answer => seqLen + answer.commitLen) b.seqLens answers
    specInfo := { b.specInfo with
      verifiedId := answers.map (·.newVerifiedId)
      targetHidden := some (w.nextTargetHidden answers hidden)
      ctxLens := answers.map (·.commitLen) } }

/-- The decode branch of `forward_batch_generation` : the append before the draft, in decode
mode, and the one after the verify, when the mode is `TARGET_VERIFY`, which `is_extend()`
counts as one. The verify maps the committed tokens in between, so the table is another. -/
def forwardVerify (w : DraftWorker) (reqToToken reqToToken' draftReqToToken : ReqToToken)
    (b : SpecBatch α) (answers : List VerifyAnswer) (hidden : List α) :
    Except DraftError (Appended α × Appended α) := do
  let before ← w.appendTargetHidden reqToToken draftReqToToken false b
  let after ← w.appendTargetHidden reqToToken' before.draftReqToToken true
    (w.verifiedBatch before.batch answers hidden)
  return (before, after)

end DraftWorker

end DraftOpd
