import Mathlib.Data.Rat.Defs
import Mathlib.Order.WithBot
import DraftOpd.Aligned
import DraftOpd.Dict

/-!
# Per-request customized info

The DFLASH metadata of a rollout travels in a request's `customized_info`, a
dictionary of lists aligned with the response tokens. The scheduler writes it
(`append_dflash_*` of `managers/customized_info_utils.py:91-216`), slices it by
token offset when it emits a request, and the tokenizer manager accumulates the
slices (`update_customized_info_meta`, `customized_info_utils.py:67-88`). The
trainer realigns the reject mask by length (`align_dflash_reject_token_mask`,
`sglang_rollout/utils.py:29-53`).

`customizedInfo` dictionaries are of the type `CustomizedInfo`. The writers take
the dictionary and the number of output tokens of the request they belong to.
Every writer is one `recordAt` per key it writes (`get?_writeKey`).
-/

namespace DraftOpd

/-- A log-probability, `⊥` for `-inf`. -/
abbrev LogProb := WithBot ℚ

/-- The values a metadata list can hold. -/
inductive Value where
  | none
  | bool (b : Bool)
  | int (i : ℤ)
  | float (x : LogProb)
  | str (s : String)
  | list (xs : List Value)

namespace Value

/-- Python's `bool(value)`. -/
def truthy : Value → Bool
  | none => false
  | bool b => b
  | int i => i != 0
  | float x => decide (x ≠ ((0 : ℚ) : LogProb))
  | str s => s != ""
  | list xs => !xs.isEmpty

/-- `_as_list` (`customized_info_utils.py:20-31`). -/
def asList : Value → List Value
  | none => []
  | list xs => xs
  | v => [v]

end Value

/-- The keys of `customized_info`. -/
inductive InfoKey where
  | dflashRejectTokenMask
  | dflashRejectedDraftAnchorIndices
  | dflashRejectedDraftOffsets
  | dflashRejectedDraftTokenIds
  | dflashRejectedDraftTeacherLogprobs
  | dflashReplayBlockAnchorIndices
  | dflashReplayBlockAcceptedLengths
  | dflashReplayBlockDraftedLengths
  | other (name : String)
deriving DecidableEq, Repr

/-- Membership in `DFLASH_REJECTED_DRAFT_META_KEYS` (`customized_info_utils.py:7-17`). -/
def InfoKey.isRejectedDraftMetaKey : InfoKey → Bool
  | dflashRejectedDraftAnchorIndices => true
  | dflashRejectedDraftOffsets => true
  | dflashRejectedDraftTokenIds => true
  | dflashRejectedDraftTeacherLogprobs => true
  | dflashReplayBlockAnchorIndices => true
  | dflashReplayBlockAcceptedLengths => true
  | dflashReplayBlockDraftedLengths => true
  | dflashRejectTokenMask => false
  | other _ => false

/-- Lists aligned with the response tokens, by key. -/
abbrev CustomizedInfo := Dict InfoKey (List Value)

/-! ## The tokenizer manager's side -/

/-- `_flatten_dflash_rejected_draft_chunk` (`customized_info_utils.py:34-41`). -/
def flattenDflashRejectedDraftChunk (chunk : Value) : List Value :=
  chunk.asList.flatMap Value.asList

/-- What a chunk adds to the values accumulated under `key`. -/
def chunkValues (key : InfoKey) (chunk : Value) : List Value :=
  if key.isRejectedDraftMetaKey then flattenDflashRejectedDraftChunk chunk
  else match chunk with
    | .list xs => xs
    | v => [v]

/-- `extend_customized_info_chunk` (`customized_info_utils.py:44-64`). -/
def extendCustomizedInfoChunk (customizedInfo : CustomizedInfo) (key : InfoKey) (chunk : Value) :
    CustomizedInfo :=
  match chunk with
  | .none => customizedInfo
  | chunk => customizedInfo.upsert key fun values => values.getD [] ++ chunkValues key chunk

/-- The exception of a list index out of range. -/
inductive IndexError where
  | outOfRange (index length : ℕ)
deriving DecidableEq, Repr

/-- `value_by_req[recv_index]`. -/
def indexByReq (recvIndex : ℕ) (valueByReq : List Value) : Except IndexError Value :=
  match valueByReq[recvIndex]? with
  | some chunk => .ok chunk
  | none => .error (.outOfRange recvIndex valueByReq.length)

/-- `meta_info[key]` of a streamed chunk. -/
def streamedMeta (key : InfoKey) (chunk : Value) : Value :=
  if key.isRejectedDraftMetaKey then .list (flattenDflashRejectedDraftChunk chunk) else chunk

/-- `update_customized_info_meta` (`customized_info_utils.py:67-88`) : the entries
of `meta_info` under the customized keys, and `state.customized_info`. -/
def updateCustomizedInfoMeta (metaInfo : Dict InfoKey Value) (state : CustomizedInfo)
    (recv : Option (Dict InfoKey (List Value))) (recvIndex : ℕ)
    (useStreamOutput emitAccumulated : Bool) :
    Except IndexError (Dict InfoKey Value × CustomizedInfo) := do
  let columns := (recv.getD .empty).entries
  if useStreamOutput then
    let metaInfo ← Dict.foldReadM (indexByReq recvIndex)
      (fun acc key chunk => acc.upsert key fun _ => streamedMeta key chunk) columns metaInfo
    return (metaInfo, state)
  else
    let state ← Dict.foldReadM (indexByReq recvIndex) extendCustomizedInfoChunk columns state
    if emitAccumulated then
      return (state.entries.foldl (fun acc e => acc.upsert e.1 fun _ => .list e.2) metaInfo, state)
    else
      return (metaInfo, state)

theorem writesOwnKey_extend :
    Dict.WritesOwnKey extendCustomizedInfoChunk fun key chunk old =>
      match chunk with
      | .none => old
      | chunk => some (old.getD [] ++ chunkValues key chunk) := by
  intro acc key chunk key'
  cases chunk with
  | none =>
    simp only [extendCustomizedInfoChunk]
    split_ifs with h
    · rw [h]
    · rfl
  | bool b => exact Dict.get?_upsert _ _ _ _
  | int i => exact Dict.get?_upsert _ _ _ _
  | float x => exact Dict.get?_upsert _ _ _ _
  | str s => exact Dict.get?_upsert _ _ _ _
  | list xs => exact Dict.get?_upsert _ _ _ _

/-! ## The scheduler's side -/

/-- The number of tokens before the committed ones. -/
def prefixLen (outputLen committed : ℕ) (outputIdsAlreadyUpdated : Bool) : ℕ :=
  if outputIdsAlreadyUpdated then outputLen - committed else outputLen

/-- Write one token-aligned entry under `key` : padding up to the prefix, an entry
for each committed token, the last of them `entry`. -/
def writeKey (pad entry : Value) (n committed : ℕ) (customizedInfo : CustomizedInfo)
    (key : InfoKey) : CustomizedInfo :=
  customizedInfo.upsert key fun values => recordAt pad entry n committed (values.getD [])

/-- `append_dflash_reject_token_mask` (`customized_info_utils.py:91-114`). -/
def appendDflashRejectTokenMask (customizedInfo : Option CustomizedInfo) (outputLen committed : ℕ)
    (outputIdsAlreadyUpdated : Bool) : Option CustomizedInfo :=
  if committed = 0 then customizedInfo
  else some (writeKey (.bool false) (.bool true)
    (prefixLen outputLen committed outputIdsAlreadyUpdated) committed
    (customizedInfo.getD .empty) .dflashRejectTokenMask)

/-- The exceptions of the metadata writers. -/
inductive MetadataError where
  | rejectedLengthMismatch (offsets tokenIds teacherLogprobs : ℕ)
  | replayLengthMismatch (acceptedLength draftedLength : ℤ)
deriving DecidableEq, Repr

/-- The four chunks of a rejected suffix, by key. -/
def rejectedChunks (anchorIndex : ℤ) (offsets tokenIds : List ℤ)
    (teacherLogprobs : List LogProb) : List (InfoKey × Value) :=
  [(.dflashRejectedDraftAnchorIndices, .list (offsets.map fun _ => .int anchorIndex)),
    (.dflashRejectedDraftOffsets, .list (offsets.map .int)),
    (.dflashRejectedDraftTokenIds, .list (tokenIds.map .int)),
    (.dflashRejectedDraftTeacherLogprobs, .list (teacherLogprobs.map .float))]

/-- Write a chunk under each of its keys, as both metadata writers do. -/
def writeChunks (chunks : List (InfoKey × Value)) (n committed : ℕ)
    (customizedInfo : CustomizedInfo) : CustomizedInfo :=
  chunks.foldl (fun acc e => writeKey (.list []) e.2 n committed acc e.1) customizedInfo

/-- `append_dflash_rejected_draft_metadata` (`customized_info_utils.py:122-174`). -/
def appendDflashRejectedDraftMetadata (customizedInfo : Option CustomizedInfo)
    (outputLen committed : ℕ) (anchorIndex : ℤ) (offsets tokenIds : List ℤ)
    (teacherLogprobs : List LogProb) (outputIdsAlreadyUpdated : Bool) :
    Except MetadataError (Option CustomizedInfo) :=
  if offsets = [] then .ok customizedInfo
  else if ¬(offsets.length = tokenIds.length ∧ tokenIds.length = teacherLogprobs.length) then
    .error (.rejectedLengthMismatch offsets.length tokenIds.length teacherLogprobs.length)
  else if committed = 0 then .ok customizedInfo
  else .ok (some (writeChunks (rejectedChunks anchorIndex offsets tokenIds teacherLogprobs)
    (prefixLen outputLen committed outputIdsAlreadyUpdated) committed
    (customizedInfo.getD .empty)))

/-- The three chunks of a replay block, by key. -/
def replayChunks (anchorIndex acceptedLength draftedLength : ℤ) : List (InfoKey × Value) :=
  [(.dflashReplayBlockAnchorIndices, .list [.int anchorIndex]),
    (.dflashReplayBlockAcceptedLengths, .list [.int acceptedLength]),
    (.dflashReplayBlockDraftedLengths, .list [.int draftedLength])]

/-- `append_dflash_replay_block_metadata` (`customized_info_utils.py:177-216`). -/
def appendDflashReplayBlockMetadata (customizedInfo : Option CustomizedInfo)
    (outputLen committed : ℕ) (anchorIndex acceptedLength draftedLength : ℤ)
    (outputIdsAlreadyUpdated : Bool) : Except MetadataError (Option CustomizedInfo) :=
  if committed = 0 ∨ draftedLength ≤ 0 then .ok customizedInfo
  else if acceptedLength < 0 ∨ acceptedLength > draftedLength then
    .error (.replayLengthMismatch acceptedLength draftedLength)
  else .ok (some (writeChunks (replayChunks anchorIndex acceptedLength draftedLength)
    (prefixLen outputLen committed outputIdsAlreadyUpdated) committed
    (customizedInfo.getD .empty)))

/-! ## What the writers do to each key -/

/-- The list under a key, empty when there is none. -/
def keyList (info : Option CustomizedInfo) (key : InfoKey) : List Value :=
  ((info.getD .empty).get? key).getD []

theorem get?_writeKey (pad entry : Value) (n committed : ℕ) (ci : CustomizedInfo)
    (key key' : InfoKey) :
    (writeKey pad entry n committed ci key).get? key' =
      if key' = key then some (recordAt pad entry n committed ((ci.get? key).getD []))
      else ci.get? key' :=
  Dict.get?_upsert _ _ _ _

/-- A pass over chunks with distinct keys writes each of their keys once. -/
theorem get?_writeChunks {chunks : List (InfoKey × Value)} (hnd : (chunks.map Prod.fst).Nodup)
    (n committed : ℕ) (ci : CustomizedInfo) (key : InfoKey) :
    (writeChunks chunks n committed ci).get? key =
      (Dict.lookup key chunks).elim (ci.get? key) fun chunk =>
        some (recordAt (.list []) chunk n committed ((ci.get? key).getD [])) := by
  have hstep : Dict.WritesOwnKey (fun acc k v => writeKey (.list []) v n committed acc k)
      fun _ v old => some (recordAt (.list []) v n committed (old.getD [])) :=
    fun acc k v k' => get?_writeKey (.list []) v n committed acc k k'
  exact Dict.get?_foldl hstep chunks ci key hnd

theorem nodup_rejectedChunks (anchorIndex : ℤ) (offsets tokenIds : List ℤ)
    (teacherLogprobs : List LogProb) :
    ((rejectedChunks anchorIndex offsets tokenIds teacherLogprobs).map Prod.fst).Nodup := by
  simp [rejectedChunks]

theorem nodup_replayChunks (anchorIndex acceptedLength draftedLength : ℤ) :
    ((replayChunks anchorIndex acceptedLength draftedLength).map Prod.fst).Nodup := by
  simp [replayChunks]

/-- Both metadata writers leave the reject mask alone. -/
theorem get?_writeChunks_of_not_mem {chunks : List (InfoKey × Value)}
    (hnd : (chunks.map Prod.fst).Nodup) {key : InfoKey} (hkey : key ∉ chunks.map Prod.fst)
    (n committed : ℕ) (ci : CustomizedInfo) :
    (writeChunks chunks n committed ci).get? key = ci.get? key := by
  rw [get?_writeChunks hnd, Dict.lookup_eq_none_iff.mpr hkey, Option.elim_none]

/-! ## The trainer's side -/

/-- `align_dflash_reject_token_mask` (`sglang_rollout/utils.py:29-53`). -/
def alignDflashRejectTokenMask (rawMask : Option (List Value)) (responseLen : ℕ) : List Bool :=
  if responseLen = 0 then []
  else
    let rawValues := (rawMask.getD []).map Value.truthy
    if rawValues.length = responseLen then rawValues.take responseLen
    else padTo false responseLen ((false :: rawValues).take responseLen)

/-- A mask of the response's length is taken as it is. -/
theorem align_of_length_eq {raw : Option (List Value)} {n : ℕ}
    (h : ((raw.getD []).map Value.truthy).length = n) :
    alignDflashRejectTokenMask raw n = (raw.getD []).map Value.truthy := by
  unfold alignDflashRejectTokenMask
  by_cases hn : n = 0
  · rw [if_pos hn]
    exact (List.eq_nil_of_length_eq_zero (h.trans hn)).symm
  · rw [if_neg hn]
    simp only [h, ↓reduceIte]
    exact List.take_of_length_le h.le

/-- A mask one short of the response gets a `false` in front. -/
theorem align_of_length_succ {raw : Option (List Value)} {n : ℕ}
    (h : ((raw.getD []).map Value.truthy).length + 1 = n) :
    alignDflashRejectTokenMask raw n = false :: (raw.getD []).map Value.truthy := by
  unfold alignDflashRejectTokenMask
  rw [if_neg (by omega), if_neg (by omega), List.take_of_length_le (by simp at h ⊢; omega),
    padTo_of_length_ge (by simp at h ⊢; omega)]

/-- A mask longer than the response is shifted by one. -/
theorem align_of_length_gt {raw : Option (List Value)} {n : ℕ}
    (h : n + 1 < ((raw.getD []).map Value.truthy).length) :
    alignDflashRejectTokenMask raw (n + 1) = false :: ((raw.getD []).map Value.truthy).take n := by
  unfold alignDflashRejectTokenMask
  rw [if_neg (by omega), if_neg (by omega), padTo_of_length_ge, List.take_succ_cons]
  rw [List.length_take, List.length_cons]
  omega

/-- Without a mask nothing is flagged. -/
theorem align_of_nil {raw : Option (List Value)} (n : ℕ) (h : raw.getD [] = []) :
    alignDflashRejectTokenMask raw n = List.replicate n false := by
  unfold alignDflashRejectTokenMask
  by_cases hn : n = 0
  · simp [hn]
  · obtain ⟨m, rfl⟩ : ∃ m, n = m + 1 := ⟨n - 1, by omega⟩
    simp [h, padTo, List.replicate_succ]

/-- The realigned mask is the mask of the delivered response when the stream stayed in
step. -/
theorem align_eq_flags {s : SideStream Bool} (h : s.InStep) {raw : Option (List Value)}
    (hraw : (raw.getD []).map Value.truthy = s.got) :
    alignDflashRejectTokenMask raw s.offset = s.flags.take s.offset := by
  have hlen : (s.flags.take s.offset).length = s.offset := by
    rw [List.length_take, SideStream.length_flags h.side_le, Nat.min_eq_left h.offset_le]
  rcases h.got_cases with ⟨hg, hf⟩ | hg | hg
  · rw [align_of_nil s.offset (List.map_eq_nil_iff.mp (hraw.trans hg)), hf]
  · rw [align_of_length_eq (by rw [hraw, hg, hlen]), hraw, hg]
  · have hlen' := congrArg List.length hg
    rw [List.length_cons, hlen] at hlen'
    rw [align_of_length_succ (by rw [hraw, hlen']), hraw, hg]

end DraftOpd
