import DraftOpd.Request

/-!
# Emission of requests and routing of their metadata

`streamOutputGeneration` is `stream_output_generation`
(`managers/scheduler_output_processor_mixin.py:873-1156`) : it walks the requests of a
batch, decides for each whether it is emitted, and appends one entry to each output
list for those that are. The `customized_info` slices go to one column per key, to
which only the requests that carry the key append. The tokenizer manager reads
the columns by the position of the request in the batch
(`_handle_batch_output`, `managers/tokenizer_manager.py:1506-1578`).

The interval rule that decides whether an unfinished request is due is left free :
each request comes with the answer. `get?_streamOutputGeneration` is the content of
each column, `routed_iff_sameKeys` says when the positions in the columns are those of
the requests.
-/

namespace DraftOpd

/-- A request given to `stream_output_generation`. -/
structure StreamItem where
  req : Req
  /-- `req is skip_req`. -/
  skipped : Bool
  /-- `should_output` of an unfinished request. -/
  due : Bool

/-- The columns of `BatchTokenIDOutput` that the rollout reads. -/
structure BatchTokenIDOutput where
  rids : List String
  finishedReasons : List (Option FinishReason)
  outputIds : List (List ℤ)
  customizedInfo : Dict InfoKey (List Value)

/-- The request is emitted. A finished one is emitted once, due or not. -/
def StreamItem.emitted (item : StreamItem) : Bool :=
  !item.skipped && if item.req.finished then !item.req.finishedOutput else item.due

/-- A finished request is marked as sent, with its length when no check set it. -/
def Req.markFinishedOutput (req : Req) : Req :=
  if req.finished then
    { req with
      finishedOutput := true
      finishedLen := some (req.finishedLen.getD req.outputIds.length) }
  else req

/-- `for k, v in req.customized_info.items()` of the emission. -/
def appendColumns (columns : Dict InfoKey (List Value)) (info : Option CustomizedInfo)
    (sendTokenOffset : ℕ) : Dict InfoKey (List Value) :=
  (info.getD .empty).entries.foldl (fun columns e =>
    columns.upsert e.1 fun column => column.getD [] ++ [.list (e.2.drop sendTokenOffset)]) columns

/-- The body of `if should_output`. -/
def emit (out : BatchTokenIDOutput) (req : Req) : Req × BatchTokenIDOutput :=
  let outputIds := req.outputIdsThroughStop
  ({ req with sendTokenOffset := outputIds.length },
    { rids := out.rids ++ [req.rid]
      finishedReasons := out.finishedReasons ++ [req.finishedReason]
      outputIds := out.outputIds ++ [outputIds.drop req.sendTokenOffset]
      customizedInfo := appendColumns out.customizedInfo req.customizedInfo req.sendTokenOffset })

/-- The body of the loop over the requests. -/
def streamItem (out : BatchTokenIDOutput) (item : StreamItem) : Req × BatchTokenIDOutput :=
  if item.emitted then emit out item.req.markFinishedOutput else (item.req, out)

/-- `stream_output_generation` : the requests with their new offsets, and the batch sent
to the detokenizer. -/
def streamOutputGeneration : List StreamItem → BatchTokenIDOutput → List Req × BatchTokenIDOutput
  | [], out => ([], out)
  | item :: items, out =>
    let (req, out) := streamItem out item
    let (reqs, out) := streamOutputGeneration items out
    (req :: reqs, out)

/-- The batch before the first request. -/
def BatchTokenIDOutput.empty : BatchTokenIDOutput := ⟨[], [], [], .empty⟩

/-! ## The columns -/

/-- The requests that are emitted, in order. -/
def emittedReqs (items : List StreamItem) : List Req :=
  (items.filter StreamItem.emitted).map StreamItem.req

theorem emittedReqs_cons_of_pos {item : StreamItem} (h : item.emitted = true)
    (items : List StreamItem) : emittedReqs (item :: items) = item.req :: emittedReqs items := by
  rw [emittedReqs, List.filter_cons_of_pos h]
  rfl

theorem emittedReqs_cons_of_neg {item : StreamItem} (h : ¬item.emitted = true)
    (items : List StreamItem) : emittedReqs (item :: items) = emittedReqs items := by
  rw [emittedReqs, List.filter_cons_of_neg h]
  rfl

/-- The request's own slice `customized_info[key][send_token_offset:]`. -/
def Req.ownSlice (req : Req) (key : InfoKey) : Option Value :=
  (req.customizedInfo.bind fun info => info.get? key).map fun values =>
    .list (values.drop req.sendTokenOffset)

/-- A column with more entries, created by the first of them. -/
def extendColumn (column : Option (List Value)) (slices : List Value) : Option (List Value) :=
  if slices = [] then column else some (column.getD [] ++ slices)

theorem extendColumn_cons (column : Option (List Value)) (x : Value) (xs : List Value) :
    extendColumn (some (column.getD [] ++ [x])) xs = extendColumn column (x :: xs) := by
  unfold extendColumn
  split_ifs with h h' h'
  · simp at h'
  · simp [h]
  · simp at h'
  · simp

theorem get?_appendColumns (columns : Dict InfoKey (List Value)) (req : Req) (key : InfoKey) :
    (appendColumns columns req.customizedInfo req.sendTokenOffset).get? key =
      extendColumn (columns.get? key) (req.ownSlice key).toList := by
  have hfold := Dict.get?_foldl (Dict.writesOwnKey_upsert fun _ (values : List Value) column =>
    column.getD [] ++ [.list (values.drop req.sendTokenOffset)])
    (req.customizedInfo.getD .empty).entries columns key (req.customizedInfo.getD .empty).nodup
  have hlookup : Dict.lookup key (req.customizedInfo.getD .empty).entries =
      req.customizedInfo.bind fun info => info.get? key := by
    cases req.customizedInfo <;> rfl
  unfold appendColumns Req.ownSlice
  rw [hfold, hlookup]
  cases req.customizedInfo.bind fun info => info.get? key <;> rfl

theorem markFinishedOutput_info (req : Req) : req.markFinishedOutput.customizedInfo =
    req.customizedInfo ∧ req.markFinishedOutput.sendTokenOffset = req.sendTokenOffset := by
  unfold Req.markFinishedOutput
  split_ifs <;> exact ⟨rfl, rfl⟩

/-- A column holds the slices of the emitted requests that carry its key, in order. -/
theorem get?_streamOutputGeneration (key : InfoKey) : ∀ (items : List StreamItem)
    (out : BatchTokenIDOutput), (streamOutputGeneration items out).2.customizedInfo.get? key =
      extendColumn (out.customizedInfo.get? key)
        ((emittedReqs items).filterMap fun req => req.ownSlice key)
  | [], out => rfl
  | item :: items, out => by
    rw [streamOutputGeneration, get?_streamOutputGeneration key items, streamItem]
    by_cases he : item.emitted = true
    · obtain ⟨hinfo, hoff⟩ := markFinishedOutput_info item.req
      have hcol : (emit out item.req.markFinishedOutput).2.customizedInfo.get? key =
          extendColumn (out.customizedInfo.get? key) (item.req.ownSlice key).toList := by
        rw [← get?_appendColumns, ← hinfo, ← hoff]
        rfl
      rw [if_pos he, hcol, emittedReqs_cons_of_pos he, List.filterMap_cons]
      cases item.req.ownSlice key with
      | none => rfl
      | some chunk => exact extendColumn_cons _ _ _
    · rw [if_neg he, emittedReqs_cons_of_neg he]

/-! ## The tokenizer manager -/

/-- What `update_customized_info_meta` is to add for a request under `key` : its own slice
of the key, and nothing when it does not carry the key. -/
structure AddsOwnSlice (req : Req) (key : InfoKey) (useStreamOutput emitAccumulated : Bool)
    (metaInfo metaInfo' : Dict InfoKey Value) (state state' : CustomizedInfo) : Prop where
  streamed : useStreamOutput = true → state' = state ∧
    metaInfo'.get? key = (req.ownSlice key).elim (metaInfo.get? key) fun chunk =>
      some (streamedMeta key chunk)
  accumulated : useStreamOutput = false →
    state'.get? key = (req.ownSlice key).elim (state.get? key) fun chunk =>
      some ((state.get? key).getD [] ++ chunkValues key chunk)
  emitted : useStreamOutput = false → metaInfo'.get? key =
    if emitAccumulated then (state'.get? key).elim (metaInfo.get? key) fun values =>
      some (.list values)
    else metaInfo.get? key

/-- Every emitted request gets its own slices, whatever was accumulated before. -/
def Routed (items : List StreamItem) : Prop :=
  ∀ (i : ℕ) (req : Req), (emittedReqs items)[i]? = some req →
    ∀ (metaInfo : Dict InfoKey Value) (state : CustomizedInfo)
      (useStreamOutput emitAccumulated : Bool), ∃ metaInfo' state',
      updateCustomizedInfoMeta metaInfo state
          (some (streamOutputGeneration items .empty).2.customizedInfo) i useStreamOutput
          emitAccumulated = .ok (metaInfo', state') ∧
        ∀ key, AddsOwnSlice req key useStreamOutput emitAccumulated metaInfo metaInfo' state state'

/-- A key carried by one emitted request is carried by all of them. -/
def SameKeys (items : List StreamItem) : Prop :=
  ∀ key, ∀ req ∈ emittedReqs items, ∀ req' ∈ emittedReqs items,
    (req.ownSlice key).isSome → (req'.ownSlice key).isSome

/-- The column under a key of the batch sent for `items`. -/
theorem get?_columns (items : List StreamItem) (key : InfoKey) :
    (streamOutputGeneration items .empty).2.customizedInfo.get? key =
      extendColumn none ((emittedReqs items).filterMap fun req => req.ownSlice key) :=
  get?_streamOutputGeneration key items .empty

/-- With the same keys everywhere a column is indexed by the requests. -/
theorem column_of_sameKeys {items : List StreamItem} (hsame : SameKeys items) {key : InfoKey}
    {column : List Value}
    (hcol : (streamOutputGeneration items .empty).2.customizedInfo.get? key = some column)
    {i : ℕ} {req : Req} (hi : (emittedReqs items)[i]? = some req) :
    ∃ chunk, column[i]? = some chunk ∧ req.ownSlice key = some chunk := by
  rw [get?_columns, extendColumn] at hcol
  split_ifs at hcol with hnil
  obtain rfl := Option.some.inj hcol
  obtain ⟨x, hx⟩ := List.exists_mem_of_ne_nil _ hnil
  obtain ⟨r₀, hr₀, hslice₀⟩ := List.mem_filterMap.mp hx
  have hall : ∀ r ∈ emittedReqs items, (r.ownSlice key).isSome = true := fun r hr =>
    hsame key r₀ hr₀ r hr (by rw [hslice₀]; rfl)
  have hmap : (emittedReqs items).filterMap (fun r => r.ownSlice key) =
      (emittedReqs items).map fun r => (r.ownSlice key).getD .none := by
    rw [← List.filterMap_eq_map]
    refine List.filterMap_congr fun r hr => ?_
    obtain ⟨c, hc⟩ := Option.isSome_iff_exists.mp (hall r hr)
    simp [hc]
  obtain ⟨chunk, hchunk⟩ := Option.isSome_iff_exists.mp (hall req (List.mem_of_getElem? hi))
  refine ⟨chunk, ?_, hchunk⟩
  rw [Option.getD_none, List.nil_append, hmap, List.getElem?_map, hi, Option.map_some, hchunk]
  rfl

/-- With the same keys everywhere a key without a column is carried by no request. -/
theorem ownSlice_of_no_column {items : List StreamItem} {key : InfoKey}
    (hcol : (streamOutputGeneration items .empty).2.customizedInfo.get? key = none)
    {req : Req} (hreq : req ∈ emittedReqs items) : req.ownSlice key = none := by
  rw [get?_columns, extendColumn] at hcol
  split_ifs at hcol with hnil
  rw [List.filterMap_eq_nil_iff] at hnil
  exact hnil req hreq

/-- Copying the accumulated lists into `meta_info`. -/
theorem get?_emitAccumulated (metaInfo : Dict InfoKey Value) (state : CustomizedInfo)
    (key : InfoKey) :
    (state.entries.foldl (fun acc e => acc.upsert e.1 fun _ => .list e.2) metaInfo).get? key =
      (state.get? key).elim (metaInfo.get? key) fun values => some (.list values) :=
  Dict.get?_foldl (Dict.writesOwnKey_upsert fun _ (values : List Value) _ => .list values)
    state.entries metaInfo key state.nodup

/-- When every column has an entry for the request, and these are its own slices, the
update adds them. -/
theorem updateCustomizedInfoMeta_eq_ok {columns : Dict InfoKey (List Value)} {i : ℕ} {req : Req}
    (hread : ∀ key column, columns.get? key = some column →
      ∃ chunk, column[i]? = some chunk ∧ req.ownSlice key = some chunk)
    (hnone : ∀ key, columns.get? key = none → req.ownSlice key = none)
    (metaInfo : Dict InfoKey Value) (state : CustomizedInfo)
    (useStreamOutput emitAccumulated : Bool) :
    ∃ metaInfo' state',
      updateCustomizedInfoMeta metaInfo state (some columns) i useStreamOutput emitAccumulated =
        .ok (metaInfo', state') ∧
      ∀ key, AddsOwnSlice req key useStreamOutput emitAccumulated metaInfo metaInfo' state
        state' := by
  have hok : ∀ e ∈ columns.entries, indexByReq i e.2 = .ok (e.2.getD i .none) := by
    intro e he
    obtain ⟨chunk, hchunk, -⟩ := hread e.1 e.2 (Dict.lookup_of_mem columns.nodup he)
    rw [indexByReq, hchunk, List.getD_eq_getElem?_getD, hchunk]
    rfl
  have hslice : ∀ key column, columns.get? key = some column →
      ∃ values, column.getD i .none = .list values ∧ req.ownSlice key = some (.list values) := by
    intro key column hcol
    obtain ⟨chunk, hchunk, hown⟩ := hread key column hcol
    obtain ⟨values, -, rfl⟩ := Option.map_eq_some_iff.mp hown
    exact ⟨_, by rw [List.getD_eq_getElem?_getD, hchunk]; rfl, hown⟩
  cases useStreamOutput with
  | true =>
    have heq : updateCustomizedInfoMeta metaInfo state (some columns) i true emitAccumulated =
        .ok (columns.entries.foldl (fun acc e => acc.upsert e.1 fun _ =>
          streamedMeta e.1 (e.2.getD i .none)) metaInfo, state) := by
      unfold updateCustomizedInfoMeta
      simp only [Option.getD_some, if_true]
      rw [Dict.foldReadM_eq_ok (fun acc key chunk => acc.upsert key fun _ => streamedMeta key chunk)
        (fun column => column.getD i .none) _ _ hok]
      rfl
    refine ⟨_, state, heq, fun key => ⟨fun _ => ⟨rfl, ?_⟩, Bool.noConfusion, Bool.noConfusion⟩⟩
    rw [Dict.get?_foldl (Dict.writesOwnKey_upsert fun key (column : List Value) _ =>
      streamedMeta key (column.getD i .none)) columns.entries metaInfo key columns.nodup]
    cases hcol : columns.get? key with
    | none => rw [hnone key hcol, ← Dict.get?, hcol]; rfl
    | some column =>
      obtain ⟨values, hval, hown⟩ := hslice key column hcol
      rw [hown, ← Dict.get?, hcol, Option.elim_some, hval, Option.elim_some]
  | false =>
    obtain ⟨state', hstate'⟩ : ∃ state', state' = columns.entries.foldl (fun acc e =>
      extendCustomizedInfoChunk acc e.1 (e.2.getD i .none)) state := ⟨_, rfl⟩
    have hget : ∀ key, state'.get? key = (req.ownSlice key).elim (state.get? key) fun chunk =>
        some ((state.get? key).getD [] ++ chunkValues key chunk) := by
      intro key
      have hstep := writesOwnKey_extend.comp fun column : List Value => column.getD i .none
      rw [hstate', Dict.get?_foldl hstep columns.entries state key columns.nodup]
      cases hcol : columns.get? key with
      | none => rw [hnone key hcol, ← Dict.get?, hcol]; rfl
      | some column =>
        obtain ⟨values, hval, hown⟩ := hslice key column hcol
        rw [hown, ← Dict.get?, hcol, Option.elim_some, hval, Option.elim_some]
    have heq : updateCustomizedInfoMeta metaInfo state (some columns) i false emitAccumulated =
        .ok (if emitAccumulated then
          state'.entries.foldl (fun acc e => acc.upsert e.1 fun _ => .list e.2) metaInfo
        else metaInfo, state') := by
      unfold updateCustomizedInfoMeta
      simp only [Option.getD_some, Bool.false_eq_true, if_false]
      rw [Dict.foldReadM_eq_ok extendCustomizedInfoChunk (fun column => column.getD i .none) _ _
        hok, ← hstate']
      cases emitAccumulated <;> rfl
    refine ⟨_, state', heq, fun key => ⟨Bool.noConfusion, fun _ => hget key, fun _ => ?_⟩⟩
    split_ifs
    · exact get?_emitAccumulated metaInfo state' key
    · rfl

/-- An update that succeeds has read every column. -/
theorem exists_read_of_update_ok {columns : Dict InfoKey (List Value)} {i : ℕ}
    {metaInfo : Dict InfoKey Value} {state : CustomizedInfo} {emitAccumulated : Bool}
    {r : Dict InfoKey Value × CustomizedInfo}
    (h : updateCustomizedInfoMeta metaInfo state (some columns) i false emitAccumulated = .ok r) :
    ∀ e ∈ columns.entries, ∃ chunk, indexByReq i e.2 = .ok chunk := by
  unfold updateCustomizedInfoMeta at h
  simp only [Option.getD_some, Bool.false_eq_true, if_false] at h
  cases hfold : Dict.foldReadM (indexByReq i) extendCustomizedInfoChunk columns.entries state with
  | error x => rw [hfold] at h; cases h
  | ok state' => exact Dict.exists_read_of_foldReadM_ok _ _ hfold

/-- Every emitted request gets its own slices exactly when all of them carry the same
keys : the last of them finds no entry in a column that one of them did not extend. -/
theorem routed_iff_sameKeys (items : List StreamItem) : Routed items ↔ SameKeys items := by
  constructor
  · intro hrouted key req hreq req' hreq' hcarried
    by_contra hnot
    have hnone : req'.ownSlice key = none := by simpa using hnot
    obtain ⟨chunk, hchunk⟩ := Option.isSome_iff_exists.mp hcarried
    have hlt : ((emittedReqs items).filterMap fun r => r.ownSlice key).length <
        (emittedReqs items).length := by
      refine lt_of_le_of_ne (List.length_filterMap_le _ _) fun heq => ?_
      rw [List.length_filterMap_eq_countP, List.countP_eq_length] at heq
      have := heq req' hreq'
      rw [hnone] at this
      cases this
    obtain ⟨last, hlast⟩ :
        ∃ last, (emittedReqs items)[(emittedReqs items).length - 1]? = some last :=
      ⟨_, List.getElem?_eq_getElem (by omega)⟩
    obtain ⟨metaInfo', state', hok, -⟩ := hrouted _ last hlast .empty .empty false false
    have hne : ((emittedReqs items).filterMap fun r => r.ownSlice key) ≠ [] :=
      List.ne_nil_of_mem (List.mem_filterMap.mpr ⟨req, hreq, hchunk⟩)
    have hcol := get?_columns items key
    rw [extendColumn, if_neg hne, Option.getD_none, List.nil_append] at hcol
    obtain ⟨chunk', hread⟩ := exists_read_of_update_ok hok _ (Dict.entry_mem_of_lookup hcol)
    rw [indexByReq, List.getElem?_eq_none (Nat.le_sub_one_of_lt hlt)] at hread
    cases hread
  · intro hsame i req hi metaInfo state useStreamOutput emitAccumulated
    exact updateCustomizedInfoMeta_eq_ok (fun key column hcol => column_of_sameKeys hsame hcol hi)
      (fun key hcol => ownSlice_of_no_column hcol (List.mem_of_getElem? hi)) metaInfo state
      useStreamOutput emitAccumulated

/-- A request without `customized_info` emitted before one with a reject mask gets the
mask of the other. -/
theorem not_routed_without_info :
    ¬Routed [⟨Req.new "a" [1] {} none [] 100, false, true⟩,
      ⟨{ Req.new "b" [1] {} none [] 100 with
        outputIds := [5]
        customizedInfo := some (Dict.empty.set .dflashRejectTokenMask [.bool true]) },
        false, true⟩] := by
  intro h
  obtain ⟨metaInfo', state', hok, hadds⟩ := h 0 _ rfl .empty .empty false false
  have hgot : state'.get? .dflashRejectTokenMask = some [.bool true] := by
    have hstate : _ = state' := congrArg Prod.snd (Except.ok.inj hok)
    rw [← hstate]
    rfl
  have hown := (hadds .dflashRejectTokenMask).accumulated rfl
  rw [hgot] at hown
  cases hown

/-! ## One request and its client -/

/-- What the tokenizer manager keeps of a request : the tokens and lists accumulated so
far, and the customized entries of the last `meta_info`. -/
structure ReqState where
  outputIds : List ℤ
  customizedInfo : CustomizedInfo
  metaInfo : Dict InfoKey Value

/-- The body of `_handle_batch_output` for the request at position `i`, for a client that
does not stream (`tokenizer_manager.py:1516-1600`). -/
def handleBatchOutput (recv : BatchTokenIDOutput) (i : ℕ) (state : ReqState) :
    Except IndexError ReqState := do
  let isFinished := (recv.finishedReasons.getD i none).isSome
  let (metaInfo, customizedInfo) ← updateCustomizedInfoMeta .empty state.customizedInfo
    (some recv.customizedInfo) i false isFinished
  return {
    outputIds := state.outputIds ++ recv.outputIds.getD i []
    customizedInfo := customizedInfo
    metaInfo := metaInfo }

/-- A batch of one request is streamed, and its client handles what was emitted. -/
def streamOne (req : Req) (due : Bool) (state : ReqState) : Except IndexError (Req × ReqState) := do
  let item : StreamItem := ⟨req, false, due⟩
  let (req, recv) := streamItem .empty item
  if item.emitted then
    let state ← handleBatchOutput recv 0 state
    return (req, state)
  else
    return (req, state)

theorem streamOne_of_not_emitted {req : Req} {due : Bool}
    (h : (⟨req, false, due⟩ : StreamItem).emitted = false) (state : ReqState) :
    streamOne req due state = .ok (req, state) := by
  simp [streamOne, streamItem, h, pure, Except.pure]

/-- The request after its emission. -/
def Req.afterEmission (req : Req) : Req :=
  { req.markFinishedOutput with
    sendTokenOffset := req.markFinishedOutput.outputIdsThroughStop.length }

theorem afterEmission_frame (req : Req) : ∃ output len offset, req.afterEmission =
    { req with finishedOutput := output, finishedLen := len, sendTokenOffset := offset } := by
  unfold Req.afterEmission Req.markFinishedOutput
  split_ifs
  · exact ⟨_, _, _, rfl⟩
  · exact ⟨_, _, _, rfl⟩

/-- What an emission adds on the client's side. -/
structure Emitted (req : Req) (state state' : ReqState) : Prop where
  outputIds_eq : state'.outputIds =
    state.outputIds ++ req.markFinishedOutput.outputIdsThroughStop.drop req.sendTokenOffset
  keyList_eq : ∀ key, keyList (some state'.customizedInfo) key =
    keyList (some state.customizedInfo) key ++
      chunkValues key (.list ((keyList req.customizedInfo key).drop req.sendTokenOffset))
  metaInfo_eq : req.finished = true → ∀ key, state'.metaInfo.get? key =
    (state'.customizedInfo.get? key).map .list

theorem chunkValues_nil (key : InfoKey) : chunkValues key (.list []) = [] := by
  unfold chunkValues
  split_ifs <;> rfl

/-- The columns of a batch of one request are its own slices. -/
theorem get?_ownColumns (req : Req) (key : InfoKey) :
    (appendColumns .empty req.customizedInfo req.sendTokenOffset).get? key =
      extendColumn none (req.ownSlice key).toList := by
  rw [get?_appendColumns]
  rfl

theorem exists_read_ownColumns {req : Req} {key : InfoKey} {column : List Value}
    (h : (appendColumns .empty req.customizedInfo req.sendTokenOffset).get? key = some column) :
    ∃ chunk, column[0]? = some chunk ∧ req.ownSlice key = some chunk := by
  rw [get?_ownColumns] at h
  cases hown : req.ownSlice key with
  | none => rw [hown] at h; cases h
  | some chunk =>
    rw [hown] at h
    obtain rfl := Option.some.inj h
    exact ⟨chunk, rfl, rfl⟩

theorem ownSlice_of_ownColumns_none {req : Req} {key : InfoKey}
    (h : (appendColumns .empty req.customizedInfo req.sendTokenOffset).get? key = none) :
    req.ownSlice key = none := by
  rw [get?_ownColumns] at h
  cases hown : req.ownSlice key with
  | none => rfl
  | some chunk => rw [hown] at h; cases h

/-- A list that the own slice of a request was added to has what the request has not sent. -/
theorem keyList_of_ownSlice {req : Req} {key : InfoKey} {info info' : CustomizedInfo}
    (h : info'.get? key = (req.ownSlice key).elim (info.get? key) fun chunk =>
      some ((info.get? key).getD [] ++ chunkValues key chunk)) :
    keyList (some info') key = keyList (some info) key ++
      chunkValues key (.list ((keyList req.customizedInfo key).drop req.sendTokenOffset)) := by
  unfold Req.ownSlice at h
  unfold keyList
  cases hci : req.customizedInfo with
  | none =>
    rw [hci] at h
    simpa [chunkValues_nil] using congrArg (Option.getD · []) h
  | some own =>
    rw [hci, Option.bind_some] at h
    cases hkey : own.get? key with
    | none =>
      rw [hkey] at h
      simpa [chunkValues_nil, hkey] using congrArg (Option.getD · []) h
    | some values =>
      rw [hkey] at h
      simpa [hkey] using congrArg (Option.getD · []) h

/-- A batch of one request gives it its own slices. -/
theorem streamOne_of_emitted {req : Req} {due : Bool}
    (h : (⟨req, false, due⟩ : StreamItem).emitted = true) (state : ReqState) :
    ∃ state', streamOne req due state = .ok (req.afterEmission, state') ∧
      Emitted req state state' := by
  obtain ⟨hinfo, hoff⟩ := markFinishedOutput_info req
  obtain ⟨metaInfo', info', hok, hadds⟩ := updateCustomizedInfoMeta_eq_ok
    (fun _ _ => exists_read_ownColumns) (fun _ => ownSlice_of_ownColumns_none) .empty
    state.customizedInfo false req.finishedReason.isSome
  refine ⟨⟨state.outputIds ++ req.markFinishedOutput.outputIdsThroughStop.drop req.sendTokenOffset,
    info', metaInfo'⟩, ?_, rfl, fun key => ?_, fun hfin key => ?_⟩
  · have hreason : req.markFinishedOutput.finishedReason = req.finishedReason := by
      unfold Req.markFinishedOutput
      split_ifs <;> rfl
    have hemit : (emit .empty req.markFinishedOutput).2.customizedInfo =
        appendColumns .empty req.customizedInfo req.sendTokenOffset := by
      rw [← hinfo, ← hoff]
      rfl
    have hclient : handleBatchOutput (emit .empty req.markFinishedOutput).2 0 state =
        .ok ⟨state.outputIds ++ req.markFinishedOutput.outputIdsThroughStop.drop
          req.sendTokenOffset, info', metaInfo'⟩ := by
      unfold handleBatchOutput
      rw [hemit]
      simp only [emit, BatchTokenIDOutput.empty, List.nil_append, List.getD_cons_zero, hreason,
        hoff]
      rw [hok]
      rfl
    unfold streamOne
    simp only [streamItem, h, if_true]
    rw [hclient]
    rfl
  · exact keyList_of_ownSlice ((hadds key).accumulated rfl)
  · have hemitted := (hadds key).emitted rfl
    rw [Req.finished] at hfin
    rw [if_pos hfin] at hemitted
    rw [hemitted]
    cases info'.get? key <;> rfl

end DraftOpd
