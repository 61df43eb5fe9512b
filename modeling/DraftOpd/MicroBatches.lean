import DraftOpd.Ragged
import DraftOpd.Scatter
import DraftOpd.SeqlenBalancing
import Mathlib.Data.List.MinMax

/-!
# Micro-batches by token count

`rearrange_micro_batches` splits a batch into as many micro-batches as its tokens need and balances
their workloads. The ranks of a data-parallel group agree on the largest number
(`numMicroBatches`), so that their collectives stay in step.

The micro-batches hold every row once, none is empty, and rows of one group stay together
(`rearrangeMicroBatches_spec`). Ranks with equally many rows all get the same number of
micro-batches, or all fail (`dpGroup_rearrange_iff`).

`restore_dynamic_batch` undoes the order of the micro-batches : results computed row by row come
back at their rows, however the batch was split (`forwardBackwardBatch_eq`).
-/

namespace DraftOpd

/-! ## How many -/

/-- The errors of the split and its inverse. -/
inductive MicroBatchError where
  /-- `max()` of no lengths -/
  | emptyMax
  /-- `assert max_token_len >= max_seq_len` -/
  | tokenLenTooSmall (maxTokenLen maxSeqLen : ℕ)
  /-- `assert batch_size % force_group_size == 0` -/
  | groupNotDivisible (batchSize forceGroupSize : ℕ)
  /-- `assert num_micro_batches <= num_groups` -/
  | tooManyMicroBatches (numMicroBatches numGroups : ℕ)
  /-- `assert len(indices) == batch_size` -/
  | indicesMismatch (indices batchSize : ℕ)
  /-- `assert "max_token_len_per_gpu" in data.keys()` -/
  | maxTokenLenMissing
  /-- `KeyError` of `micro_batch_size_per_gpu` -/
  | microBatchSizeMissing
  /-- `assert total_data_size % (force_group_size * micro_batch_size_per_gpu) == 0` -/
  | dataNotDivisible (totalDataSize forceGroupSize microBatchSize : ℕ)
  /-- `assert len(td) % chunks == 0` -/
  | chunksNotDivisible (length chunks : ℕ)
  | zeroDivision
  | indexOutOfRange
  | balance (error : BalanceError)
deriving DecidableEq, Repr

/-- `calculate_workload` (`seqlen_balancing.py:27-46`). -/
def calculateWorkload (seqlen : ℕ) : ℤ := 24576 * seqlen + (seqlen : ℤ) ^ 2

/-- `ceildiv` : `-(a // -b)` (`seqlen_balancing.py:305-324`). -/
def ceildiv (a b : ℤ) : ℤ := -(a.fdiv (-b))

/-- `roundup_divisible` (`seqlen_balancing.py:327-345`). -/
def roundupDivisible (a b : ℕ) : ℕ := (a + b - 1) / b * b

/-- The token counts of a batch : of a nested tensor its offsets tell them, else the mask. -/
inductive InputIds where
  | nested (lengths : List ℕ)
  | padded (width : ℕ) (attentionMask : List (List Bool))

/-- `seq_len_effective`. -/
def InputIds.seqLenEffective : InputIds → List ℕ
  | nested lengths => lengths
  | padded _ attentionMask => attentionMask.map fun row => row.count true

/-- `max_seq_len`. -/
def InputIds.maxSeqLen : InputIds → Except MicroBatchError ℕ
  | nested lengths =>
    match lengths.max? with
    | none => .error .emptyMax
    | some m => .ok m
  | padded width _ => .ok width

/-- The arguments of `rearrange_micro_batches`. -/
structure MicroBatchConfig where
  maxTokenLen : ℕ
  numBatchesDividedBy : Option ℕ := none
  sameMicroNumInDp : Bool := true
  minNumMicroBatch : Option ℕ := none
  useDynamicBszBalance : Bool := true
  forceGroupSize : ℕ := 1

/-- What the rank counts for itself, before the group is asked
(`seqlen_balancing.py:377-404`). -/
def localNumMicroBatches (config : MicroBatchConfig) (input : InputIds) :
    Except MicroBatchError ℕ := do
  let maxSeqLen ← input.maxSeqLen
  if config.maxTokenLen < maxSeqLen then .error (.tokenLenTooSmall config.maxTokenLen maxSeqLen)
  let batchSize := input.seqLenEffective.length
  if config.forceGroupSize = 0 then .error .zeroDivision
  if batchSize % config.forceGroupSize ≠ 0 then
    .error (.groupNotDivisible batchSize config.forceGroupSize)
  if config.maxTokenLen = 0 then .error .zeroDivision
  let numGroups := batchSize / config.forceGroupSize
  let needed := min numGroups (ceildiv input.seqLenEffective.sum config.maxTokenLen).toNat
  .ok (match config.minNumMicroBatch with
    | none => needed
    | some m => max m needed)

/-- `all_reduce(MAX)`, where there is a group and it is asked. -/
def reducedCount (config : MicroBatchConfig) (dpGroup : Option (ℕ → ℕ)) (count : ℕ) : ℕ :=
  match dpGroup with
  | none => count
  | some allReduceMax => if config.sameMicroNumInDp then allReduceMax count else count

/-- `if num_batches_divided_by is not None`. -/
def dividedCount (numBatchesDividedBy : Option ℕ) (count : ℕ) : Except MicroBatchError ℕ :=
  match numBatchesDividedBy with
  | none => .ok count
  | some b => if b = 0 then .error .zeroDivision else .ok (roundupDivisible count b)

/-- `num_micro_batches` (`seqlen_balancing.py:377-414`). -/
def numMicroBatches (config : MicroBatchConfig) (dpGroup : Option (ℕ → ℕ)) (input : InputIds) :
    Except MicroBatchError ℕ := do
  let count ← localNumMicroBatches config input
  let count ← dividedCount config.numBatchesDividedBy (reducedCount config dpGroup count)
  let numGroups := input.seqLenEffective.length / config.forceGroupSize
  if numGroups < count then .error (.tooManyMicroBatches count numGroups) else .ok count

/-! ## Which rows -/

/-- `xs[::step]`. -/
def stepSlice {α : Type*} (step : ℕ) : List α → List α
  | [] => []
  | x :: xs => x :: stepSlice step (xs.drop (step - 1))
termination_by xs => xs.length
decreasing_by
  rw [List.length_drop, List.length_cons]
  omega

/-- `xs[::2][::-1] + xs[1::2]`. -/
def smallerAtEnds {α : Type*} (xs : List α) : List α :=
  (stepSlice 2 xs).reverse ++ stepSlice 2 xs.tail

/-- `list.sort(key, reverse=True)`, which keeps the order of equal keys. -/
def sortDescending {α β : Type*} [LinearOrder β] (key : α → β) (xs : List α) : List α :=
  xs.insertionSort fun a b => key b ≤ key a

/-- `if use_dynamic_bsz_balance` : by descending key, then the smaller ones to both ends. -/
def balanceOrder {α β : Type*} [LinearOrder β] (useDynamicBszBalance : Bool) (key : α → β)
    (xs : List α) : List α :=
  if useDynamicBszBalance then smallerAtEnds (sortDescending key xs) else xs

/-- The samples of a group. -/
def groupSamples (forceGroupSize groupIdx : ℕ) : List ℕ :=
  List.range' (groupIdx * forceGroupSize) forceGroupSize

/-- `group_workloads`. -/
def groupWorkloads (forceGroupSize : ℕ) (seqLens : List ℕ) : List ℤ :=
  (viewBlocks (seqLens.length / forceGroupSize) forceGroupSize
    (seqLens.map calculateWorkload)).map List.sum

/-- The micro-batches as lists of rows (`seqlen_balancing.py:419-458`). -/
def microBszIdx (config : MicroBatchConfig) (seqLens : List ℕ) (count : ℕ) :
    Except BalanceError (List (List ℕ)) :=
  if 1 < config.forceGroupSize then do
    let workloads := groupWorkloads config.forceGroupSize seqLens
    let groups ← getSeqlenBalancedPartitions workloads count false
    let idx := groups.map fun group => group.flatMap (groupSamples config.forceGroupSize)
    .ok (balanceOrder config.useDynamicBszBalance (fun partition =>
      toLex (((stepSlice config.forceGroupSize partition).map fun i =>
        workloads.getD (i / config.forceGroupSize) 0).sum, partition.headD 0)) idx)
  else do
    let workloads := seqLens.map calculateWorkload
    let idx ← getSeqlenBalancedPartitions workloads count false
    .ok (balanceOrder config.useDynamicBszBalance (fun partition =>
      toLex ((partition.map fun i => workloads.getD i 0).sum, partition.headD 0)) idx)

variable {α β : Type}

/-- `index_select_tensor_dict`, on the rows of the batch (`tensordict_utils.py:432-485`). -/
def indexSelectTensorDict (rows : List α) (indices : List ℕ) : Except MicroBatchError (List α) :=
  match gather rows indices with
  | none => .error .indexOutOfRange
  | some selected => .ok selected

/-- `rearrange_micro_batches` (`seqlen_balancing.py:348-468`). -/
def rearrangeMicroBatches (config : MicroBatchConfig) (dpGroup : Option (ℕ → ℕ)) (input : InputIds)
    (rows : List α) : Except MicroBatchError (List (List α) × List (List ℕ)) := do
  let count ← numMicroBatches config dpGroup input
  let idx ← (microBszIdx config input.seqLenEffective count).mapError .balance
  let microBatches ← idx.mapM (indexSelectTensorDict rows)
  .ok (microBatches, idx)

/-! ## The inverse -/

/-- `get_reverse_idx` : `reverse_idx_map[idx] = i` for every entry
(`seqlen_balancing.py:471-486`). -/
def getReverseIdx (idxMap : List ℕ) : Except MicroBatchError (List ℕ) :=
  if ∃ idx ∈ idxMap, idxMap.length ≤ idx then .error .indexOutOfRange
  else .ok (scatter idxMap (idxMap.zipIdx))

/-- `restore_dynamic_batch` (`seqlen_balancing.py:528-551`). -/
def restoreDynamicBatch (data : List β) (batchIdxList : List (List ℕ)) :
    Except MicroBatchError (List β) := do
  let indices := batchIdxList.flatten
  if indices.length ≠ data.length then .error (.indicesMismatch indices.length data.length)
  let revertIndices ← getReverseIdx indices
  indexSelectTensorDict data revertIndices

/-! ## The order of the micro-batches -/

theorem stepSlice_two_perm : ∀ xs : List α, (stepSlice 2 xs ++ stepSlice 2 xs.tail).Perm xs
  | [] => by simp [stepSlice]
  | [x] => by simp [stepSlice]
  | x :: y :: xs => by
    have ih := stepSlice_two_perm xs
    have hfront : stepSlice 2 (x :: y :: xs) = x :: stepSlice 2 xs := by
      rw [stepSlice]
      rfl
    have hback : stepSlice 2 (x :: y :: xs).tail = y :: stepSlice 2 xs.tail := by
      rw [List.tail_cons, stepSlice, List.drop_one]
    rw [hfront, hback, List.cons_append]
    exact (List.perm_middle.trans (ih.cons y)).cons x

theorem smallerAtEnds_perm (xs : List α) : (smallerAtEnds xs).Perm xs :=
  ((List.reverse_perm _).append_right _).trans (stepSlice_two_perm xs)

theorem sortDescending_perm {κ : Type*} [LinearOrder κ] (key : α → κ) (xs : List α) :
    (sortDescending key xs).Perm xs := List.perm_insertionSort _ xs

/-- Balancing changes the order of the micro-batches only. -/
theorem balanceOrder_perm {κ : Type*} [LinearOrder κ] (useDynamicBszBalance : Bool) (key : α → κ)
    (xs : List α) : (balanceOrder useDynamicBszBalance key xs).Perm xs := by
  unfold balanceOrder
  cases useDynamicBszBalance with
  | true => exact (smallerAtEnds_perm _).trans (sortDescending_perm key xs)
  | false => exact .refl _

/-! ## What the micro-batches hold -/

theorem calculateWorkload_nonneg (seqlen : ℕ) : 0 ≤ calculateWorkload seqlen := by
  unfold calculateWorkload
  positivity

theorem groupWorkloads_nonneg (forceGroupSize : ℕ) (seqLens : List ℕ) :
    ∀ w ∈ groupWorkloads forceGroupSize seqLens, 0 ≤ w := by
  unfold groupWorkloads
  intro w hw
  obtain ⟨block, hblock, rfl⟩ := List.mem_map.mp hw
  refine List.sum_nonneg fun v hv => ?_
  obtain ⟨i, -, rfl⟩ := List.mem_map.mp hblock
  obtain ⟨seqlen, -, rfl⟩ := List.mem_map.mp (List.mem_of_mem_drop (List.mem_of_mem_take hv))
  exact calculateWorkload_nonneg seqlen

@[simp] theorem length_groupWorkloads (forceGroupSize : ℕ) (seqLens : List ℕ) :
    (groupWorkloads forceGroupSize seqLens).length = seqLens.length / forceGroupSize := by
  simp [groupWorkloads, viewBlocks]

/-- The samples of the first `n` groups are the first `n * forceGroupSize` samples. -/
theorem flatMap_groupSamples_range (forceGroupSize : ℕ) : ∀ n : ℕ,
    (List.range n).flatMap (groupSamples forceGroupSize) = List.range (n * forceGroupSize)
  | 0 => by simp
  | n + 1 => by
    rw [List.range_succ, List.flatMap_append, flatMap_groupSamples_range forceGroupSize n,
      Nat.succ_mul, List.flatMap_singleton, groupSamples, List.range_eq_range',
      List.range_eq_range']
    have happend := List.range'_append_1 (s := 0) (m := n * forceGroupSize) (n := forceGroupSize)
    rwa [Nat.zero_add] at happend

@[simp] theorem groupSamples_one (i : ℕ) : groupSamples 1 i = [i] := by
  simp [groupSamples]

/-- Splitting the groups splits the samples. -/
theorem IsPartition.flatMap_groupSamples {forceGroupSize n count : ℕ} {groups : List (List ℕ)}
    (hpos : 0 < forceGroupSize) (h : IsPartition n count groups) :
    IsPartition (n * forceGroupSize) count
      (groups.map fun group => group.flatMap (groupSamples forceGroupSize)) := by
  refine ⟨by rw [List.length_map, h.length_eq], ?_, ?_⟩
  · rw [← List.flatMap_def, ← List.flatMap_assoc, List.flatMap_id']
    exact (h.perm.flatMap_right _).trans (by rw [flatMap_groupSamples_range])
  · simp only [List.forall_mem_map]
    intro group hgroup hnil
    obtain ⟨i, hi⟩ := List.exists_mem_of_ne_nil _ (h.ne_nil group hgroup)
    have hempty := List.flatMap_eq_nil_iff.mp hnil i hi
    rw [groupSamples, List.range'_eq_nil_iff] at hempty
    exact absurd hempty hpos.ne'

theorem IsPartition.perm_parts {n count : ℕ} {idx idx' : List (List ℕ)}
    (h : IsPartition n count idx) (hperm : idx'.Perm idx) : IsPartition n count idx' :=
  ⟨by rw [hperm.length_eq, h.length_eq], hperm.flatten.trans h.perm,
    fun p hp => h.ne_nil p (hperm.subset hp)⟩

/-- A micro-batch of whole groups. -/
def WholeGroups (forceGroupSize : ℕ) (partition : List ℕ) : Prop :=
  ∃ groups : List ℕ, partition = groups.flatMap (groupSamples forceGroupSize)

variable {config : MicroBatchConfig} {seqLens : List ℕ} {count : ℕ}

/-- The workloads that are balanced : of the groups, or of the samples. -/
def balancedWorkloads (config : MicroBatchConfig) (seqLens : List ℕ) : List ℤ :=
  if 1 < config.forceGroupSize then groupWorkloads config.forceGroupSize seqLens
  else seqLens.map calculateWorkload

theorem balancedWorkloads_nonneg : ∀ w ∈ balancedWorkloads config seqLens, 0 ≤ w := by
  unfold balancedWorkloads
  split_ifs
  · exact groupWorkloads_nonneg _ _
  · intro w hw
    obtain ⟨seqlen, -, rfl⟩ := List.mem_map.mp hw
    exact calculateWorkload_nonneg seqlen

theorem length_balancedWorkloads (hpos : 0 < config.forceGroupSize) :
    (balancedWorkloads config seqLens).length = seqLens.length / config.forceGroupSize := by
  unfold balancedWorkloads
  split_ifs with hgroup
  · exact length_groupWorkloads _ _
  · rw [List.length_map, show config.forceGroupSize = 1 by omega, Nat.div_one]

/-- Both branches split groups, single samples being groups of one. -/
theorem microBszIdx_eq (hpos : 0 < config.forceGroupSize) (seqLens : List ℕ) (count : ℕ) :
    ∃ order : List (List ℕ) → List (List ℕ), (∀ idx, (order idx).Perm idx) ∧
      microBszIdx config seqLens count
        = getSeqlenBalancedPartitions (balancedWorkloads config seqLens) count false >>=
          fun groups => .ok (order (groups.map fun group =>
            group.flatMap (groupSamples config.forceGroupSize))) := by
  unfold microBszIdx balancedWorkloads
  by_cases hgroup : 1 < config.forceGroupSize
  · rw [if_pos hgroup, if_pos hgroup]
    exact ⟨_, balanceOrder_perm _ _, rfl⟩
  · rw [if_neg hgroup, if_neg hgroup, show config.forceGroupSize = 1 by omega]
    refine ⟨balanceOrder config.useDynamicBszBalance fun partition => toLex ((partition.map fun i =>
      (seqLens.map calculateWorkload).getD i 0).sum, partition.headD 0), balanceOrder_perm _ _, ?_⟩
    simp only [show groupSamples 1 = fun i => [i] from funext groupSamples_one,
      List.flatMap_singleton', List.map_id']

/-- The split returns exactly when every micro-batch can get a group. -/
theorem microBszIdx_eq_ok_iff (hpos : 0 < config.forceGroupSize) :
    (∃ idx, microBszIdx config seqLens count = .ok idx) ↔
      0 < count ∧ count ≤ seqLens.length / config.forceGroupSize := by
  obtain ⟨order, -, heq⟩ := microBszIdx_eq hpos seqLens count
  have hiff := ok_iff_splittable (@balancedWorkloads_nonneg config seqLens) count false
  rw [length_balancedWorkloads hpos] at hiff
  rw [heq]
  constructor
  · rintro ⟨idx, h⟩
    obtain ⟨groups, hgroups, -⟩ := of_bind_ok h
    have hsplit := hiff.mp ⟨groups, hgroups⟩
    exact ⟨hsplit.1, hsplit.2.1⟩
  · rintro ⟨hcount, hle⟩
    obtain ⟨groups, hgroups⟩ := hiff.mpr ⟨hcount, hle, by simp⟩
    rw [hgroups]
    exact ⟨_, rfl⟩

/-- Whole groups, every sample once. -/
theorem microBszIdx_spec (hpos : 0 < config.forceGroupSize)
    (hdvd : seqLens.length % config.forceGroupSize = 0) {idx : List (List ℕ)}
    (h : microBszIdx config seqLens count = .ok idx) :
    IsPartition seqLens.length count idx ∧ ∀ p ∈ idx, WholeGroups config.forceGroupSize p := by
  obtain ⟨order, hperm, heq⟩ := microBszIdx_eq hpos seqLens count
  rw [heq] at h
  obtain ⟨groups, hgroups, h⟩ := of_bind_ok h
  obtain rfl := Except.ok.inj h
  have hpart := isPartition_of_ok balancedWorkloads_nonneg hgroups
  have hsamples := hpart.flatMap_groupSamples hpos
  rw [length_balancedWorkloads hpos, Nat.div_mul_cancel (Nat.dvd_of_mod_eq_zero hdvd)] at hsamples
  refine ⟨hsamples.perm_parts (hperm _), fun p hp => ?_⟩
  obtain ⟨group, -, rfl⟩ := List.mem_map.mp ((hperm _).subset hp)
  exact ⟨group, rfl⟩

/-! ## The split of one rank -/

theorem indexSelectTensorDict_eq_ok {rows : List α} {indices : List ℕ}
    (h : ∀ i ∈ indices, i < rows.length) :
    indexSelectTensorDict rows indices = .ok (indices.filterMap (rows[·]?)) := by
  rw [indexSelectTensorDict, gather_eq_filterMap h]

/-- Selecting all rows, in any order. -/
theorem filterMap_getElem?_perm {rows : List α} {indices : List ℕ}
    (h : indices.Perm (List.range rows.length)) : (indices.filterMap (rows[·]?)).Perm rows := by
  refine (h.filterMap _).trans (.of_eq ?_)
  rw [filterMap_range_take le_rfl, List.take_length]

/-- What a count tells about the checks before it. -/
theorem of_localNumMicroBatches_ok {input : InputIds}
    (h : localNumMicroBatches config input = .ok count) :
    0 < config.forceGroupSize ∧ input.seqLenEffective.length % config.forceGroupSize = 0 ∧
      0 < config.maxTokenLen ∧
      count = (match config.minNumMicroBatch with
        | none => min (input.seqLenEffective.length / config.forceGroupSize)
          (ceildiv input.seqLenEffective.sum config.maxTokenLen).toNat
        | some m => max m (min (input.seqLenEffective.length / config.forceGroupSize)
          (ceildiv input.seqLenEffective.sum config.maxTokenLen).toNat)) := by
  obtain ⟨maxSeqLen, -, h⟩ := of_bind_ok h
  by_cases htoken : config.maxTokenLen < maxSeqLen
  · rw [if_pos htoken] at h; cases h
  by_cases hgroup : config.forceGroupSize = 0
  · rw [if_neg htoken, if_pos hgroup] at h; cases h
  by_cases hdvd : input.seqLenEffective.length % config.forceGroupSize = 0
  swap
  · rw [if_neg htoken, if_neg hgroup, if_pos hdvd] at h; cases h
  by_cases hmax : config.maxTokenLen = 0
  · rw [if_neg htoken, if_neg hgroup, if_neg (not_not.mpr hdvd), if_pos hmax] at h; cases h
  rw [if_neg htoken, if_neg hgroup, if_neg (not_not.mpr hdvd), if_neg hmax] at h
  exact ⟨Nat.pos_of_ne_zero hgroup, hdvd, Nat.pos_of_ne_zero hmax, (Except.ok.inj h).symm⟩

theorem of_numMicroBatches_ok {dpGroup : Option (ℕ → ℕ)} {input : InputIds}
    (h : numMicroBatches config dpGroup input = .ok count) :
    0 < config.forceGroupSize ∧ input.seqLenEffective.length % config.forceGroupSize = 0 ∧
      count ≤ input.seqLenEffective.length / config.forceGroupSize := by
  obtain ⟨localCount, hlocal, h⟩ := of_bind_ok h
  obtain ⟨hpos, hdvd, -⟩ := of_localNumMicroBatches_ok hlocal
  obtain ⟨rounded, -, h⟩ := of_bind_ok h
  dsimp only at h
  split_ifs at h with hmany
  obtain rfl := Except.ok.inj h
  exact ⟨hpos, hdvd, not_lt.mp hmany⟩

variable {dpGroup : Option (ℕ → ℕ)} {input : InputIds} {rows : List α}

/-- The split of a rank, for its count. -/
theorem rearrangeMicroBatches_eq_ok_iff (hrows : rows.length = input.seqLenEffective.length)
    {microBatches : List (List α)} {idx : List (List ℕ)} :
    rearrangeMicroBatches config dpGroup input rows = .ok (microBatches, idx) ↔
      ∃ count, numMicroBatches config dpGroup input = .ok count ∧
        microBszIdx config input.seqLenEffective count = .ok idx ∧
        microBatches = idx.map fun p => p.filterMap (rows[·]?) := by
  have hselect : ∀ count idx, numMicroBatches config dpGroup input = .ok count →
      microBszIdx config input.seqLenEffective count = .ok idx →
      idx.mapM (indexSelectTensorDict rows) = .ok (idx.map fun p => p.filterMap (rows[·]?)) := by
    intro count idx hcount hidx
    obtain ⟨hpos, hdvd, -⟩ := of_numMicroBatches_ok hcount
    have hperm := (microBszIdx_spec hpos hdvd hidx).1.perm
    refine mapM_eq_ok fun p hp => indexSelectTensorDict_eq_ok fun i hi => ?_
    rw [hrows, ← List.mem_range]
    exact hperm.subset (List.mem_flatten_of_mem hp hi)
  constructor
  · intro h
    obtain ⟨count, hcount, h⟩ := of_bind_ok h
    obtain ⟨idx', hidx, h⟩ := of_bind_ok h
    have hidx' := of_mapError_ok hidx
    obtain ⟨selected, hselected, h⟩ := of_bind_ok h
    obtain ⟨rfl, rfl⟩ := Prod.mk.inj (Except.ok.inj h)
    rw [hselect count idx' hcount hidx'] at hselected
    exact ⟨count, hcount, hidx', (Except.ok.inj hselected).symm⟩
  · rintro ⟨count, hcount, hidx, rfl⟩
    unfold rearrangeMicroBatches
    rw [hcount, ok_bind, hidx,
      show Except.mapError MicroBatchError.balance (.ok idx) = .ok idx from rfl, ok_bind,
      hselect count idx hcount hidx, ok_bind]

theorem rearrange_ok_iff (hrows : rows.length = input.seqLenEffective.length) :
    (∃ split, rearrangeMicroBatches config dpGroup input rows = .ok split) ↔
      ∃ count, 0 < count ∧ numMicroBatches config dpGroup input = .ok count := by
  refine ⟨fun ⟨⟨microBatches, idx⟩, h⟩ => ?_, fun ⟨count, hcount, hnum⟩ => ?_⟩
  · obtain ⟨count, hnum, hidx, -⟩ := (rearrangeMicroBatches_eq_ok_iff hrows).mp h
    have hpos := (of_numMicroBatches_ok hnum).1
    exact ⟨count, ((microBszIdx_eq_ok_iff hpos).mp ⟨idx, hidx⟩).1, hnum⟩
  · obtain ⟨hpos, -, hle⟩ := of_numMicroBatches_ok hnum
    obtain ⟨idx, hidx⟩ := (microBszIdx_eq_ok_iff hpos).mpr ⟨hcount, hle⟩
    exact ⟨_, (rearrangeMicroBatches_eq_ok_iff hrows).mpr ⟨count, hnum, hidx, rfl⟩⟩

/-- A split that returned is the rows of a partition. -/
theorem of_rearrange_ok (hrows : rows.length = input.seqLenEffective.length)
    {microBatches : List (List α)} {idx : List (List ℕ)}
    (h : rearrangeMicroBatches config dpGroup input rows = .ok (microBatches, idx)) :
    (∃ count, numMicroBatches config dpGroup input = .ok count ∧
      IsPartition rows.length count idx) ∧
    (∀ p ∈ idx, WholeGroups config.forceGroupSize p) ∧
    microBatches = idx.map fun p => p.filterMap (rows[·]?) := by
  obtain ⟨count, hnum, hidx, rfl⟩ := (rearrangeMicroBatches_eq_ok_iff hrows).mp h
  obtain ⟨hpos, hdvd, -⟩ := of_numMicroBatches_ok hnum
  obtain ⟨hpart, hwhole⟩ := microBszIdx_spec hpos hdvd hidx
  rw [← hrows] at hpart
  exact ⟨⟨count, hnum, hpart⟩, hwhole, rfl⟩

/-- The micro-batches hold every row once, none is empty, and rows of one group stay together. The
split fails exactly where the rank has no count, or counts nothing. -/
theorem rearrangeMicroBatches_spec (config : MicroBatchConfig) (dpGroup : Option (ℕ → ℕ))
    (hrows : rows.length = input.seqLenEffective.length) :
    ((∃ split, rearrangeMicroBatches config dpGroup input rows = .ok split) ↔
      ∃ count, 0 < count ∧ numMicroBatches config dpGroup input = .ok count) ∧
    ∀ microBatches idx,
      rearrangeMicroBatches config dpGroup input rows = .ok (microBatches, idx) →
      (∃ count, numMicroBatches config dpGroup input = .ok count ∧
        IsPartition rows.length count idx) ∧
      (∀ p ∈ idx, WholeGroups config.forceGroupSize p) ∧
      microBatches = idx.map (fun p => p.filterMap (rows[·]?)) ∧
      microBatches.flatten.Perm rows := by
  refine ⟨rearrange_ok_iff hrows, fun microBatches idx h => ?_⟩
  obtain ⟨⟨count, hnum, hpart⟩, hwhole, rfl⟩ := of_rearrange_ok hrows h
  refine ⟨⟨count, hnum, hpart⟩, hwhole, rfl, ?_⟩
  rw [← List.filterMap_flatten]
  exact filterMap_getElem?_perm hpart.perm

/-- Four rows in groups of two, two micro-batches at least. -/
theorem rearrangeMicroBatches_spec_four :
    rearrangeMicroBatches (α := ℕ) ⟨8, none, true, some 2, true, 2⟩ none
        (.nested [3, 1, 4, 2]) [10, 11, 12, 13]
      = .ok ([[12, 13], [10, 11]], [[2, 3], [0, 1]]) ∧
    (∃ count, numMicroBatches ⟨8, none, true, some 2, true, 2⟩ none (.nested [3, 1, 4, 2])
        = .ok count ∧ IsPartition 4 count [[2, 3], [0, 1]]) ∧
      (∀ p ∈ [[2, 3], [0, 1]], WholeGroups 2 p) ∧
      [[12, 13], [10, 11]] = [[2, 3], [0, 1]].map (fun p => p.filterMap ([10, 11, 12, 13][·]?)) ∧
      [[12, 13], [10, 11]].flatten.Perm [10, 11, 12, 13] := by
  have hrows : [10, 11, 12, 13].length = (InputIds.nested [3, 1, 4, 2]).seqLenEffective.length :=
    rfl
  have hok : rearrangeMicroBatches (α := ℕ) ⟨8, none, true, some 2, true, 2⟩ none
      (.nested [3, 1, 4, 2]) [10, 11, 12, 13] = .ok ([[12, 13], [10, 11]], [[2, 3], [0, 1]]) := by
    decide +kernel
  exact ⟨hok, (rearrangeMicroBatches_spec ⟨8, none, true, some 2, true, 2⟩ none hrows).2 _ _ hok⟩

/-! ## The ranks of a group -/

theorem ceildiv_pos {a b : ℤ} (ha : 0 < a) (hb : 0 < b) : 0 < ceildiv a b := by
  unfold ceildiv
  have hneg := Int.neg_fdiv_neg (-a) b
  rw [neg_neg] at hneg
  rw [hneg, Int.fdiv_eq_ediv_of_nonneg _ hb.le]
  have := Int.ediv_neg_of_neg_of_pos (show -a < 0 by omega) hb
  omega

theorem localNumMicroBatches_le {input : InputIds}
    (h : localNumMicroBatches config input = .ok count)
    (hmin : ∀ m ∈ config.minNumMicroBatch,
      m ≤ input.seqLenEffective.length / config.forceGroupSize) :
    count ≤ input.seqLenEffective.length / config.forceGroupSize := by
  obtain ⟨-, -, -, hcount⟩ := of_localNumMicroBatches_ok h
  cases hm : config.minNumMicroBatch with
  | none =>
    rw [hm] at hcount
    rw [hcount]
    exact Nat.min_le_left _ _
  | some m =>
    rw [hm] at hcount
    rw [hcount]
    exact max_le (hmin m hm) (Nat.min_le_left _ _)

/-- A rank with tokens counts a micro-batch. -/
theorem localNumMicroBatches_pos {input : InputIds}
    (h : localNumMicroBatches config input = .ok count) (htokens : 0 < input.seqLenEffective.sum) :
    0 < count := by
  obtain ⟨hpos, hdvd, hmax, hcount⟩ := of_localNumMicroBatches_ok h
  have hgroups : 0 < input.seqLenEffective.length / config.forceGroupSize := by
    refine Nat.div_pos (Nat.le_of_dvd ?_ (Nat.dvd_of_mod_eq_zero hdvd)) hpos
    refine List.length_pos_iff.mpr fun hnil => ?_
    rw [hnil] at htokens
    exact absurd htokens (by simp)
  have hceil : 0 < (ceildiv input.seqLenEffective.sum config.maxTokenLen).toNat := by
    have := ceildiv_pos (a := (input.seqLenEffective.sum : ℤ)) (b := config.maxTokenLen)
      (by exact_mod_cast htokens) (by exact_mod_cast hmax)
    omega
  cases hm : config.minNumMicroBatch with
  | none =>
    rw [hm] at hcount
    rw [hcount]
    exact lt_min hgroups hceil
  | some m =>
    rw [hm] at hcount
    rw [hcount]
    exact lt_max_of_lt_right (lt_min hgroups hceil)

/-- `all_reduce(MAX)` over the counts of the group, on a rank with the given count. -/
def allReduceMax (counts : List ℕ) (count : ℕ) : ℕ := max count (counts.foldr max 0)

theorem allReduceMax_eq {counts : List ℕ} {count : ℕ} (h : count ∈ counts) :
    allReduceMax counts count = counts.foldr max 0 :=
  max_eq_right (List.le_max_of_le h le_rfl)

/-- A split into `n` micro-batches. -/
theorem rearrange_length_iff (hrows : rows.length = input.seqLenEffective.length) (n : ℕ) :
    (∃ microBatches idx, rearrangeMicroBatches config dpGroup input rows = .ok (microBatches, idx) ∧
        microBatches.length = n) ↔
      0 < n ∧ numMicroBatches config dpGroup input = .ok n := by
  have hlength : ∀ {microBatches idx},
      rearrangeMicroBatches config dpGroup input rows = .ok (microBatches, idx) →
        numMicroBatches config dpGroup input = .ok microBatches.length := fun h => by
    obtain ⟨⟨count, hnum, hpart⟩, -, rfl⟩ := of_rearrange_ok hrows h
    rw [List.length_map, hpart.length_eq]
    exact hnum
  constructor
  · rintro ⟨microBatches, idx, h, rfl⟩
    obtain ⟨count, hpos, hnum⟩ := (rearrange_ok_iff hrows).mp ⟨_, h⟩
    obtain rfl := Except.ok.inj (hnum.symm.trans (hlength h))
    exact ⟨hpos, hnum⟩
  · rintro ⟨hpos, hnum⟩
    obtain ⟨⟨microBatches, idx⟩, h⟩ := (rearrange_ok_iff hrows).mpr ⟨n, hpos, hnum⟩
    exact ⟨microBatches, idx, h, Except.ok.inj ((hlength h).symm.trans hnum)⟩

section DpGroup

variable {ranks : List (InputIds × List α)} {counts : List ℕ} {size : ℕ}

theorem exists_count_of_mem
    (hcounts : List.Forall₂ (fun rank count => localNumMicroBatches config rank.1 = .ok count)
      ranks counts) {rank : InputIds × List α} (hrank : rank ∈ ranks) :
    ∃ count ∈ counts, localNumMicroBatches config rank.1 = .ok count := by
  obtain ⟨i, hi, rfl⟩ := List.mem_iff_getElem.mp hrank
  have hi' : i < counts.length := hcounts.length_eq ▸ hi
  exact ⟨_, List.get_mem counts ⟨i, hi'⟩, hcounts.get hi hi'⟩

/-- Every rank reads the same number, and checks it against the same number of groups. -/
theorem numMicroBatches_dpGroup
    (hcounts : List.Forall₂ (fun rank count => localNumMicroBatches config rank.1 = .ok count)
      ranks counts)
    (hsame : config.sameMicroNumInDp = true) {rank : InputIds × List α} (hrank : rank ∈ ranks)
    (hlength : rank.1.seqLenEffective.length = size) (n : ℕ) :
    numMicroBatches config (some (allReduceMax counts)) rank.1 = .ok n ↔
      dividedCount config.numBatchesDividedBy (counts.foldr max 0) = .ok n ∧
        n ≤ size / config.forceGroupSize := by
  obtain ⟨count, hmem, hlocal⟩ := exists_count_of_mem hcounts hrank
  unfold numMicroBatches
  rw [hlocal, ok_bind, reducedCount, if_pos hsame, allReduceMax_eq hmem, hlength]
  cases hdivided : dividedCount config.numBatchesDividedBy (counts.foldr max 0) with
  | error e =>
    refine iff_of_false (fun h => ?_) (fun h => ?_)
    · cases h
    · cases h.1
  | ok rounded =>
    rw [ok_bind]
    by_cases hmany : size / config.forceGroupSize < rounded
    · rw [if_pos hmany]
      refine iff_of_false (fun h => ?_) (fun h => ?_)
      · cases h
      · obtain rfl := Except.ok.inj h.1
        exact absurd h.2 (not_le.mpr hmany)
    · rw [if_neg hmany]
      refine ⟨fun h => ⟨h, ?_⟩, And.left⟩
      obtain rfl := Except.ok.inj h
      exact not_lt.mp hmany

/-- Ranks with equally many rows agree, where each passes the checks before the group is asked :
the number of micro-batches, rounded up to a multiple, is one that every rank can split into or that
none can. Without a divisor it is one they can, when one of them has a token. -/
theorem dpGroup_rearrange_iff
    (hcounts : List.Forall₂ (fun rank count => localNumMicroBatches config rank.1 = .ok count)
      ranks counts)
    (hsize : ∀ rank ∈ ranks, rank.1.seqLenEffective.length = size ∧ rank.2.length = size)
    (hsame : config.sameMicroNumInDp = true) :
    (∀ rank ∈ ranks, ∀ n,
      (∃ microBatches idx, rearrangeMicroBatches config (some (allReduceMax counts)) rank.1 rank.2
        = .ok (microBatches, idx) ∧ microBatches.length = n) ↔
      0 < n ∧ n ≤ size / config.forceGroupSize ∧
        dividedCount config.numBatchesDividedBy (counts.foldr max 0) = .ok n) ∧
    (config.numBatchesDividedBy = none →
      (∀ m ∈ config.minNumMicroBatch, m ≤ size / config.forceGroupSize) →
      (∃ rank ∈ ranks, 0 < rank.1.seqLenEffective.sum) → ∀ rank ∈ ranks, ∃ microBatches idx,
        rearrangeMicroBatches config (some (allReduceMax counts)) rank.1 rank.2
          = .ok (microBatches, idx) ∧ microBatches.length = counts.foldr max 0) := by
  have hiff : ∀ rank ∈ ranks, ∀ n,
      (∃ microBatches idx, rearrangeMicroBatches config (some (allReduceMax counts)) rank.1 rank.2
        = .ok (microBatches, idx) ∧ microBatches.length = n) ↔
      0 < n ∧ n ≤ size / config.forceGroupSize ∧
        dividedCount config.numBatchesDividedBy (counts.foldr max 0) = .ok n := by
    intro rank hrank n
    obtain ⟨hlength, hrows⟩ := hsize rank hrank
    rw [rearrange_length_iff (hrows.trans hlength.symm),
      numMicroBatches_dpGroup hcounts hsame hrank hlength]
    tauto
  refine ⟨hiff, fun hdivided hmin ⟨heavy, hheavy, htokens⟩ rank hrank => ?_⟩
  refine (hiff rank hrank _).mpr ⟨?_, ?_, by rw [hdivided, dividedCount]⟩
  · obtain ⟨count, hcount, hlocal⟩ := exists_count_of_mem hcounts hheavy
    exact (localNumMicroBatches_pos hlocal htokens).trans_le (List.le_max_of_le hcount le_rfl)
  · refine List.max_le_of_forall_le counts _ fun count hmem => ?_
    obtain ⟨i, hi, rfl⟩ := List.mem_iff_getElem.mp hmem
    have hi' : i < ranks.length := hcounts.length_eq ▸ hi
    have hlength := (hsize _ (List.get_mem ranks ⟨i, hi'⟩)).1
    rw [← hlength] at hmin ⊢
    exact localNumMicroBatches_le (hcounts.get hi' hi) hmin

end DpGroup

/-- One rank needs two micro-batches, the other only one. With a divisor of two and three rows each,
three micro-batches become four, and both ranks fail. -/
theorem dpGroup_rearrange_iff_two :
    (∀ rank ∈ [(InputIds.nested [4, 4], [10, 11]), (InputIds.nested [1, 1], [12, 13])],
      ∃ microBatches idx,
        rearrangeMicroBatches ⟨4, none, true, none, true, 1⟩ (some (allReduceMax [2, 1])) rank.1
          rank.2 = .ok (microBatches, idx) ∧ microBatches.length = 2) ∧
    ∀ rank ∈ [(InputIds.nested [4, 4, 4], [10, 11, 12]), (InputIds.nested [1, 1, 1], [13, 14, 15])],
      ∀ n, ¬∃ microBatches idx,
        rearrangeMicroBatches ⟨4, some 2, true, none, true, 1⟩ (some (allReduceMax [3, 1])) rank.1
          rank.2 = .ok (microBatches, idx) ∧ microBatches.length = n := by
  refine ⟨?_, fun rank hrank n h => ?_⟩
  · exact (@dpGroup_rearrange_iff ℕ ⟨4, none, true, none, true, 1⟩ _ _ 2
      (.cons rfl (.cons rfl .nil)) (by decide) rfl).2 rfl (by decide) (by decide)
  · obtain ⟨-, hle, hdivided⟩ := ((@dpGroup_rearrange_iff ℕ ⟨4, some 2, true, none, true, 1⟩ _ _ 3
      (.cons rfl (.cons rfl .nil)) (by decide) rfl).1 rank hrank n).mp h
    obtain rfl := Except.ok.inj hdivided
    exact absurd hle (by decide)

/-! ## Restoring the order of the rows -/

/-- The inverse of a list of all indices tells where each of them is. -/
theorem getReverseIdx_eq_ok {indices : List ℕ} {n : ℕ} (h : indices.Perm (List.range n)) :
    getReverseIdx indices = .ok ((List.range n).map fun j => indices.idxOf j) := by
  have hlength : indices.length = n := by rw [h.length_eq, List.length_range]
  have hmem : ∀ j, j ∈ indices ↔ j < n := fun j => by rw [h.mem_iff, List.mem_range]
  have hnodup : (indices.zipIdx.map Prod.fst).Nodup := by
    rw [List.zipIdx_map_fst]
    exact h.nodup_iff.mpr List.nodup_range
  unfold getReverseIdx
  rw [if_neg]
  swap
  · rintro ⟨j, hj, hle⟩
    have := (hmem j).mp hj
    omega
  refine congrArg Except.ok (List.ext_getElem? fun j => ?_)
  by_cases hj : j < n
  · have hwrite : (j, indices.idxOf j) ∈ indices.zipIdx :=
      List.mem_zipIdx_iff_getElem?.mpr (List.getElem?_idxOf ((hmem j).mpr hj))
    rw [getElem?_scatter_of_mem hnodup hwrite (by omega), List.getElem?_map,
      List.getElem?_range hj]
    rfl
  · rw [List.getElem?_eq_none (by rw [length_scatter]; omega),
      List.getElem?_eq_none (by simpa using hj)]

/-- Results in the order of the micro-batches come back in the order of the rows. -/
theorem restoreDynamicBatch_eq_ok {idx : List (List ℕ)} {n : ℕ}
    (h : idx.flatten.Perm (List.range n)) (result : ℕ → β) :
    restoreDynamicBatch (idx.flatten.map result) idx = .ok ((List.range n).map result) := by
  have hmem : ∀ j ∈ List.range n, j ∈ idx.flatten := fun j hj => h.mem_iff.mpr hj
  unfold restoreDynamicBatch
  dsimp only
  rw [if_neg (by rw [List.length_map, not_not]), getReverseIdx_eq_ok h, ok_bind,
    indexSelectTensorDict,
    gather_map result idx.flatten (by
      intro i hi
      obtain ⟨j, hj, rfl⟩ := List.mem_map.mp hi
      exact List.idxOf_lt_length_iff.mpr (hmem j hj))]
  refine congrArg (fun xs : List ℕ => Except.ok (xs.map result)) ?_
  rw [List.filterMap_map]
  refine (List.filterMap_congr fun j hj => ?_).trans List.filterMap_some
  exact List.getElem?_idxOf (hmem j hj)

/-! ## The engine -/

/-- The batch of an engine, with the settings that come with it. -/
structure EngineBatch (α : Type) where
  rows : List α
  input : InputIds
  length_input : input.seqLenEffective.length = rows.length
  useDynamicBsz : Bool := true
  spSize : ℕ := 1
  forceGroupSize : ℕ := 1
  maxTokenLenPerGpu : Option ℕ := none
  microBatchSizePerGpu : Option ℕ := none

/-- `chunk_tensordict`, on the rows (`tensordict_utils.py:279-348`). -/
def chunkTensordict (rows : List α) (n : ℕ) : Except MicroBatchError (List (List α)) :=
  if n = 0 then .error .zeroDivision
  else if rows.length % n ≠ 0 then .error (.chunksNotDivisible rows.length n)
  else .ok (viewBlocks n (rows.length / n) rows)

/-- `prepare_micro_batches` (`engine/utils.py:58-96`) : by token count, or of a fixed size. The
settings other than those of the batch are in `config`. -/
def prepareMicroBatches (config : MicroBatchConfig) (dpGroup : Option (ℕ → ℕ))
    (data : EngineBatch α) :
    Except MicroBatchError (List (List α) × Option (List (List ℕ))) :=
  if data.useDynamicBsz then
    match data.maxTokenLenPerGpu with
    | none => .error .maxTokenLenMissing
    | some maxTokenLenPerGpu => do
      let config := { config with
        maxTokenLen := maxTokenLenPerGpu * data.spSize, forceGroupSize := data.forceGroupSize }
      let split ← rearrangeMicroBatches config dpGroup data.input data.rows
      .ok (split.1, some split.2)
  else
    match data.microBatchSizePerGpu with
    | none => .error .microBatchSizeMissing
    | some size => do
      let total := data.rows.length
      if data.forceGroupSize * size = 0 then .error .zeroDivision
      if total % (data.forceGroupSize * size) ≠ 0 then
        .error (.dataNotDivisible total data.forceGroupSize size)
      let microBatches ← chunkTensordict data.rows (total / (size * data.forceGroupSize))
      .ok (microBatches, none)

/-- `postprocess_batch_func`, for one key of the model output (`engine/utils.py:99-159`). -/
def postprocessBatchFunc (outputs : List (List β)) (indices : Option (List (List ℕ))) :
    Except MicroBatchError (List β) :=
  match indices with
  | none => .ok outputs.flatten
  | some batchIdxList => restoreDynamicBatch outputs.flatten batchIdxList

/-- `forward_backward_batch` (`fsdp/transformer_impl.py:678-711`), for one key of the model
output. -/
def forwardBackwardBatch (config : MicroBatchConfig) (dpGroup : Option (ℕ → ℕ))
    (forwardStep : List α → List β) (data : EngineBatch α) : Except MicroBatchError (List β) := do
  let split ← prepareMicroBatches config dpGroup data
  postprocessBatchFunc (split.1.map forwardStep) split.2

theorem flatten_chunkTensordict {n : ℕ} {parts : List (List α)}
    (h : chunkTensordict rows n = .ok parts) : parts.flatten = rows := by
  unfold chunkTensordict at h
  split_ifs at h with hzero hdvd
  obtain rfl := Except.ok.inj h
  exact flatten_viewBlocks (Nat.mul_div_cancel' (Nat.dvd_of_mod_eq_zero (not_not.mp hdvd)))

theorem filterMap_getElem?_eq_map {rows : List α} {indices : List ℕ}
    (h : ∀ i ∈ indices, i < rows.length) (d : α) :
    indices.filterMap (rows[·]?) = indices.map fun i => rows.getD i d := by
  rw [← List.filterMap_eq_map]
  refine List.filterMap_congr fun i hi => ?_
  rw [Function.comp_apply, List.getD_eq_getElem _ _ (h i hi), List.getElem?_eq_getElem (h i hi)]

/-- The rows of the micro-batches, mapped and put back. -/
theorem restoreDynamicBatch_selected {rows : List α} {idx : List (List ℕ)}
    (h : idx.flatten.Perm (List.range rows.length)) (f : α → β) :
    restoreDynamicBatch ((idx.flatten.filterMap (rows[·]?)).map f) idx = .ok (rows.map f) := by
  have hmem : ∀ i ∈ idx.flatten, i < rows.length := fun i hi => List.mem_range.mp (h.subset hi)
  cases hrows : rows with
  | nil =>
    rw [hrows] at h
    have hflat : idx.flatten = [] := h.eq_nil
    simp only [restoreDynamicBatch, hflat]
    rfl
  | cons d rest =>
    rw [← hrows, filterMap_getElem?_eq_map hmem d, List.map_map,
      restoreDynamicBatch_eq_ok h, ← map_range_getD rows d f]
    rfl

/-- What is prepared is put back : a model that works row by row gives each row its result. -/
theorem postprocess_prepared {data : EngineBatch α}
    {split : List (List α) × Option (List (List ℕ))}
    (h : prepareMicroBatches config dpGroup data = .ok split) (f : α → β) :
    postprocessBatchFunc (split.1.map fun microBatch => microBatch.map f) split.2
      = .ok (data.rows.map f) := by
  unfold prepareMicroBatches at h
  by_cases hdynamic : data.useDynamicBsz = true
  · rw [if_pos hdynamic] at h
    cases hlen : data.maxTokenLenPerGpu with
    | none => rw [hlen] at h; cases h
    | some maxTokenLenPerGpu =>
      rw [hlen] at h
      obtain ⟨⟨microBatches, idx⟩, hsplit, h⟩ := of_bind_ok h
      obtain rfl := Except.ok.inj h
      obtain ⟨⟨_, -, hpart⟩, -, rfl⟩ := of_rearrange_ok data.length_input.symm hsplit
      dsimp only [postprocessBatchFunc]
      rw [← List.map_flatten, ← List.filterMap_flatten]
      exact restoreDynamicBatch_selected hpart.perm f
  · rw [if_neg hdynamic] at h
    cases hsize : data.microBatchSizePerGpu with
    | none => rw [hsize] at h; cases h
    | some size =>
      rw [hsize] at h
      dsimp only at h
      by_cases hzero : data.forceGroupSize * size = 0
      · rw [if_pos hzero] at h; cases h
      by_cases hdvd : data.rows.length % (data.forceGroupSize * size) = 0
      swap
      · rw [if_neg hzero, if_pos hdvd] at h; cases h
      rw [if_neg hzero, if_neg (not_not.mpr hdvd)] at h
      obtain ⟨microBatches, hchunks, h⟩ := of_bind_ok h
      obtain rfl := Except.ok.inj h
      dsimp only [postprocessBatchFunc]
      rw [← List.map_flatten, flatten_chunkTensordict hchunks]

/-- A model that works row by row gives each row its result, however the batch was split : by token
count or by size, with or without a group, balanced or not. -/
theorem forwardBackwardBatch_eq (config : MicroBatchConfig) (dpGroup : Option (ℕ → ℕ))
    (data : EngineBatch α) (f : α → β) :
    forwardBackwardBatch config dpGroup (fun microBatch => microBatch.map f) data
      = (prepareMicroBatches config dpGroup data).map fun _ => data.rows.map f := by
  unfold forwardBackwardBatch
  cases hsplit : prepareMicroBatches config dpGroup data with
  | error e => rfl
  | ok split => exact postprocess_prepared hsplit f

/-- Four rows by token count, in groups of two, and one row at a time. -/
def fourRows (useDynamicBsz : Bool) : EngineBatch ℕ where
  rows := [10, 11, 12, 13]
  input := .nested [3, 1, 4, 2]
  length_input := rfl
  useDynamicBsz := useDynamicBsz
  forceGroupSize := if useDynamicBsz then 2 else 1
  maxTokenLenPerGpu := some 8
  microBatchSizePerGpu := some 1

example : prepareMicroBatches { maxTokenLen := 0 } none (fourRows true)
    = .ok ([[12, 13], [10, 11]], some [[2, 3], [0, 1]]) ∧
    forwardBackwardBatch { maxTokenLen := 0 } none (fun rows => rows.map (· + 1)) (fourRows true)
      = .ok [11, 12, 13, 14] := by decide +kernel

example : prepareMicroBatches { maxTokenLen := 0 } none (fourRows false)
    = .ok ([[10], [11], [12], [13]], none) ∧
    forwardBackwardBatch { maxTokenLen := 0 } none (fun rows => rows.map (· + 1)) (fourRows false)
      = .ok [11, 12, 13, 14] := by decide +kernel

end DraftOpd
