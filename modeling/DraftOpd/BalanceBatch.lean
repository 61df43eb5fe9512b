import DraftOpd.Dispatch
import Mathlib.Data.List.Pairwise

/-!
# Balancing a batch over the data-parallel ranks

`_balance_batch` reorders the rows of a batch so that the equal chunks that the dispatch cuts are
parts of similar workload. Every row is in one part, but for those past the last full mini-batch
where mini-batches are kept apart, and rank `r` gets the rows of part `r` exactly when the parts are
equally long (`balanceBatch_dispatch`).

With a prefix grouper the parts are of whole groups : rows of one uid that follow one another stay
on one rank (`getGroupBalancedPartitions_spec`). Such parts are equally long when the groups are.
-/

namespace DraftOpd

/-! ## Groups of one uid -/

variable {υ : Type*}

/-- The loop over the samples : the finished groups, and the uid, indices and length of the group
that is open. -/
structure UidScan (υ : Type*) where
  groups : List (List ℕ × ℕ) := []
  currentUid : Option υ := none
  currentIndices : List ℕ := []
  currentSeqlen : ℕ := 0

/-- `if current_indices: groups.append(...)`. -/
def UidScan.closed (s : UidScan υ) : List (List ℕ × ℕ) :=
  if s.currentIndices ≠ [] then s.groups ++ [(s.currentIndices, s.currentSeqlen)] else s.groups

/-- One sample of the loop. -/
def UidScan.step [DecidableEq υ] (s : UidScan υ) (sample : (ℕ × υ) × ℕ) : UidScan υ :=
  let ((seqlen, uid), i) := sample
  if some uid ≠ s.currentUid then
    { groups := s.closed, currentUid := some uid, currentIndices := [i], currentSeqlen := seqlen }
  else
    { s with
      currentIndices := s.currentIndices ++ [i]
      currentSeqlen := s.currentSeqlen + seqlen }

/-- `groups` (`seqlen_balancing.py:574-596`). -/
def uidGroups [DecidableEq υ] (seqlens : List ℕ) (uids : List υ) : List (List ℕ × ℕ) :=
  ((seqlens.zip uids).zipIdx.foldl UidScan.step {}).closed

/-- The errors of `get_group_balanced_partitions`. -/
inductive GroupError where
  /-- `assert len(seqlen_list) == len(uid_list)` -/
  | lengthMismatch (seqlens uids : ℕ)
  /-- `assert num_groups >= k_partitions` -/
  | tooFewGroups (numGroups k : ℕ)
  | balance (error : BalanceError)
deriving DecidableEq, Repr

/-- `get_group_balanced_partitions` (`seqlen_balancing.py:554-626`). -/
def getGroupBalancedPartitions [DecidableEq υ] (seqlens : List ℕ) (uids : List υ) (k : ℕ) :
    Except GroupError (List (List ℕ)) := do
  if seqlens.length ≠ uids.length then .error (.lengthMismatch seqlens.length uids.length)
  let groups := uidGroups seqlens uids
  if groups.length < k then .error (.tooFewGroups groups.length k)
  let groupWorkloads := groups.map fun group =>
    (group.1.map fun i => calculateWorkload (seqlens.getD i 0)).sum
  let groupPartitions ← (getSeqlenBalancedPartitions groupWorkloads k true).mapError .balance
  .ok (groupPartitions.map fun groupPartition =>
    (groupPartition.flatMap fun groupIdx => (groups.map Prod.fst).getD groupIdx []).insertionSort
      (· ≤ ·))

section Scan

variable {seqlens : List ℕ} {uids : List υ}

/-- What the scan holds after `n` samples : groups of the first `n` indices, in which neighbours of
one uid are together. -/
structure ScanInv (uids : List υ) (n : ℕ) (s : UidScan υ) : Prop where
  flatten : (s.closed.map Prod.fst).flatten = List.range n
  ne_nil : ∀ group ∈ s.closed.map Prod.fst, group ≠ []
  adjacent : ∀ m, m + 1 < n → uids[m]? = uids[m + 1]? →
    ∃ group ∈ s.closed.map Prod.fst, m ∈ group ∧ m + 1 ∈ group
  current_none : s.currentIndices = [] → n = 0 ∧ s.currentUid = none
  current_some : s.currentIndices ≠ [] → ∃ m, n = m + 1 ∧ m ∈ s.currentIndices ∧
    s.currentUid = uids[m]?

theorem ScanInv.init (uids : List υ) : ScanInv uids 0 {} where
  flatten := rfl
  ne_nil := by simp [UidScan.closed]
  adjacent := by simp
  current_none := fun _ => ⟨rfl, rfl⟩
  current_some := by simp

/-- A sample of another uid opens a group : only the sample before it could have been its
neighbour. -/
theorem ScanInv.open_group {n seqlen : ℕ} {uid : υ} {s : UidScan υ} (h : ScanInv uids n s)
    (huid : uids[n]? = some uid) (hnew : some uid ≠ s.currentUid) :
    ScanInv uids (n + 1) ⟨s.closed, some uid, [n], seqlen⟩ := by
  have hclosed : (UidScan.closed (υ := υ) ⟨s.closed, some uid, [n], seqlen⟩).map Prod.fst
      = s.closed.map Prod.fst ++ [[n]] := by
    simp [UidScan.closed]
  constructor
  · rw [hclosed, List.flatten_append, h.flatten, List.range_succ]
    rfl
  · rw [hclosed]
    intro group hgroup
    rcases List.mem_append.mp hgroup with hgroup | hgroup
    · exact h.ne_nil group hgroup
    · rw [List.mem_singleton.mp hgroup]
      exact List.cons_ne_nil _ _
  · rw [hclosed]
    intro m hm heq
    rcases Nat.lt_succ_iff_lt_or_eq.mp hm with hm | hm
    · obtain ⟨group, hgroup, hmem⟩ := h.adjacent m hm heq
      exact ⟨group, List.mem_append_left _ hgroup, hmem⟩
    · have hcurrent : s.currentIndices ≠ [] := fun hnil => by
        have := (h.current_none hnil).1
        omega
      obtain ⟨m', hm', -, hlast⟩ := h.current_some hcurrent
      obtain rfl : m' = m := by omega
      exact absurd (by rw [hlast, heq, hm, huid]) hnew
  · intro hnil
    simp at hnil
  · exact fun _ => ⟨n, rfl, by simp, huid.symm⟩

/-- A sample of the same uid joins the open group. -/
theorem ScanInv.grow_group {n seqlen : ℕ} {uid : υ} {s : UidScan υ} (h : ScanInv uids n s)
    (huid : uids[n]? = some uid) (hsame : some uid = s.currentUid) :
    ScanInv uids (n + 1) ⟨s.groups, s.currentUid, s.currentIndices ++ [n], seqlen⟩ := by
  have hcurrent : s.currentIndices ≠ [] := fun hnil => by
    rw [(h.current_none hnil).2] at hsame
    cases hsame
  have hbefore : s.closed.map Prod.fst = s.groups.map Prod.fst ++ [s.currentIndices] := by
    simp [UidScan.closed, hcurrent]
  have hclosed : (UidScan.closed (υ := υ) ⟨s.groups, s.currentUid, s.currentIndices ++ [n],
      seqlen⟩).map Prod.fst = s.groups.map Prod.fst ++ [s.currentIndices ++ [n]] := by
    simp [UidScan.closed]
  obtain ⟨last, hlast, hmem, huid'⟩ := h.current_some hcurrent
  have hgrow : ∀ group ∈ s.closed.map Prod.fst,
      ∃ group' ∈ s.groups.map Prod.fst ++ [s.currentIndices ++ [n]], group ⊆ group' := by
    rw [hbefore]
    intro group hgroup
    rcases List.mem_append.mp hgroup with hgroup | hgroup
    · exact ⟨group, List.mem_append_left _ hgroup, fun _ => id⟩
    · rw [List.mem_singleton.mp hgroup]
      exact ⟨_, List.mem_append_right _ (List.mem_singleton_self _), List.subset_append_left _ _⟩
  constructor
  · have hflatten := h.flatten
    rw [hbefore, List.flatten_append, List.flatten_singleton] at hflatten
    rw [hclosed, List.flatten_append, List.flatten_singleton, ← List.append_assoc, hflatten,
      List.range_succ]
  · rw [hclosed]
    intro group hgroup
    rcases List.mem_append.mp hgroup with hgroup | hgroup
    · exact h.ne_nil group (by rw [hbefore]; exact List.mem_append_left _ hgroup)
    · rw [List.mem_singleton.mp hgroup]
      simp
  · rw [hclosed]
    intro m hm heq
    rcases Nat.lt_succ_iff_lt_or_eq.mp hm with hm | hm
    · obtain ⟨group, hgroup, hm₁, hm₂⟩ := h.adjacent m hm heq
      obtain ⟨group', hgroup', hsubset⟩ := hgrow group hgroup
      exact ⟨group', hgroup', hsubset hm₁, hsubset hm₂⟩
    · obtain rfl : last = m := by omega
      refine ⟨_, List.mem_append_right _ (List.mem_singleton_self _), ?_, ?_⟩
      · exact List.mem_append_left _ hmem
      · rw [hm]
        exact List.mem_append_right _ (List.mem_singleton_self _)
  · intro hnil
    simp at hnil
  · exact fun _ => ⟨n, rfl, List.mem_append_right _ (List.mem_singleton_self _), by
      rw [huid, hsame]⟩

theorem ScanInv.step [DecidableEq υ] {n seqlen : ℕ} {uid : υ} {s : UidScan υ} (h : ScanInv uids n s)
    (huid : uids[n]? = some uid) : ScanInv uids (n + 1) (s.step ((seqlen, uid), n)) := by
  unfold UidScan.step
  dsimp only
  split_ifs with hnew
  · exact h.open_group huid hnew
  · exact h.grow_group huid (not_not.mp hnew)

/-- The groups of the whole list. -/
theorem scanInv_fold [DecidableEq υ] (hlength : seqlens.length = uids.length) : ∀ n ≤ uids.length,
    ScanInv uids n (((seqlens.zip uids).zipIdx.take n).foldl UidScan.step {})
  | 0, _ => ScanInv.init uids
  | n + 1, hn => by
    have hlt : n < (seqlens.zip uids).zipIdx.length := by
      rw [List.length_zipIdx, List.length_zip]
      omega
    rw [List.take_succ_eq_append_getElem hlt, List.foldl_concat]
    have hsample : (seqlens.zip uids).zipIdx[n] = ((seqlens[n], uids[n]), n) := by simp
    rw [hsample]
    exact (scanInv_fold hlength n (by omega)).step (List.getElem?_eq_getElem _)

/-- Samples of one uid that follow one another are in one group. -/
theorem exists_group_of_run {n : ℕ} {s : UidScan υ} (h : ScanInv uids n s) {i : ℕ} : ∀ {j : ℕ},
    i ≤ j → j < n → (∀ m, i ≤ m → m ≤ j → uids[m]? = uids[i]?) →
      ∃ group ∈ s.closed.map Prod.fst, i ∈ group ∧ j ∈ group := by
  intro j hij
  induction j, hij using Nat.le_induction with
  | base =>
    intro hi _
    have hmem : i ∈ (s.closed.map Prod.fst).flatten := by rw [h.flatten, List.mem_range]; exact hi
    obtain ⟨group, hgroup, hi⟩ := List.mem_flatten.mp hmem
    exact ⟨group, hgroup, hi, hi⟩
  | succ j hij ih =>
    intro hj hrun
    obtain ⟨group, hgroup, hi, hj'⟩ := ih (by omega) fun m hm hm' => hrun m hm (by omega)
    obtain ⟨group', hgroup', hj'', hsucc⟩ := h.adjacent j hj (by
      rw [hrun j hij (by omega), hrun (j + 1) (by omega) le_rfl])
    have hnodup : (s.closed.map Prod.fst).flatten.Nodup := by rw [h.flatten]; exact List.nodup_range
    obtain rfl : group = group' := by
      by_contra hne
      have hsymm : Std.Symm (List.Disjoint (α := ℕ)) := ⟨fun _ _ hd => hd.symm⟩
      have hdisjoint := (List.nodup_flatten.mp hnodup).2
      exact hdisjoint.forall hgroup hgroup' hne hj' hj''
    exact ⟨group, hgroup, hi, hsucc⟩

variable [DecidableEq υ]

theorem scanInv_uidGroups (hlength : seqlens.length = uids.length) :
    ∃ s, ScanInv uids uids.length s ∧ uidGroups seqlens uids = s.closed := by
  refine ⟨_, scanInv_fold hlength uids.length le_rfl, ?_⟩
  rw [List.take_of_length_le (by simp [hlength])]
  rfl

/-- The rows of a part of the groups. -/
def groupRows (groups : List (List ℕ)) (part : List ℕ) : List ℕ :=
  (part.flatMap fun i => groups.getD i []).insertionSort (· ≤ ·)

/-- The indices of chosen groups, for a partition of the groups. -/
theorem isPartition_flatMap_groups {groups : List (List ℕ)} {n k : ℕ}
    (hflatten : groups.flatten = List.range n) (hne : ∀ group ∈ groups, group ≠ [])
    {parts : List (List ℕ)} (hparts : IsPartition groups.length k parts) :
    IsPartition n k (parts.map (groupRows groups)) := by
  have hmem : ∀ part ∈ parts, ∀ i ∈ part, i < groups.length := fun part hpart i hi =>
    List.mem_range.mp (hparts.perm.subset (List.mem_flatten_of_mem hpart hi))
  refine ⟨by rw [List.length_map, hparts.length_eq], ?_, ?_⟩
  · calc (parts.map (groupRows groups)).flatten.Perm
          (parts.flatMap fun part => part.flatMap fun i => groups.getD i []) := by
          rw [← List.flatMap_def]
          exact List.Perm.flatMap_left _ fun part _ => List.perm_insertionSort _ _
      _ |>.Perm (parts.flatten.flatMap fun i => groups.getD i []) := by
          rw [← List.flatMap_assoc, List.flatMap_id']
      _ |>.Perm ((List.range groups.length).flatMap fun i => groups.getD i []) :=
          hparts.perm.flatMap_right _
      _ |>.Perm (List.range n) := by
          rw [List.flatMap_def, map_range_getD groups [] fun group => group, List.map_id', hflatten]
  · simp only [List.forall_mem_map]
    intro part hpart hnil
    obtain ⟨i, hi⟩ := List.exists_mem_of_ne_nil _ (hparts.ne_nil part hpart)
    have hlt := hmem part hpart i hi
    have hempty : (part.flatMap fun i => groups.getD i []) = [] := by
      rw [← List.length_eq_zero_iff, ← List.length_insertionSort (· ≤ ·)]
      exact List.length_eq_zero_iff.mpr hnil
    have hgroup := List.flatMap_eq_nil_iff.mp hempty i hi
    rw [List.getD_eq_getElem _ _ hlt] at hgroup
    exact hne _ (List.getElem_mem hlt) hgroup

/-- The workloads of the groups. -/
def uidWorkloads (seqlens : List ℕ) (groups : List (List ℕ × ℕ)) : List ℤ :=
  groups.map fun group => (group.1.map fun i => calculateWorkload (seqlens.getD i 0)).sum

theorem uidWorkloads_nonneg (seqlens : List ℕ) (groups : List (List ℕ × ℕ)) :
    ∀ w ∈ uidWorkloads seqlens groups, 0 ≤ w := by
  intro w hw
  obtain ⟨group, -, rfl⟩ := List.mem_map.mp hw
  refine List.sum_nonneg fun v hv => ?_
  obtain ⟨i, -, rfl⟩ := List.mem_map.mp hv
  exact calculateWorkload_nonneg _

theorem of_groupPartitions_ok {k : ℕ} {partitions : List (List ℕ)}
    (h : getGroupBalancedPartitions seqlens uids k = .ok partitions) :
    seqlens.length = uids.length ∧ ∃ parts,
      getSeqlenBalancedPartitions (uidWorkloads seqlens (uidGroups seqlens uids)) k true
        = .ok parts ∧
      partitions = parts.map (groupRows ((uidGroups seqlens uids).map Prod.fst)) := by
  by_cases hlength : seqlens.length = uids.length
  swap
  · rw [getGroupBalancedPartitions, if_pos hlength] at h
    cases h
  by_cases hfew : (uidGroups seqlens uids).length < k
  · rw [getGroupBalancedPartitions, if_neg (not_not.mpr hlength)] at h
    dsimp only at h
    rw [if_pos hfew] at h
    cases h
  rw [getGroupBalancedPartitions, if_neg (not_not.mpr hlength)] at h
  dsimp only at h
  rw [if_neg hfew] at h
  obtain ⟨parts, hparts, h⟩ := of_bind_ok h
  exact ⟨hlength, parts, of_mapError_ok hparts, (Except.ok.inj h).symm⟩

theorem length_uidWorkloads (seqlens : List ℕ) (groups : List (List ℕ × ℕ)) :
    (uidWorkloads seqlens groups).length = groups.length := by
  rw [uidWorkloads, List.length_map]

/-- Every sample is in one part. -/
theorem groupRows_isPartition {k : ℕ} {parts : List (List ℕ)}
    (hlength : seqlens.length = uids.length)
    (hparts : getSeqlenBalancedPartitions (uidWorkloads seqlens (uidGroups seqlens uids)) k true
      = .ok parts) :
    IsPartition (uidGroups seqlens uids).length k parts ∧
      IsPartition seqlens.length k
        (parts.map (groupRows ((uidGroups seqlens uids).map Prod.fst))) := by
  have hpart := isPartition_of_ok (uidWorkloads_nonneg seqlens _) hparts
  rw [length_uidWorkloads] at hpart
  refine ⟨hpart, ?_⟩
  obtain ⟨s, hinv, hgroups⟩ := scanInv_uidGroups hlength
  rw [hgroups, ← List.length_map Prod.fst] at hpart
  rw [hlength, hgroups]
  exact isPartition_flatMap_groups hinv.flatten hinv.ne_nil hpart

/-- Groups of one length make parts of one length. -/
theorem length_mul_groupRows {k m : ℕ} {parts : List (List ℕ)}
    (hlength : seqlens.length = uids.length)
    (hparts : getSeqlenBalancedPartitions (uidWorkloads seqlens (uidGroups seqlens uids)) k true
      = .ok parts)
    (heven : ∀ group ∈ uidGroups seqlens uids, group.1.length = m) :
    ∀ p ∈ parts.map (groupRows ((uidGroups seqlens uids).map Prod.fst)),
      p.length * k = seqlens.length := by
  have hpart := (groupRows_isPartition hlength hparts).1
  have hnumber : (uidGroups seqlens uids).length * m = seqlens.length := by
    obtain ⟨s, hinv, hgroups⟩ := scanInv_uidGroups hlength
    have hflatten := congrArg List.length hinv.flatten
    have hlengths : (uidGroups seqlens uids).map (List.length ∘ Prod.fst)
        = (uidGroups seqlens uids).map fun _ => m := List.map_congr_left heven
    rw [← hgroups, List.length_flatten, List.map_map, hlengths, List.map_const',
      List.sum_replicate_nat, List.length_range] at hflatten
    rw [hflatten, hlength]
  simp only [List.forall_mem_map]
  intro part hpartMem
  have hgroup : ∀ i ∈ part, (((uidGroups seqlens uids).map Prod.fst).getD i []).length = m := by
    intro i hi
    have hlt : i < ((uidGroups seqlens uids).map Prod.fst).length := by
      rw [List.length_map, ← List.mem_range]
      exact hpart.perm.subset (List.mem_flatten_of_mem hpartMem hi)
    rw [List.getD_eq_getElem _ _ hlt, List.getElem_map]
    exact heven _ (List.getElem_mem _)
  have hcount := length_mul_of_ok (uidWorkloads_nonneg seqlens _) hparts part hpartMem
  rw [length_uidWorkloads] at hcount
  calc (groupRows ((uidGroups seqlens uids).map Prod.fst) part).length * k
      = part.length * m * k := by
        rw [groupRows, List.length_insertionSort, List.length_flatMap, List.map_congr_left hgroup,
          List.map_const', List.sum_replicate_nat]
    _ = (uidGroups seqlens uids).length * m := by rw [← hcount, Nat.mul_right_comm]
    _ = seqlens.length := hnumber

/-- Parts of whole groups : every sample once, and samples of one uid that follow one another in one
part. There are parts exactly when every one of them can get equally many groups. -/
theorem getGroupBalancedPartitions_spec (seqlens : List ℕ) (uids : List υ) (k : ℕ) :
    ((∃ partitions, getGroupBalancedPartitions seqlens uids k = .ok partitions) ↔
      seqlens.length = uids.length ∧ Splittable (uidGroups seqlens uids).length k true) ∧
    ∀ partitions, getGroupBalancedPartitions seqlens uids k = .ok partitions →
      IsPartition seqlens.length k partitions ∧
      ∀ i j, i ≤ j → j < seqlens.length → (∀ m, i ≤ m → m ≤ j → uids[m]? = uids[i]?) →
        ∃ p ∈ partitions, i ∈ p ∧ j ∈ p := by
  have hiff := ok_iff_splittable (uidWorkloads_nonneg seqlens (uidGroups seqlens uids)) k true
  rw [length_uidWorkloads] at hiff
  refine ⟨⟨fun ⟨_, h⟩ => ?_, fun ⟨hlength, hsplit⟩ => ?_⟩, fun partitions h => ?_⟩
  · obtain ⟨hlength, parts, hparts, -⟩ := of_groupPartitions_ok h
    exact ⟨hlength, hiff.mp ⟨parts, hparts⟩⟩
  · obtain ⟨parts, hparts⟩ := hiff.mpr hsplit
    rw [uidWorkloads] at hparts
    rw [getGroupBalancedPartitions, if_neg (not_not.mpr hlength)]
    dsimp only
    rw [if_neg (not_lt.mpr hsplit.2.1), hparts]
    exact ⟨_, rfl⟩
  · obtain ⟨hlength, parts, hparts, rfl⟩ := of_groupPartitions_ok h
    obtain ⟨hpart, hresult⟩ := groupRows_isPartition hlength hparts
    refine ⟨hresult, fun i j hij hj hrun => ?_⟩
    obtain ⟨s, hinv, hgroups⟩ := scanInv_uidGroups hlength
    obtain ⟨group, hgroup, hi, hj⟩ := exists_group_of_run hinv hij (hlength ▸ hj) hrun
    rw [← hgroups] at hgroup
    obtain ⟨idx, hidx, rfl⟩ := List.mem_iff_getElem.mp hgroup
    rw [List.length_map] at hidx
    obtain ⟨part, hmem, hidx'⟩ := List.mem_flatten.mp
      (hpart.perm.symm.subset (List.mem_range.mpr hidx))
    have hsub : ∀ x ∈ ((uidGroups seqlens uids).map Prod.fst)[idx],
        x ∈ groupRows ((uidGroups seqlens uids).map Prod.fst) part := by
      intro x hx
      rw [groupRows, List.mem_insertionSort, List.mem_flatMap]
      exact ⟨idx, hidx', by rwa [List.getD_eq_getElem _ _ (by rwa [List.length_map])]⟩
    exact ⟨_, List.mem_map_of_mem hmem, hsub i hi, hsub j hj⟩

end Scan

/-! ## `_balance_batch` -/

/-- The errors of `_balance_batch`. -/
inductive BalanceBatchError where
  /-- `ValueError` : `num_groups % dp_size != 0` -/
  | groupsNotDivisible (numGroups dpSize : ℕ)
  | group (error : GroupError)
  | balance (error : BalanceError)
  | zeroDivision
  | indexOutOfRange
deriving DecidableEq, Repr

/-- The settings of the trainer, and the argument `keep_minibatch`. -/
structure BalanceSettings where
  usePrefixGrouper : Bool := false
  keepMinibatch : Bool := false
  ppoMiniBatchSize : ℕ := 1

/-- One mini-batch of the loop : its parts, moved to its rows, are added to those of the ranks. -/
def extendPartitions (minibatchSize dpSize : ℕ) (workloads : List ℤ) (partitions : List (List ℕ))
    (i : ℕ) : Except BalanceBatchError (List (List ℕ)) := do
  let parts ← (getSeqlenBalancedPartitions ((workloads.drop (i * minibatchSize)).take minibatchSize)
    dpSize true).mapError .balance
  .ok (List.zipWith (fun partition part => partition ++ part.map (· + minibatchSize * i))
    partitions parts)

/-- `global_partition_lst`, before the ranks are ordered (`ray_trainer.py:1274-1313`). -/
def globalPartitions [DecidableEq υ] (settings : BalanceSettings) (uids : Option (List υ))
    (dpSize : ℕ) (seqlens : List ℕ) : Except BalanceBatchError (List (List ℕ)) :=
  let workloads := seqlens.map calculateWorkload
  match settings.usePrefixGrouper, uids with
  | true, some uids =>
    if dpSize = 0 then .error .zeroDivision
    else if uids.dedup.length % dpSize ≠ 0 then
      .error (.groupsNotDivisible uids.dedup.length dpSize)
    else (getGroupBalancedPartitions seqlens uids dpSize).mapError .group
  | _, _ =>
    if settings.keepMinibatch then
      if settings.ppoMiniBatchSize = 0 then .error .zeroDivision
      else (List.range (workloads.length / settings.ppoMiniBatchSize)).foldlM
        (extendPartitions settings.ppoMiniBatchSize dpSize workloads) (List.replicate dpSize [])
    else (getSeqlenBalancedPartitions workloads dpSize true).mapError .balance

/-- `partition[::2] + partition[1::2][::-1]`, after sorting by workload. -/
def orderPartition (workloads : List ℤ) (partition : List ℕ) : List ℕ :=
  let partition := partition.insertionSort fun a b =>
    toLex (workloads.getD a 0, a) ≤ toLex (workloads.getD b 0, b)
  stepSlice 2 partition ++ (stepSlice 2 partition.tail).reverse

variable {α : Type}

/-- `_balance_batch` (`ray_trainer.py:1260-1324`) : the reordered rows, and the parts. -/
def balanceBatch [DecidableEq υ] (settings : BalanceSettings) (uids : Option (List υ)) (dpSize : ℕ)
    (seqlens : List ℕ) (rows : List α) : Except BalanceBatchError (List α × List (List ℕ)) := do
  let partitions ← globalPartitions settings uids dpSize seqlens
  let partitions := if settings.usePrefixGrouper then partitions
    else partitions.map (orderPartition (seqlens.map calculateWorkload))
  match gather rows partitions.flatten with
  | none => .error .indexOutOfRange
  | some reordered => .ok (reordered, partitions)

/-- Whether the parts are of whole groups. -/
def BalanceSettings.grouped (settings : BalanceSettings) (uids : Option (List υ)) : Bool :=
  settings.usePrefixGrouper && uids.isSome

/-- How many rows are in the parts : with `keep_minibatch`, those of the full mini-batches. -/
def BalanceSettings.covered (settings : BalanceSettings) (uids : Option (List υ)) (n : ℕ) : ℕ :=
  if settings.grouped uids then n
  else if settings.keepMinibatch then n / settings.ppoMiniBatchSize * settings.ppoMiniBatchSize
  else n

theorem covered_le (settings : BalanceSettings) (uids : Option (List υ)) (n : ℕ) :
    settings.covered uids n ≤ n := by
  unfold BalanceSettings.covered
  split_ifs
  · exact le_rfl
  · exact Nat.div_mul_le_self _ _
  · exact le_rfl

/-- One part a rank, with the first `covered` indices once. -/
structure RankParts (dpSize covered : ℕ) (partitions : List (List ℕ)) : Prop where
  length_eq : partitions.length = dpSize
  perm : partitions.flatten.Perm (List.range covered)

/-- The parts are equally long. -/
structure EqualParts (dpSize covered : ℕ) (partitions : List (List ℕ)) : Prop
    extends RankParts dpSize covered partitions where
  length_mul : ∀ p ∈ partitions, p.length * dpSize = covered

theorem flatten_zipWith_append_perm (g : List ℕ → List ℕ) : ∀ {xs ys : List (List ℕ)},
    xs.length = ys.length → (List.zipWith (fun x y => x ++ g y) xs ys).flatten.Perm
      (xs.flatten ++ (ys.map g).flatten)
  | [], [], _ => by simp
  | x :: xs, y :: ys, h => by
    have ih := flatten_zipWith_append_perm g (Nat.succ.inj h)
    simp only [List.zipWith_cons_cons, List.flatten_cons, List.map_cons, List.append_assoc]
    refine List.Perm.append_left x ((ih.append_left (g y)).trans ?_)
    rw [← List.append_assoc, ← List.append_assoc]
    exact List.perm_append_comm.append_right _

section Balance

variable {settings : BalanceSettings} {dpSize : ℕ} {seqlens : List ℕ}

theorem workloads_nonneg (seqlens : List ℕ) : ∀ w ∈ seqlens.map calculateWorkload, 0 ≤ w := by
  intro w hw
  obtain ⟨seqlen, -, rfl⟩ := List.mem_map.mp hw
  exact calculateWorkload_nonneg seqlen

theorem equalParts_of_ok {workloads : List ℤ} (hnonneg : ∀ w ∈ workloads, 0 ≤ w)
    {parts : List (List ℕ)} (h : getSeqlenBalancedPartitions workloads dpSize true = .ok parts) :
    EqualParts dpSize workloads.length parts := by
  have hpart := isPartition_of_ok hnonneg h
  exact ⟨⟨hpart.length_eq, hpart.perm⟩, length_mul_of_ok hnonneg h⟩

/-- One more mini-batch. -/
theorem EqualParts.extend {minibatchSize i : ℕ} {workloads : List ℤ}
    (hnonneg : ∀ w ∈ workloads, 0 ≤ w) (hi : i < workloads.length / minibatchSize)
    {partitions partitions' : List (List ℕ)}
    (h : EqualParts dpSize (i * minibatchSize) partitions)
    (hok : extendPartitions minibatchSize dpSize workloads partitions i = .ok partitions') :
    EqualParts dpSize ((i + 1) * minibatchSize) partitions' := by
  obtain ⟨parts, hparts, hok⟩ := of_bind_ok hok
  obtain rfl := Except.ok.inj hok
  have hslice : ((workloads.drop (i * minibatchSize)).take minibatchSize).length
      = minibatchSize := by
    have hle := Nat.mul_le_of_le_div _ _ _ (Nat.succ_le_of_lt hi)
    rw [Nat.succ_mul] at hle
    rw [List.length_take, List.length_drop]
    omega
  have hequal := equalParts_of_ok (fun w hw => hnonneg w
    (List.mem_of_mem_drop (List.mem_of_mem_take hw))) (of_mapError_ok hparts)
  rw [hslice] at hequal
  have hlengths : partitions.length = parts.length := by rw [h.length_eq, hequal.length_eq]
  refine ⟨⟨by rw [List.length_zipWith, h.length_eq, hequal.length_eq, Nat.min_self], ?_⟩, ?_⟩
  · refine (flatten_zipWith_append_perm _ hlengths).trans ?_
    rw [← List.map_flatten, Nat.succ_mul, List.range_add]
    refine h.perm.append ((hequal.perm.map _).trans (.of_eq ?_))
    exact List.map_congr_left fun x _ => by rw [Nat.add_comm, Nat.mul_comm]
  · intro p hp
    obtain ⟨j, hj, rfl⟩ := List.mem_iff_getElem.mp hp
    rw [List.length_zipWith] at hj
    rw [List.getElem_zipWith, List.length_append, List.length_map, Nat.add_mul,
      h.length_mul _ (List.getElem_mem _), hequal.length_mul _ (List.getElem_mem _), Nat.succ_mul]

/-- Without a prefix grouper, or without uids, the rows are split as they are. -/
theorem globalPartitions_eq [DecidableEq υ] {uids : Option (List υ)}
    (hplain : settings.grouped uids = false) :
    globalPartitions settings uids dpSize seqlens
      = if settings.keepMinibatch then
          if settings.ppoMiniBatchSize = 0 then .error .zeroDivision
          else (List.range (seqlens.length / settings.ppoMiniBatchSize)).foldlM
            (extendPartitions settings.ppoMiniBatchSize dpSize (seqlens.map calculateWorkload))
            (List.replicate dpSize [])
        else (getSeqlenBalancedPartitions (seqlens.map calculateWorkload) dpSize true).mapError
          .balance := by
  unfold globalPartitions
  dsimp only
  rw [List.length_map]
  cases huse : settings.usePrefixGrouper with
  | false => rfl
  | true =>
    cases uids with
    | none => rfl
    | some us => simp [BalanceSettings.grouped, huse] at hplain

/-- Without groups the ranks get equally many rows. -/
theorem globalPartitions_equalParts [DecidableEq υ] {uids : Option (List υ)}
    (hplain : settings.grouped uids = false) {partitions : List (List ℕ)}
    (h : globalPartitions settings uids dpSize seqlens = .ok partitions) :
    EqualParts dpSize (settings.covered uids seqlens.length) partitions := by
  rw [globalPartitions_eq hplain] at h
  rw [BalanceSettings.covered, hplain, if_neg Bool.false_ne_true]
  by_cases hkeep : settings.keepMinibatch = true
  · rw [if_pos hkeep] at h ⊢
    by_cases hzero : settings.ppoMiniBatchSize = 0
    · rw [if_pos hzero] at h; cases h
    rw [if_neg hzero] at h
    have hrun := of_foldlM_ok (fun done partitions =>
      EqualParts dpSize (done.length * settings.ppoMiniBatchSize) partitions) ?_ ?_ h
    · rwa [List.length_range] at hrun
    · intro done i rest acc acc' hrange hdone hstep
      have hget : (List.range (seqlens.length / settings.ppoMiniBatchSize))[done.length]?
          = some i := by
        rw [hrange, List.getElem?_append_right le_rfl, Nat.sub_self]
        rfl
      have hi : i = done.length ∧ i < seqlens.length / settings.ppoMiniBatchSize := by
        obtain ⟨hlt, hval⟩ := List.getElem?_eq_some_iff.mp hget
        rw [List.getElem_range] at hval
        rw [List.length_range] at hlt
        omega
      rw [← hi.1] at hdone
      rw [List.length_append, List.length_singleton, ← hi.1]
      exact hdone.extend (workloads_nonneg seqlens) (by rw [List.length_map]; exact hi.2) hstep
    · refine ⟨⟨List.length_replicate, ?_⟩, fun p hp => ?_⟩
      · simp
      · rw [List.eq_of_mem_replicate hp]
        simp
  · rw [if_neg hkeep] at h ⊢
    have hequal := equalParts_of_ok (workloads_nonneg seqlens) (of_mapError_ok h)
    rwa [List.length_map] at hequal

/-- With groups the parts are those of the groups. -/
theorem of_globalPartitions_grouped [DecidableEq υ] {uids : Option (List υ)}
    (hgrouped : settings.grouped uids = true) {partitions : List (List ℕ)}
    (h : globalPartitions settings uids dpSize seqlens = .ok partitions) :
    ∃ us ∈ uids, getGroupBalancedPartitions seqlens us dpSize = .ok partitions := by
  obtain ⟨huse, hsome⟩ := Bool.and_eq_true_iff.mp hgrouped
  obtain ⟨us, rfl⟩ := Option.isSome_iff_exists.mp hsome
  unfold globalPartitions at h
  rw [huse] at h
  dsimp only at h
  split_ifs at h with hzero hdvd
  exact ⟨us, rfl, of_mapError_ok h⟩

/-- Every row that is covered is in the part of one rank. -/
theorem globalPartitions_rankParts [DecidableEq υ] {uids : Option (List υ)}
    {partitions : List (List ℕ)}
    (h : globalPartitions settings uids dpSize seqlens = .ok partitions) :
    RankParts dpSize (settings.covered uids seqlens.length) partitions := by
  cases hgrouped : settings.grouped uids with
  | false => exact (globalPartitions_equalParts hgrouped h).toRankParts
  | true =>
    obtain ⟨us, -, hok⟩ := of_globalPartitions_grouped hgrouped h
    obtain ⟨hlength, parts, hparts, rfl⟩ := of_groupPartitions_ok hok
    have hresult := (groupRows_isPartition hlength hparts).2
    rw [BalanceSettings.covered, if_pos hgrouped]
    exact ⟨hresult.length_eq, hresult.perm⟩

/-- The groups are equally long, where the parts are of whole groups. -/
def BalanceSettings.EvenGroups [DecidableEq υ] (settings : BalanceSettings)
    (uids : Option (List υ)) (seqlens : List ℕ) : Prop :=
  settings.grouped uids = true →
    ∀ us ∈ uids, ∃ m, ∀ group ∈ uidGroups seqlens us, group.1.length = m

/-- Equally long groups make equally long parts. -/
theorem globalPartitions_length_mul [DecidableEq υ] {uids : Option (List υ)}
    (heven : settings.EvenGroups uids seqlens) {partitions : List (List ℕ)}
    (h : globalPartitions settings uids dpSize seqlens = .ok partitions) :
    ∀ p ∈ partitions, p.length * dpSize = settings.covered uids seqlens.length := by
  cases hgrouped : settings.grouped uids with
  | false => exact (globalPartitions_equalParts hgrouped h).length_mul
  | true =>
    obtain ⟨us, hus, hok⟩ := of_globalPartitions_grouped hgrouped h
    obtain ⟨hlength, parts, hparts, rfl⟩ := of_groupPartitions_ok hok
    obtain ⟨m, hm⟩ := heven hgrouped us hus
    rw [BalanceSettings.covered, if_pos hgrouped]
    exact length_mul_groupRows hlength hparts hm

theorem orderPartition_perm (workloads : List ℤ) (partition : List ℕ) :
    (orderPartition workloads partition).Perm partition := by
  refine ((List.reverse_perm _).append_left _).trans ((stepSlice_two_perm _).trans ?_)
  exact List.perm_insertionSort _ _

/-- Ordering the rows of each rank keeps the parts. -/
theorem RankParts.map_perm {covered : ℕ} {partitions : List (List ℕ)}
    (h : RankParts dpSize covered partitions) {g : List ℕ → List ℕ} (hg : ∀ p, (g p).Perm p) :
    RankParts dpSize covered (partitions.map g) := by
  refine ⟨by rw [List.length_map, h.length_eq], List.Perm.trans ?_ h.perm⟩
  rw [← List.flatMap_def, ← List.flatMap_id' (L := partitions)]
  exact List.Perm.flatMap_left _ fun p _ => hg p

namespace RankParts

variable {rows : List α} {covered : ℕ} {partitions : List (List ℕ)}

theorem lt_length (h : RankParts dpSize covered partitions) (hcovered : covered ≤ rows.length) :
    ∀ i ∈ partitions.flatten, i < rows.length := fun _ hi =>
  (List.mem_range.mp (h.perm.subset hi)).trans_le hcovered

theorem length_rows (h : RankParts dpSize covered partitions) (hcovered : covered ≤ rows.length) :
    (partitions.flatten.filterMap (rows[·]?)).length = covered := by
  rw [length_filterMap_getElem? (h.lt_length hcovered), h.perm.length_eq, List.length_range]

theorem length_part (h : RankParts dpSize covered partitions) (hcovered : covered ≤ rows.length)
    {p : List ℕ} (hp : p ∈ partitions) : (p.filterMap (rows[·]?)).length = p.length :=
  length_filterMap_getElem? fun i hi => h.lt_length hcovered i (List.mem_flatten_of_mem hp hi)

/-- The dispatch cuts reordered rows at the ends of the parts exactly when these are equally
long. -/
theorem dataProtoChunk_eq_iff (h : RankParts dpSize covered partitions) (hdp : 0 < dpSize)
    (hcovered : covered ≤ rows.length) :
    dataProtoChunk (partitions.flatten.filterMap (rows[·]?)) dpSize
        = .ok (partitions.map fun p => p.filterMap (rows[·]?)) ↔
      ∀ p ∈ partitions, p.length * dpSize = covered := by
  refine ⟨fun hchunk p hp => ?_, fun hequal => ?_⟩
  · have hlength := length_mul_of_mem_dataProtoChunk hchunk _ (List.mem_map_of_mem hp)
    rwa [h.length_part hcovered hp, h.length_rows hcovered] at hlength
  · obtain ⟨p, hp⟩ := List.exists_mem_of_length_pos (h.length_eq ▸ hdp)
    have hdvd : covered % dpSize = 0 := by rw [← hequal p hp, Nat.mul_mod_left]
    have hcols : ∀ p ∈ partitions, (p.filterMap (rows[·]?)).length = covered / dpSize :=
      fun p hp => by rw [h.length_part hcovered hp, ← hequal p hp, Nat.mul_div_cancel _ hdp]
    have hview : viewBlocks (partitions.map fun p => p.filterMap (rows[·]?)).length
        (covered / dpSize) (partitions.map fun p => p.filterMap (rows[·]?)).flatten
          = partitions.map fun p => p.filterMap (rows[·]?) :=
      viewBlocks_flatten (List.forall_mem_map.mpr hcols)
    rw [List.length_map, h.length_eq] at hview
    unfold dataProtoChunk
    rw [if_neg hdp.ne', h.length_rows hcovered, if_neg (not_not.mpr hdvd), List.filterMap_flatten,
      hview]

end RankParts

end Balance

section Dispatched

variable [DecidableEq υ] {settings : BalanceSettings} {uids : Option (List υ)} {dpSize : ℕ}
  {seqlens : List ℕ} {rows : List α}

/-- The parts after the rows of each rank are ordered. -/
def orderedPartitions (settings : BalanceSettings) (seqlens : List ℕ)
    (partitions : List (List ℕ)) : List (List ℕ) :=
  if settings.usePrefixGrouper then partitions
  else partitions.map (orderPartition (seqlens.map calculateWorkload))

theorem RankParts.ordered {covered : ℕ} {partitions : List (List ℕ)}
    (h : RankParts dpSize covered partitions) (settings : BalanceSettings) (seqlens : List ℕ) :
    RankParts dpSize covered (orderedPartitions settings seqlens partitions) := by
  unfold orderedPartitions
  split_ifs
  · exact h
  · exact h.map_perm (orderPartition_perm _)

/-- The reordered rows, for the parts. -/
theorem balanceBatch_eq_ok (hrows : rows.length = seqlens.length) {partitions : List (List ℕ)}
    (hparts : globalPartitions settings uids dpSize seqlens = .ok partitions) :
    balanceBatch settings uids dpSize seqlens rows
      = .ok ((orderedPartitions settings seqlens partitions).flatten.filterMap (rows[·]?),
        orderedPartitions settings seqlens partitions) := by
  have hordered := (globalPartitions_rankParts hparts).ordered settings seqlens
  unfold balanceBatch
  rw [hparts, ok_bind]
  change (match gather rows (orderedPartitions settings seqlens partitions).flatten with
    | none => Except.error BalanceBatchError.indexOutOfRange
    | some reordered => .ok (reordered, orderedPartitions settings seqlens partitions)) = _
  rw [gather_eq_filterMap (hordered.lt_length (hrows ▸ covered_le settings uids _))]

theorem load_perm (workloads : List ℤ) {p q : List ℕ} (h : p.Perm q) :
    load workloads p = load workloads q := (h.map _).sum_eq

/-- Every part is one of the balanced parts, in another order. -/
theorem exists_perm_of_mem_ordered {partitions : List (List ℕ)} {p : List ℕ}
    (hp : p ∈ orderedPartitions settings seqlens partitions) : ∃ q ∈ partitions, p.Perm q := by
  unfold orderedPartitions at hp
  split_ifs at hp
  · exact ⟨p, hp, .refl p⟩
  · obtain ⟨q, hq, rfl⟩ := List.mem_map.mp hp
    exact ⟨q, hq, orderPartition_perm _ q⟩

/-- Each row is in the part of one rank, but for those past the last full mini-batch where
mini-batches are kept apart, and the batch is reordered by the parts. The dispatch gives every rank
its part exactly when the parts are equally long, as they are without groups and with groups of one
length. Without mini-batches and groups no two parts are further apart than the rows of one slice of
the sorted batch. -/
theorem balanceBatch_dispatch (hrows : rows.length = seqlens.length) (hdp : 0 < dpSize)
    {reordered : List α} {partitions : List (List ℕ)}
    (h : balanceBatch settings uids dpSize seqlens rows = .ok (reordered, partitions)) :
    RankParts dpSize (settings.covered uids rows.length) partitions ∧
      reordered = partitions.flatten.filterMap (rows[·]?) ∧
      reordered.Perm (rows.take (settings.covered uids rows.length)) ∧
      (dataProtoChunk reordered dpSize = .ok (partitions.map fun p => p.filterMap (rows[·]?)) ↔
        ∀ p ∈ partitions, p.length * dpSize = settings.covered uids rows.length) ∧
      (settings.EvenGroups uids seqlens →
        ∀ p ∈ partitions, p.length * dpSize = settings.covered uids rows.length) ∧
      (settings.grouped uids = false → settings.keepMinibatch = false →
        ∀ B, GapBound (seqlens.map calculateWorkload) dpSize true B →
          ∀ p ∈ partitions, ∀ q ∈ partitions, load (seqlens.map calculateWorkload) p
            - load (seqlens.map calculateWorkload) q ≤ B) := by
  obtain ⟨parts, hparts, -⟩ := of_bind_ok h
  rw [balanceBatch_eq_ok hrows hparts] at h
  obtain ⟨rfl, rfl⟩ := Prod.mk.inj (Except.ok.inj h)
  have hordered := (globalPartitions_rankParts hparts).ordered settings seqlens
  rw [← hrows] at hordered
  have hcovered := covered_le settings uids rows.length
  refine ⟨hordered, rfl, ?_, hordered.dataProtoChunk_eq_iff hdp hcovered, fun heven p hp => ?_,
    fun hplain hkeep B hB p hp q hq => ?_⟩
  · exact (hordered.perm.filterMap _).trans (.of_eq (filterMap_range_take hcovered))
  · obtain ⟨q, hq, hperm⟩ := exists_perm_of_mem_ordered hp
    rw [hperm.length_eq, hrows]
    exact globalPartitions_length_mul heven hparts q hq
  · rw [globalPartitions_eq hplain, if_neg (by simp [hkeep])] at hparts
    obtain ⟨p', hp', hperm⟩ := exists_perm_of_mem_ordered hp
    obtain ⟨q', hq', hperm'⟩ := exists_perm_of_mem_ordered hq
    obtain ⟨s, hfinal, rfl⟩ :=
      exists_isFinal_of_ok (workloads_nonneg seqlens) (of_mapError_ok hparts)
    rw [load_perm _ hperm, load_perm _ hperm']
    exact hfinal.load_sub_le (workloads_nonneg seqlens) hB p' hp' q' hq'

end Dispatched

/-- Six rows for two ranks. The groups of four rows are not equally long, and the chunks are not
their parts. -/
theorem balanceBatch_dispatch_six_two :
    (∃ reordered partitions,
      balanceBatch (α := ℕ) (υ := ℕ) {} none 2 [9, 1, 4, 3, 5, 2] [0, 1, 2, 3, 4, 5]
        = .ok (reordered, partitions) ∧
      dataProtoChunk reordered 2
        = .ok (partitions.map fun p => p.filterMap ([0, 1, 2, 3, 4, 5][·]?))) ∧
    ∃ reordered partitions,
      balanceBatch { usePrefixGrouper := true } (some [0, 0, 0, 1]) 2 [1, 1, 1, 1] [0, 1, 2, 3]
        = .ok (reordered, partitions) ∧
      dataProtoChunk reordered 2
        ≠ .ok (partitions.map fun p => p.filterMap ([0, 1, 2, 3][·]?)) := by
  have hplain : balanceBatch (α := ℕ) (υ := ℕ) {} none 2 [9, 1, 4, 3, 5, 2] [0, 1, 2, 3, 4, 5]
      = .ok ([1, 0, 3, 5, 4, 2], [[1, 0, 3], [5, 4, 2]]) := by decide +kernel
  have hgrouped : balanceBatch { usePrefixGrouper := true } (some [0, 0, 0, 1]) 2 [1, 1, 1, 1]
      [0, 1, 2, 3] = .ok ([0, 1, 2, 3], [[0, 1, 2], [3]]) := by decide +kernel
  have hsix : [0, 1, 2, 3, 4, 5].length = [9, 1, 4, 3, 5, 2].length := rfl
  have hfour : [0, 1, 2, 3].length = [1, 1, 1, 1].length := rfl
  obtain ⟨-, -, -, hiff, heven, -⟩ := balanceBatch_dispatch hsix Nat.two_pos hplain
  obtain ⟨-, -, -, hiff', -⟩ := balanceBatch_dispatch hfour Nat.two_pos hgrouped
  exact ⟨⟨_, _, hplain, hiff.mpr (heven (by rintro ⟨⟩))⟩, _, _, hgrouped,
    fun hchunk => absurd (hiff'.mp hchunk) (by decide)⟩

end DraftOpd
