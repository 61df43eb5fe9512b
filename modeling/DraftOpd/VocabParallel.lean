import DraftOpd.TensorOps

/-!
# Greedy sampling from a vocab-parallel head

The rows of the target's LM head are spread over the tensor-parallel ranks : a contiguous range
of the base vocabulary, some padding, then a range of the added vocabulary. A rank finds its
largest logit, with the dtype's minimum where it has no base row, turns its position into a token
id, and the ranks gather what they found and take the first largest.

`generalChunk_eq` : the general path treats the tokens of a chunk one by one. `chosenToken_spec`
says which token it is, from what a rank finds (`localBest_spec`) and from where the ids are
(`Tiles.exists_mem`). `greedy_sample_maximises` puts it together for the worker's function.
-/

namespace DraftOpd

/-! ## The head -/

/-- What the sampling reads of `VocabParallelEmbeddingShardIndices`
(`vocab_parallel_embedding.py:73-113`). -/
structure ShardIndices where
  numOrgElements : ℕ
  numOrgElementsPadded : ℕ
  numAddedElements : ℕ
  orgVocabStartIndex : ℕ
  addedVocabStartIndex : ℕ

/-- `_get_indices` (`vocab_parallel_embedding.py:318-354`). -/
def getIndices (vocabSizePadded orgVocabSizePadded vocabSize orgVocabSize tpRank tpSize : ℕ) :
    ShardIndices :=
  let orgPerPartition := orgVocabSizePadded / tpSize
  let addedPerPartition := (vocabSizePadded - orgVocabSizePadded) / tpSize
  let paddedOrgVocabStart := tpRank * orgPerPartition
  let paddedOrgVocabEnd := paddedOrgVocabStart + orgPerPartition
  let paddedAddedVocabStart := tpRank * addedPerPartition + orgVocabSize
  let paddedAddedVocabEnd := tpRank * addedPerPartition + addedPerPartition + orgVocabSize
  let orgVocabStart := min paddedOrgVocabStart orgVocabSize
  let orgVocabEnd := min paddedOrgVocabEnd orgVocabSize
  let addedVocabStart := min paddedAddedVocabStart vocabSize
  let addedVocabEnd := min paddedAddedVocabEnd vocabSize
  { numOrgElements := orgVocabEnd - orgVocabStart
    numOrgElementsPadded := paddedOrgVocabEnd - paddedOrgVocabStart
    numAddedElements := addedVocabEnd - addedVocabStart
    orgVocabStartIndex := orgVocabStart
    addedVocabStartIndex := addedVocabStart }

/-- A vocab-parallel head : the shard of each rank, and the product of a hidden state with a row
of its local weight. -/
structure VocabParallelHead (H α : Type*) where
  shards : List ShardIndices
  rowLogit : ℕ → H → ℕ → α

/-- Ranges, given by their starts and lengths, that lie one after another from `lo` to `hi`. -/
def Tiles : ℕ → List (ℕ × ℕ) → ℕ → Prop
  | lo, [], hi => lo = hi
  | lo, (start, len) :: rest, hi => start = lo ∧ Tiles (lo + len) rest hi

section Head

variable {H α : Type*}

/-- The head holds the logits of a vocabulary : its shards tile the base and the added
vocabulary, and their real rows have the logits of their ids. The padding rows are arbitrary. -/
structure VocabParallelHead.Shards (head : VocabParallelHead H α) (logit : H → ℕ → α)
    (orgVocabSize vocabSize : ℕ) : Prop where
  org_tiles : Tiles 0 (head.shards.map fun s => (s.orgVocabStartIndex, s.numOrgElements))
    orgVocabSize
  added_tiles : Tiles orgVocabSize
    (head.shards.map fun s => (s.addedVocabStartIndex, s.numAddedElements)) vocabSize
  org_le_padded : ∀ s ∈ head.shards, s.numOrgElements ≤ s.numOrgElementsPadded
  org_row : ∀ r s, head.shards[r]? = some s → ∀ h, ∀ i < s.numOrgElements,
    head.rowLogit r h i = logit h (s.orgVocabStartIndex + i)
  added_row : ∀ r s, head.shards[r]? = some s → ∀ h, ∀ j < s.numAddedElements,
    head.rowLogit r h (s.numOrgElementsPadded + j) = logit h (s.addedVocabStartIndex + j)

/-! ## The sampling -/

variable [LinearOrder α] (head : VocabParallelHead H α) (dtypeMin : α)

/-- `local_max` and `local_arg` of a token (`dflash_worker.py:771-801`). -/
def ShardIndices.localBest (s : ShardIndices) (rowLogit : ℕ → α) : α × ℕ :=
  let base := if 0 < s.numOrgElements then
      (torchMax ((List.range s.numOrgElements).map rowLogit)).getD (dtypeMin, 0)
    else (dtypeMin, 0)
  if 0 < s.numAddedElements then
    let added := (torchMax ((List.range s.numAddedElements).map fun j =>
      rowLogit (s.numOrgElementsPadded + j))).getD (dtypeMin, 0)
    if base.1 < added.1 then (added.1, added.2 + s.numOrgElementsPadded) else base
  else base

/-- The token id of a local row (`dflash_worker.py:804-815`). -/
def ShardIndices.globalId (s : ShardIndices) (localArg : ℕ) : ℕ :=
  if s.numAddedElements = 0 then localArg + s.orgVocabStartIndex
  else if localArg < s.numOrgElements then s.orgVocabStartIndex + localArg
  else s.addedVocabStartIndex + (localArg - s.numOrgElementsPadded)

/-- A chunk of the fast path (`dflash_worker.py:749-763`), on the only rank. -/
def fastChunk (s : ShardIndices) (hs : List H) : List ℕ :=
  hs.map fun h =>
    if 0 < s.numOrgElements then
      ((torchMax ((List.range s.numOrgElements).map (head.rowLogit 0 h))).map Prod.snd).getD 0 +
        s.orgVocabStartIndex
    else 0

/-- A chunk of the general path (`dflash_worker.py:765-869`), over all ranks. -/
def generalChunk (hs : List H) : List ℕ :=
  let localMax := head.shards.mapIdx fun r s =>
    hs.map fun h => (s.localBest dtypeMin (head.rowLogit r h)).1
  let globalIds := head.shards.mapIdx fun r s =>
    hs.map fun h => s.globalId (s.localBest dtypeMin (head.rowLogit r h)).2
  if head.shards.length = 1 then globalIds.getD 0 []
  else
    let gatheredMax := viewBlocks head.shards.length hs.length localMax.flatten
    let gatheredIds := viewBlocks head.shards.length hs.length globalIds.flatten
    (List.range hs.length).map fun t =>
      let bestRank := ((torchMax (gatheredMax.map fun row => row.getD t dtypeMin)).map
        Prod.snd).getD 0
      (gatheredIds.getD bestRank []).getD t 0

/-- `_greedy_sample_from_vocab_parallel_head` (`dflash_worker.py:699-871`). The buffers it keeps
between calls are left out. -/
def greedySampleFromVocabParallelHead (chunkSize : ℕ) (hiddenStates : List H) : List ℕ :=
  match head.shards with
  | [s] =>
    if s.numAddedElements = 0 then forChunks chunkSize (fastChunk head s) hiddenStates
    else forChunks chunkSize (generalChunk head dtypeMin) hiddenStates
  | _ => forChunks chunkSize (generalChunk head dtypeMin) hiddenStates

/-! ## One token -/

/-- The largest logits the ranks find. -/
def localMaxes (h : H) : List α :=
  head.shards.mapIdx fun r s => (s.localBest dtypeMin (head.rowLogit r h)).1

/-- The rank whose logit is taken. -/
def bestRank (h : H) : ℕ := ((torchMax (localMaxes head dtypeMin h)).map Prod.snd).getD 0

/-- The token that is taken. -/
def chosenToken (h : H) : ℕ :=
  (head.shards.mapIdx fun r s => s.globalId (s.localBest dtypeMin (head.rowLogit r h)).2).getD
    (bestRank head dtypeMin h) 0

end Head

/-! ## Where the ids are -/

namespace Tiles

theorem range_of_getElem? : ∀ {rs : List (ℕ × ℕ)} {lo hi r start len : ℕ}, Tiles lo rs hi →
    rs[r]? = some (start, len) → lo ≤ start ∧ start + len ≤ hi
  | [], _, _, _, _, _, _, hr => by simp at hr
  | (s, n) :: rs, lo, hi, r, start, len, ⟨hs, hrest⟩, hr => by
    have hhi : lo + n ≤ hi := by
      cases rs with
      | nil => exact le_of_eq hrest
      | cons x xs =>
        have := range_of_getElem? hrest (r := 0) rfl
        omega
    cases r with
    | zero =>
      obtain ⟨rfl, rfl⟩ : s = start ∧ n = len := by simpa using hr
      omega
    | succ r =>
      have := range_of_getElem? hrest hr
      omega

/-- A position between the ends lies in one of the ranges. -/
theorem exists_mem : ∀ {rs : List (ℕ × ℕ)} {lo hi v : ℕ}, Tiles lo rs hi → lo ≤ v → v < hi →
    ∃ r start len : ℕ, rs[r]? = some (start, len) ∧ start ≤ v ∧ v < start + len
  | [], lo, hi, v, h, hlo, hhi => by
    simp only [Tiles] at h
    omega
  | (s, n) :: rs, lo, hi, v, ⟨hs, hrest⟩, hlo, hhi => by
    by_cases hv : v < lo + n
    · exact ⟨0, s, n, rfl, by omega, by omega⟩
    · obtain ⟨r, start, len, hr, hmem⟩ := exists_mem hrest (not_lt.mp hv) hhi
      exact ⟨r + 1, start, len, hr, hmem⟩

/-- A range lies behind those before it. -/
theorem end_le_start : ∀ {rs : List (ℕ × ℕ)} {lo hi r r' start len start' len' : ℕ},
    Tiles lo rs hi → r < r' → rs[r]? = some (start, len) → rs[r']? = some (start', len') →
    start + len ≤ start'
  | [], _, _, _, _, _, _, _, _, _, _, hr, _ => by simp at hr
  | (s, n) :: rs, lo, hi, r, r' + 1, start, len, start', len', ⟨hs, hrest⟩, hlt, hr, hr' => by
    cases r with
    | zero =>
      obtain ⟨rfl, rfl⟩ : s = start ∧ n = len := by simpa using hr
      have := hrest.range_of_getElem? hr'
      omega
    | succ r => exact end_le_start hrest (by omega) hr hr'

end Tiles

/-! ## What a rank finds -/

section Local

variable {α : Type*} [LinearOrder α] {dtypeMin : α} {s : ShardIndices} {rowLogit : ℕ → α}

/-- A real row of a shard. -/
def ShardIndices.IsRow (s : ShardIndices) (i : ℕ) : Prop :=
  i < s.numOrgElements ∨ ∃ j < s.numAddedElements, i = s.numOrgElementsPadded + j

theorem torchMax_map_range {n : ℕ} (hn : 0 < n) (f : ℕ → α) : ∃ i < n,
    torchMax ((List.range n).map f) = some (f i, i) ∧ (∀ j < n, f j ≤ f i) ∧
      ∀ j < i, f j < f i := by
  have hne : (List.range n).map f ≠ [] := by simpa using hn.ne'
  obtain ⟨m, i, heq, hmax⟩ := torchMax_spec hne
  have hentry : ∀ j < n, ((List.range n).map f)[j]? = some (f j) := fun j hj => by simp [hj]
  have hi : i < n := by
    have hlen := (List.getElem?_eq_some_iff.mp hmax.at_index).1
    simpa using hlen
  obtain rfl : f i = m := by
    have hat := hmax.at_index
    rw [hentry i hi] at hat
    exact Option.some.inj hat
  refine ⟨i, hi, heq, fun j hj => ?_, fun j hj => ?_⟩
  · exact hmax.le_max _ (List.mem_map_of_mem (List.mem_range.mpr hj))
  · exact hmax.lt_max j hj _ (hentry j (hj.trans hi))

/-- The largest logit of a shard with a real row, at the first of them without added ids. -/
structure LocalBest (s : ShardIndices) (rowLogit : ℕ → α) (best : α × ℕ) : Prop where
  isRow : s.IsRow best.2
  at_row : rowLogit best.2 = best.1
  le_best : ∀ i, s.IsRow i → rowLogit i ≤ best.1
  lt_best : s.numAddedElements = 0 → ∀ i < best.2, rowLogit i < best.1

theorem localBest_spec (hmin : ∀ i, s.IsRow i → dtypeMin < rowLogit i) (hrow : ∃ i, s.IsRow i) :
    LocalBest s rowLogit (s.localBest dtypeMin rowLogit) := by
  unfold ShardIndices.localBest
  rcases Nat.eq_zero_or_pos s.numAddedElements with hadded | hadded
  · -- Only base rows.
    have horg : 0 < s.numOrgElements := by
      obtain ⟨i, hi | ⟨j, hj, -⟩⟩ := hrow <;> omega
    obtain ⟨i, hi, heq, hle, hlt⟩ := torchMax_map_range horg rowLogit
    simp only [hadded, lt_irrefl, if_false, if_pos horg, heq, Option.getD_some]
    refine ⟨Or.inl hi, rfl, fun k hk => ?_, fun _ => hlt⟩
    rcases hk with hk | ⟨j, hj, -⟩
    · exact hle k hk
    · omega
  · obtain ⟨j, hj, heq, hle, -⟩ := torchMax_map_range hadded
      fun j => rowLogit (s.numOrgElementsPadded + j)
    simp only [if_pos hadded, heq, Option.getD_some]
    rcases Nat.eq_zero_or_pos s.numOrgElements with horg | horg
    · -- The minimum of the dtype loses against any added row.
      simp only [horg, lt_irrefl, if_false]
      rw [if_pos (hmin _ (Or.inr ⟨j, hj, rfl⟩))]
      refine ⟨Or.inr ⟨j, hj, Nat.add_comm _ _⟩, by rw [Nat.add_comm], fun k hk => ?_,
        fun h => absurd h hadded.ne'⟩
      rcases hk with hk | ⟨j', hj', rfl⟩
      · omega
      · exact hle j' hj'
    · obtain ⟨i, hi, heq', hle', -⟩ := torchMax_map_range horg rowLogit
      simp only [if_pos horg, heq', Option.getD_some]
      split_ifs with hlt
      · refine ⟨Or.inr ⟨j, hj, Nat.add_comm _ _⟩, by rw [Nat.add_comm], fun k hk => ?_,
          fun h => absurd h hadded.ne'⟩
        rcases hk with hk | ⟨j', hj', rfl⟩
        · exact (hle' k hk).trans hlt.le
        · exact hle j' hj'
      · refine ⟨Or.inl hi, rfl, fun k hk => ?_, fun h => absurd h hadded.ne'⟩
        rcases hk with hk | ⟨j', hj', rfl⟩
        · exact hle' k hk
        · exact (hle j' hj').trans (not_lt.mp hlt)

/-- A shard without a real row reports the minimum of the dtype. -/
theorem localBest_of_empty (h : ¬∃ i, s.IsRow i) :
    (s.localBest dtypeMin rowLogit).1 = dtypeMin := by
  have horg : ¬0 < s.numOrgElements := fun horg => h ⟨0, Or.inl horg⟩
  have hadded : ¬0 < s.numAddedElements := fun hadded => h ⟨_, Or.inr ⟨0, hadded, rfl⟩⟩
  simp only [ShardIndices.localBest, if_neg horg, if_neg hadded]

end Local

/-! ## The token that is taken -/

section Chosen

variable {H α : Type*} {head : VocabParallelHead H α} {logit : H → ℕ → α}
  {orgVocabSize vocabSize : ℕ}

namespace VocabParallelHead.Shards

theorem le_vocabSize (hs : head.Shards logit orgVocabSize vocabSize) :
    orgVocabSize ≤ vocabSize := by
  have htiles := hs.added_tiles
  cases hshards : head.shards with
  | nil =>
    rw [hshards] at htiles
    exact le_of_eq htiles
  | cons s rest =>
    rw [hshards] at htiles
    have := htiles.range_of_getElem? (r := 0) rfl
    omega

theorem org_range (hs : head.Shards logit orgVocabSize vocabSize) {r : ℕ} {s : ShardIndices}
    (hr : head.shards[r]? = some s) : s.orgVocabStartIndex + s.numOrgElements ≤ orgVocabSize :=
  (hs.org_tiles.range_of_getElem? (by rw [List.getElem?_map, hr]; rfl)).2

theorem added_range (hs : head.Shards logit orgVocabSize vocabSize) {r : ℕ} {s : ShardIndices}
    (hr : head.shards[r]? = some s) : orgVocabSize ≤ s.addedVocabStartIndex ∧
      s.addedVocabStartIndex + s.numAddedElements ≤ vocabSize :=
  hs.added_tiles.range_of_getElem? (by rw [List.getElem?_map, hr]; rfl)

/-- A real row has the logit of its id. -/
theorem globalId_of_isRow (hs : head.Shards logit orgVocabSize vocabSize) {r : ℕ}
    {s : ShardIndices} (hr : head.shards[r]? = some s) {i : ℕ} (hi : s.IsRow i) (h : H) :
    s.globalId i < vocabSize ∧ head.rowLogit r h i = logit h (s.globalId i) := by
  have hle := hs.le_vocabSize
  have horg := hs.org_range hr
  have hadd := hs.added_range hr
  have hpad := hs.org_le_padded s (List.mem_of_getElem? hr)
  unfold ShardIndices.globalId
  rcases hi with hi | ⟨j, hj, rfl⟩
  · split_ifs
    · rw [Nat.add_comm]
      exact ⟨by omega, hs.org_row r s hr h i hi⟩
    · exact ⟨by omega, hs.org_row r s hr h i hi⟩
  · rw [if_neg (by omega), if_neg (by omega), Nat.add_sub_cancel_left]
    exact ⟨by omega, hs.added_row r s hr h j hj⟩

/-- Every id has a real row, at its place in a shard of the base vocabulary or of the added
one. -/
theorem exists_row (hs : head.Shards logit orgVocabSize vocabSize) {v : ℕ} (hv : v < vocabSize)
    (h : H) : ∃ r s i, head.shards[r]? = some s ∧ s.IsRow i ∧ head.rowLogit r h i = logit h v ∧
      (v < orgVocabSize → i < s.numOrgElements ∧ v = s.orgVocabStartIndex + i) := by
  by_cases horg : v < orgVocabSize
  · obtain ⟨r, start, len, hr, hlo, hhi⟩ := hs.org_tiles.exists_mem (Nat.zero_le v) horg
    rw [List.getElem?_map, Option.map_eq_some_iff] at hr
    obtain ⟨s, hr, heq⟩ := hr
    obtain ⟨rfl, rfl⟩ := Prod.mk.inj heq
    obtain ⟨i, rfl⟩ := Nat.exists_eq_add_of_le hlo
    exact ⟨r, s, i, hr, Or.inl (by omega), hs.org_row r s hr h i (by omega), fun _ =>
      ⟨by omega, rfl⟩⟩
  · obtain ⟨r, start, len, hr, hlo, hhi⟩ := hs.added_tiles.exists_mem (not_lt.mp horg) hv
    rw [List.getElem?_map, Option.map_eq_some_iff] at hr
    obtain ⟨s, hr, heq⟩ := hr
    obtain ⟨rfl, rfl⟩ := Prod.mk.inj heq
    obtain ⟨j, rfl⟩ := Nat.exists_eq_add_of_le hlo
    exact ⟨r, s, _, hr, Or.inr ⟨j, by omega, rfl⟩, hs.added_row r s hr h j (by omega),
      fun hlt => absurd hlt horg⟩

/-- Without added ids no shard has one. -/
theorem numAdded_eq_zero (hs : head.Shards logit orgVocabSize orgVocabSize) {r : ℕ}
    {s : ShardIndices} (hr : head.shards[r]? = some s) : s.numAddedElements = 0 := by
  have := hs.added_range hr
  omega

end VocabParallelHead.Shards

variable [LinearOrder α] {dtypeMin : α}

/-- The token taken for a hidden state : a real id with the largest logit, from a shard with a
real row, and the first such id when none is added. -/
structure Chosen (head : VocabParallelHead H α) (dtypeMin : α) (logit : H → ℕ → α)
    (orgVocabSize vocabSize : ℕ) (h : H) : Prop where
  lt_vocabSize : chosenToken head dtypeMin h < vocabSize
  le_chosen : ∀ v < vocabSize, logit h v ≤ logit h (chosenToken head dtypeMin h)
  lt_chosen : vocabSize = orgVocabSize → ∀ v < chosenToken head dtypeMin h,
    logit h v < logit h (chosenToken head dtypeMin h)
  not_empty : ∃ s i, head.shards[bestRank head dtypeMin h]? = some s ∧ s.IsRow i

theorem getElem?_localMaxes (dtypeMin : α) {r : ℕ} {s : ShardIndices}
    (hr : head.shards[r]? = some s) (h : H) :
    (localMaxes head dtypeMin h)[r]? = some (s.localBest dtypeMin (head.rowLogit r h)).1 := by
  rw [localMaxes, List.getElem?_mapIdx, hr]
  rfl

section Best

variable {h : H} {r : ℕ} {s : ShardIndices}

/-- What a rank with a real row reports is the logit of its id, and at least that of its
rows. -/
theorem localBest_of_shards (hs : head.Shards logit orgVocabSize vocabSize)
    (hmin : ∀ v < vocabSize, dtypeMin < logit h v) (hr : head.shards[r]? = some s)
    (hrow : ∃ i, s.IsRow i) :
    LocalBest s (head.rowLogit r h) (s.localBest dtypeMin (head.rowLogit r h)) := by
  refine localBest_spec (fun i hi => ?_) hrow
  obtain ⟨hlt, heq⟩ := hs.globalId_of_isRow hr hi h
  rw [heq]
  exact hmin _ hlt

/-- A shard whose report is the largest has a real row. -/
theorem exists_row_of_max (hs : head.Shards logit orgVocabSize vocabSize) (hvocab : 0 < vocabSize)
    (hmin : ∀ v < vocabSize, dtypeMin < logit h v)
    (hmax : ∀ x ∈ localMaxes head dtypeMin h, x ≤ (s.localBest dtypeMin (head.rowLogit r h)).1) :
    ∃ i, s.IsRow i := by
  by_contra hempty
  obtain ⟨r₀, s₀, i₀, hr₀, hi₀, hlogit, -⟩ := hs.exists_row hvocab h
  have hbest := localBest_of_shards hs hmin hr₀ ⟨i₀, hi₀⟩
  have hle := hmax _ (List.mem_of_getElem? (getElem?_localMaxes _ hr₀ h))
  rw [localBest_of_empty hempty] at hle
  have hlt := (hmin 0 hvocab).trans_le (hlogit.symm.trans_le (hbest.le_best i₀ hi₀))
  exact absurd hle (not_le.mpr hlt)

end Best

theorem chosenToken_spec (hs : head.Shards logit orgVocabSize vocabSize) (hvocab : 0 < vocabSize)
    {h : H} (hmin : ∀ v < vocabSize, dtypeMin < logit h v) :
    Chosen head dtypeMin logit orgVocabSize vocabSize h := by
  obtain ⟨r₀, s₀, i₀, hr₀, -⟩ := hs.exists_row hvocab h
  obtain ⟨m, r, hargmax, hmax⟩ := torchMax_spec
    (List.ne_nil_of_mem (List.mem_of_getElem? (getElem?_localMaxes dtypeMin hr₀ h)))
  obtain ⟨s, hr⟩ : ∃ s, head.shards[r]? = some s := by
    have hlt := (List.getElem?_eq_some_iff.mp hmax.at_index).1
    rw [localMaxes, List.length_mapIdx] at hlt
    exact ⟨_, List.getElem?_eq_getElem hlt⟩
  obtain rfl : (s.localBest dtypeMin (head.rowLogit r h)).1 = m := by
    have hat := hmax.at_index
    rw [getElem?_localMaxes _ hr h] at hat
    exact Option.some.inj hat
  have hrank : bestRank head dtypeMin h = r := by
    rw [bestRank, hargmax]
    rfl
  have hrow := exists_row_of_max hs hvocab hmin hmax.le_max
  have hbest := localBest_of_shards hs hmin hr hrow
  obtain ⟨hlt, hlogit⟩ := hs.globalId_of_isRow hr hbest.isRow h
  have hchosen : chosenToken head dtypeMin h =
      s.globalId (s.localBest dtypeMin (head.rowLogit r h)).2 := by
    rw [chosenToken, hrank, List.getD_eq_getElem?_getD, List.getElem?_mapIdx, hr]
    rfl
  rw [hbest.at_row] at hlogit
  -- The logit of an id is at most what its rank reports.
  have hrank_le : ∀ {r' : ℕ} {s' : ShardIndices} {i' : ℕ}, head.shards[r']? = some s' →
      s'.IsRow i' → head.rowLogit r' h i' ≤ (s'.localBest dtypeMin (head.rowLogit r' h)).1 :=
    fun hr' hi' => (localBest_of_shards hs hmin hr' ⟨_, hi'⟩).le_best _ hi'
  refine ⟨hchosen ▸ hlt, fun v hv => ?_, fun hsize v hv => ?_, ?_⟩
  · obtain ⟨r', s', i', hr', hi', hv', -⟩ := hs.exists_row hv h
    rw [hchosen, ← hlogit, ← hv']
    exact (hrank_le hr' hi').trans
      (hmax.le_max _ (List.mem_of_getElem? (getElem?_localMaxes _ hr' h)))
  · subst hsize
    rw [hchosen] at hv ⊢
    have hzero := hs.numAdded_eq_zero hr
    have hfirst : (s.localBest dtypeMin (head.rowLogit r h)).2 < s.numOrgElements := by
      rcases hbest.isRow with hi | ⟨j, hj, -⟩
      · exact hi
      · omega
    rw [ShardIndices.globalId, if_pos hzero] at hv
    have horg := hs.org_range hr
    obtain ⟨r', s', i', hr', hi', hv', hplace⟩ := hs.exists_row (show v < vocabSize by omega) h
    obtain ⟨hi'', rfl⟩ := hplace (by omega)
    rw [← hlogit, ← hv']
    rcases Nat.lt_trichotomy r' r with hlt' | rfl | hgt
    · exact (hrank_le hr' hi').trans_lt (hmax.lt_max r' hlt' _ (getElem?_localMaxes _ hr' h))
    · obtain rfl : s = s' := Option.some.inj (hr.symm.trans hr')
      exact hbest.lt_best hzero i' (by omega)
    · have hafter := hs.org_tiles.end_le_start hgt
        (by rw [List.getElem?_map, hr]; rfl) (by rw [List.getElem?_map, hr']; rfl)
      omega
  · rw [hrank]
    obtain ⟨i, hi⟩ := hrow
    exact ⟨s, i, hr, hi⟩

/-! ## The paths -/

theorem viewBlocks_gathered {β : Type*} (shards : List ShardIndices) (hs : List H)
    (f : ℕ → ShardIndices → H → β) :
    viewBlocks shards.length hs.length (shards.mapIdx fun r s => hs.map (f r s)).flatten =
      shards.mapIdx fun r s => hs.map (f r s) := by
  have hlen : (shards.mapIdx fun r s => hs.map (f r s)).length = shards.length :=
    List.length_mapIdx
  rw [← hlen]
  refine viewBlocks_flatten fun row hrow => ?_
  obtain ⟨r, hr, rfl⟩ := List.mem_mapIdx.mp hrow
  rw [List.length_map]

/-- Gathering and cutting keeps the tokens of a chunk apart. -/
theorem generalChunk_eq (head : VocabParallelHead H α) (dtypeMin : α) (hs : List H) :
    generalChunk head dtypeMin hs = hs.map (chosenToken head dtypeMin) := by
  unfold generalChunk
  simp only
  split_ifs with hone
  · obtain ⟨s, hshards⟩ := List.length_eq_one_iff.mp hone
    simp [hshards, chosenToken, bestRank, localMaxes, torchMax]
  · rw [viewBlocks_gathered, viewBlocks_gathered]
    refine List.ext_getElem (by simp) fun t h₁ h₂ => ?_
    have ht : t < hs.length := by simpa using h₂
    have hcolumn : ((head.shards.mapIdx fun r s => hs.map fun h =>
        (s.localBest dtypeMin (head.rowLogit r h)).1).map fun row => row.getD t dtypeMin) =
          localMaxes head dtypeMin hs[t] := by
      refine List.ext_getElem? fun r => ?_
      simp only [localMaxes, List.getElem?_map, List.getElem?_mapIdx, Option.map_map]
      refine congrArg (fun f => (head.shards[r]?).map f) (funext fun s => ?_)
      simp only [Function.comp_apply, List.getD_eq_getElem?_getD, List.getElem?_map,
        List.getElem?_eq_getElem ht, Option.map_some, Option.getD_some]
    have hid : ∀ r, ((head.shards.mapIdx fun r s => hs.map fun h =>
        s.globalId (s.localBest dtypeMin (head.rowLogit r h)).2).getD r []).getD t 0 =
          (head.shards.mapIdx fun r s =>
            s.globalId (s.localBest dtypeMin (head.rowLogit r hs[t])).2).getD r 0 := by
      intro r
      simp only [List.getD_eq_getElem?_getD, List.getElem?_mapIdx]
      cases head.shards[r]? with
      | none => rfl
      | some s =>
        simp only [Option.map_some, Option.getD_some, List.getElem?_map,
          List.getElem?_eq_getElem ht]
    rw [List.getElem_map, List.getElem_range, List.getElem_map, hcolumn, hid]
    rfl

/-- On a single rank without added ids, both paths take the same tokens. -/
theorem fastChunk_eq_generalChunk {s : ShardIndices} (hshards : head.shards = [s])
    (hsharded : head.Shards logit orgVocabSize vocabSize) (hadded : s.numAddedElements = 0)
    (dtypeMin : α) (hs : List H) :
    fastChunk head s hs = generalChunk head dtypeMin hs := by
  have hstart : s.orgVocabStartIndex = 0 := by
    have htiles := hsharded.org_tiles
    rw [hshards] at htiles
    exact htiles.1
  rw [generalChunk_eq, fastChunk]
  refine List.map_congr_left fun h _ => ?_
  have hchosen : chosenToken head dtypeMin h =
      s.globalId (s.localBest dtypeMin (head.rowLogit 0 h)).2 := by
    simp [chosenToken, bestRank, localMaxes, torchMax, hshards]
  rw [hchosen, ShardIndices.globalId, if_pos hadded, ShardIndices.localBest]
  by_cases horg : 0 < s.numOrgElements
  · obtain ⟨i, -, heq, -⟩ := torchMax_map_range horg (head.rowLogit 0 h)
    simp [horg, hadded, heq]
  · simp [horg, hadded, hstart]

/-- The worker samples each hidden state's token. -/
theorem greedySample_eq (hs : head.Shards logit orgVocabSize vocabSize) (dtypeMin : α)
    {chunkSize : ℕ} (hchunk : 1 ≤ chunkSize) (hiddenStates : List H) :
    greedySampleFromVocabParallelHead head dtypeMin chunkSize hiddenStates =
      hiddenStates.map (chosenToken head dtypeMin) := by
  have hgeneral : forChunks chunkSize (generalChunk head dtypeMin) hiddenStates =
      hiddenStates.map (chosenToken head dtypeMin) := by
    rw [show generalChunk head dtypeMin = fun chunk => chunk.map (chosenToken head dtypeMin) from
      funext (generalChunk_eq head dtypeMin), forChunks_map hchunk]
  unfold greedySampleFromVocabParallelHead
  split
  · rename_i s hshards
    split_ifs with hadded
    · rw [show fastChunk head s = generalChunk head dtypeMin from
        funext (fastChunk_eq_generalChunk hshards hs hadded dtypeMin), hgeneral]
    · exact hgeneral
  · exact hgeneral

theorem Chosen.unique {head' : VocabParallelHead H α} {h : H}
    (h₁ : Chosen head dtypeMin logit vocabSize vocabSize h)
    (h₂ : Chosen head' dtypeMin logit vocabSize vocabSize h) :
    chosenToken head' dtypeMin h = chosenToken head dtypeMin h := by
  rcases Nat.lt_trichotomy (chosenToken head' dtypeMin h) (chosenToken head dtypeMin h) with
    hlt | heq | hgt
  · exact absurd (h₁.lt_chosen rfl _ hlt) (not_lt.mpr (h₂.le_chosen _ h₁.lt_vocabSize))
  · exact heq
  · exact absurd (h₂.lt_chosen rfl _ hgt) (not_lt.mpr (h₁.le_chosen _ h₂.lt_vocabSize))

/-- The worker's token for a hidden state is a real id with the largest logit, from a shard with
real rows ; without added ids it is the first one, whatever the shards and the chunks. The fast
path takes the tokens of the general one. -/
theorem greedy_sample_maximises (hs : head.Shards logit orgVocabSize vocabSize)
    (hvocab : 0 < vocabSize) {hiddenStates : List H}
    (hmin : ∀ h ∈ hiddenStates, ∀ v < vocabSize, dtypeMin < logit h v) {chunkSize : ℕ}
    (hchunk : 1 ≤ chunkSize) :
    greedySampleFromVocabParallelHead head dtypeMin chunkSize hiddenStates =
      hiddenStates.map (chosenToken head dtypeMin) ∧
    (∀ h ∈ hiddenStates, Chosen head dtypeMin logit orgVocabSize vocabSize h) ∧
    (vocabSize = orgVocabSize → ∀ (head' : VocabParallelHead H α) (chunkSize' : ℕ),
      head'.Shards logit orgVocabSize vocabSize → 1 ≤ chunkSize' →
      greedySampleFromVocabParallelHead head' dtypeMin chunkSize' hiddenStates =
        greedySampleFromVocabParallelHead head dtypeMin chunkSize hiddenStates) ∧
    ∀ s, head.shards = [s] → s.numAddedElements = 0 →
      forChunks chunkSize (fastChunk head s) hiddenStates =
        forChunks chunkSize (generalChunk head dtypeMin) hiddenStates := by
  refine ⟨greedySample_eq hs dtypeMin hchunk hiddenStates,
    fun h hh => chosenToken_spec hs hvocab (hmin h hh),
    fun hsize head' chunkSize' hs' hchunk' => ?_, fun s hshards hadded => ?_⟩
  · subst hsize
    rw [greedySample_eq hs' dtypeMin hchunk', greedySample_eq hs dtypeMin hchunk]
    exact List.map_congr_left fun h hh =>
      (chosenToken_spec hs hvocab (hmin h hh)).unique (chosenToken_spec hs' hvocab (hmin h hh))
  · rw [show fastChunk head s = generalChunk head dtypeMin from
      funext (fastChunk_eq_generalChunk hshards hs hadded dtypeMin)]

end Chosen

/-! ## The shards of a layer -/

/-- Ranges of one length, cut off at `vocabSize`. -/
theorem tiles_cut (per offset vocabSize : ℕ) : ∀ (n k : ℕ),
    Tiles (min (k * per + offset) vocabSize) ((List.range' k n).map fun r =>
      (min (r * per + offset) vocabSize, min (r * per + per + offset) vocabSize -
        min (r * per + offset) vocabSize)) (min ((k + n) * per + offset) vocabSize)
  | 0, k => by simp [Tiles]
  | n + 1, k => by
    rw [List.range'_succ, List.map_cons]
    have ih := tiles_cut per offset vocabSize n (k + 1)
    rw [Nat.succ_mul, show k + 1 + n = k + (n + 1) by omega] at ih
    refine ⟨rfl, ?_⟩
    rwa [show min (k * per + offset) vocabSize + (min (k * per + per + offset) vocabSize -
      min (k * per + offset) vocabSize) = min (k * per + per + offset) vocabSize by omega]

/-- The head of a layer whose rank `r` loads the rows of its shard. -/
def layerHead {H α : Type*} (logit : H → ℕ → α) (padding : α)
    (vocabSizePadded orgVocabSizePadded vocabSize orgVocabSize tpSize : ℕ) :
    VocabParallelHead H α where
  shards := (List.range tpSize).map fun tpRank =>
    getIndices vocabSizePadded orgVocabSizePadded vocabSize orgVocabSize tpRank tpSize
  rowLogit := fun tpRank h i =>
    let s := getIndices vocabSizePadded orgVocabSizePadded vocabSize orgVocabSize tpRank tpSize
    if i < s.numOrgElements then logit h (s.orgVocabStartIndex + i)
    else if s.numOrgElementsPadded ≤ i ∧ i < s.numOrgElementsPadded + s.numAddedElements then
      logit h (s.addedVocabStartIndex + (i - s.numOrgElementsPadded))
    else padding

/-- The shards of a layer tile its vocabulary. -/
theorem layerHead_shards {H α : Type*} (logit : H → ℕ → α) (padding : α)
    {vocabSizePadded orgVocabSizePadded vocabSize orgVocabSize tpSize : ℕ}
    (horg : tpSize ∣ orgVocabSizePadded) (hadded : tpSize ∣ vocabSizePadded - orgVocabSizePadded)
    (hle : orgVocabSize ≤ orgVocabSizePadded) (hvocab : orgVocabSize ≤ vocabSize)
    (hroom : vocabSize - orgVocabSize ≤ vocabSizePadded - orgVocabSizePadded) :
    (layerHead logit padding vocabSizePadded orgVocabSizePadded vocabSize orgVocabSize
      tpSize).Shards logit orgVocabSize vocabSize := by
  have hshard : ∀ r s, (layerHead logit padding vocabSizePadded orgVocabSizePadded vocabSize
      orgVocabSize tpSize).shards[r]? = some s → s = getIndices vocabSizePadded orgVocabSizePadded
        vocabSize orgVocabSize r tpSize := fun r s hr => by
    rw [layerHead, List.getElem?_map, Option.map_eq_some_iff] at hr
    obtain ⟨i, hi, rfl⟩ := hr
    rw [(List.getElem?_eq_some_iff.mp hi).2.symm, List.getElem_range]
  have hpadded : ∀ r, (getIndices vocabSizePadded orgVocabSizePadded vocabSize orgVocabSize r
      tpSize).numOrgElements ≤ (getIndices vocabSizePadded orgVocabSizePadded vocabSize
        orgVocabSize r tpSize).numOrgElementsPadded := fun r => by
    simp only [getIndices]
    omega
  refine ⟨?_, ?_, fun s hs => ?_, fun r s hr h i hi => ?_, fun r s hr h j hj => ?_⟩
  · have htiles := tiles_cut (orgVocabSizePadded / tpSize) 0 orgVocabSize tpSize 0
    have hhi : min ((0 + tpSize) * (orgVocabSizePadded / tpSize) + 0) orgVocabSize =
        orgVocabSize := by
      rw [Nat.zero_add, Nat.mul_div_cancel' horg]
      omega
    rw [hhi, Nat.zero_mul, Nat.zero_add, Nat.zero_min, ← List.range_eq_range'] at htiles
    rw [layerHead, List.map_map]
    exact htiles
  · have htiles := tiles_cut ((vocabSizePadded - orgVocabSizePadded) / tpSize) orgVocabSize
      vocabSize tpSize 0
    have hhi : min ((0 + tpSize) * ((vocabSizePadded - orgVocabSizePadded) / tpSize) +
        orgVocabSize) vocabSize = vocabSize := by
      rw [Nat.zero_add, Nat.mul_div_cancel' hadded]
      omega
    rw [hhi, Nat.zero_mul, Nat.zero_add, Nat.min_eq_left hvocab, ← List.range_eq_range'] at htiles
    rw [layerHead, List.map_map]
    exact htiles
  · obtain ⟨r, -, rfl⟩ := List.mem_map.mp hs
    exact hpadded r
  · obtain rfl := hshard r s hr
    exact if_pos hi
  · obtain rfl := hshard r s hr
    have hle' := hpadded r
    simp only [layerHead]
    rw [if_neg (by omega), if_pos (by omega), Nat.add_sub_cancel_left]

/-- Logits of four ids, the last of them added. -/
def fourLogits (h v : ℕ) : ℤ := ((h + 3 * v) % 5 : ℕ)

/-- Two ranks : the first holds two base ids and the added one, the second a base id and
padding. -/
theorem greedy_sample_two_ranks :
    greedySampleFromVocabParallelHead (layerHead fourLogits 100 6 4 4 3 2) (-1) 2 [0, 1, 2] =
      [3, 1, 2] ∧
    ∀ h ∈ [0, 1, 2], Chosen (layerHead fourLogits 100 6 4 4 3 2) (-1) fourLogits 3 4 h := by
  have hs : (layerHead fourLogits 100 6 4 4 3 2).Shards fourLogits 3 4 :=
    layerHead_shards fourLogits 100 (by decide) (by decide) (by decide) (by decide) (by decide)
  have hmin : ∀ h ∈ [0, 1, 2], ∀ v < 4, -1 < fourLogits h v := by
    intro h _ v _
    unfold fourLogits
    omega
  obtain ⟨heq, hchosen, -⟩ := greedy_sample_maximises hs (by decide) hmin (Nat.le_succ 1)
  exact ⟨heq.trans (by decide), hchosen⟩

end DraftOpd
