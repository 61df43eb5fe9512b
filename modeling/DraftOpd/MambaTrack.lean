import Mathlib.Order.Nat
import Mathlib.Data.List.GetD

/-!
# Mamba states of the prefix cache

With a Mamba target, the state at a multiple of `mamba_track_interval` is kept for the prefix
cache. After a verify step the worker saves the state of one of the committed steps
(`dflash_worker.py:1185-1229`), and the scheduler notes the length it belongs to
(`scheduler_output_processor_mixin.py:516-548`). Each decides on its own whether the step
crossed a multiple.

The worker compares the lengths before and after the step, but the spec-v2 caller passes the
length before the step for both. The scheduler subtracts the accepted drafts, one less than the
committed tokens. `mambaAgrees_iff` says which steps they agree on : those that cross no
multiple, and for the spec-v1 caller those that cross one behind their first token too.
-/

namespace DraftOpd

/-! ## The scheduler -/

/-- What the Mamba tracking reads and writes of a request. -/
structure MambaReq where
  originInputLen : ℕ
  outputLen : ℕ
  mambaPingPongTrackBuffer : Option (List ℕ)
  mambaNextTrackIdx : ℕ
  mambaLastTrackSeqlen : Option ℕ

namespace MambaReq

/-- `seqlen`. -/
def seqlen (req : MambaReq) : ℕ := req.originInputLen + req.outputLen

/-- `output_ids.extend` of the committed tokens. -/
def commit (req : MambaReq) (commitLen : ℕ) : MambaReq :=
  { req with outputLen := req.outputLen + commitLen }

/-- The length that `_mamba_prefix_cache_update` sets, if it sets one. -/
def trackPoint (req : MambaReq) (specAlgorithmIsNone : Bool) (mambaTrackInterval : ℕ)
    (acceptLength : Option ℕ) : Option ℕ :=
  let seqLen := req.originInputLen + req.outputLen - 1
  if req.mambaPingPongTrackBuffer.isNone then none
  else if specAlgorithmIsNone ∧ seqLen % mambaTrackInterval = 0 then some seqLen
  else if specAlgorithmIsNone then none
  else acceptLength.bind fun acceptLength =>
    let actualSeqLen := req.seqlen - 1
    if actualSeqLen / mambaTrackInterval ≠ (actualSeqLen - acceptLength) / mambaTrackInterval then
      some (actualSeqLen / mambaTrackInterval * mambaTrackInterval)
    else none

/-- `_mamba_prefix_cache_update` (`scheduler_output_processor_mixin.py:516-548`). -/
def mambaPrefixCacheUpdate (req : MambaReq) (specAlgorithmIsNone : Bool)
    (mambaTrackInterval trackBufferSize : ℕ) (acceptLength : Option ℕ) : MambaReq :=
  match req.trackPoint specAlgorithmIsNone mambaTrackInterval acceptLength with
  | none => req
  | some seqLen =>
    { req with
      mambaNextTrackIdx :=
        if trackBufferSize = 2 then 1 - req.mambaNextTrackIdx else req.mambaNextTrackIdx
      mambaLastTrackSeqlen := some seqLen }

/-- After a verify step that accepted `acceptLength` drafts, the scheduler sets
`mamba_last_track_seqlen`, whatever it was. -/
def Sets (req : MambaReq) (mambaTrackInterval acceptLength seqLen : ℕ) : Prop :=
  ∀ trackBufferSize last, ({ req with mambaLastTrackSeqlen := last }.mambaPrefixCacheUpdate false
    mambaTrackInterval trackBufferSize (some acceptLength)).mambaLastTrackSeqlen = some seqLen

theorem sets_iff {req : MambaReq} {mambaTrackInterval acceptLength seqLen : ℕ} :
    req.Sets mambaTrackInterval acceptLength seqLen ↔
      req.trackPoint false mambaTrackInterval (some acceptLength) = some seqLen := by
  have hupdate : ∀ trackBufferSize last, ({ req with mambaLastTrackSeqlen := last
      }.mambaPrefixCacheUpdate false mambaTrackInterval trackBufferSize
        (some acceptLength)).mambaLastTrackSeqlen
          = (req.trackPoint false mambaTrackInterval (some acceptLength)).or last := by
    intro trackBufferSize last
    have hpoint : { req with mambaLastTrackSeqlen := last }.trackPoint false mambaTrackInterval
        (some acceptLength) = req.trackPoint false mambaTrackInterval (some acceptLength) := rfl
    rw [mambaPrefixCacheUpdate, hpoint]
    cases req.trackPoint false mambaTrackInterval (some acceptLength) <;> rfl
  constructor
  · intro h
    have hset := h 1 none
    rwa [hupdate, Option.or_none] at hset
  · intro h trackBufferSize last
    rw [hupdate, h, Option.some_or]

end MambaReq

/-! ## The worker -/

/-- What is passed to `update_mamba_state_after_mtp_verify`. -/
structure MambaSteps where
  acceptedSteps : List ℤ
  mambaStepsToTrack : Option (List ℤ)

/-- The step of a request whose state is saved, `-1` for none. -/
def mambaStepToTrack (mambaTrackInterval seqLenPreVerify seqLen commitLen : ℕ) : ℤ :=
  let trackingPoint := seqLen / mambaTrackInterval * mambaTrackInterval
  -- the truncated difference is the clamp at zero
  let toTrackIth := trackingPoint - seqLenPreVerify - 1
  if seqLenPreVerify / mambaTrackInterval ≠ seqLen / mambaTrackInterval ∧ toTrackIth < commitLen
  then toTrackIth else -1

/-- A request of the batch and what it commits. -/
structure MambaRow where
  req : MambaReq
  seqLenPreVerify : ℕ
  commitLen : ℕ
  /-- All tokens but the last are in the cache. -/
  seqlen_eq : req.seqlen = seqLenPreVerify + 1
  buffered : req.mambaPingPongTrackBuffer.isSome = true

/-- `_update_target_mamba_state_after_verify` (`dflash_worker.py:1185-1229`) : `seqLen` is what
the caller's batch holds. -/
def updateTargetMambaStateAfterVerify (mambaTrackInterval : ℕ)
    (mambaTrackIndices : Option (List ℕ)) (seqLen : MambaRow → ℕ) (rows : List MambaRow) :
    MambaSteps where
  acceptedSteps := rows.map fun row => (row.commitLen : ℤ) - 1
  mambaStepsToTrack := mambaTrackIndices.map fun _ => rows.map fun row =>
    mambaStepToTrack mambaTrackInterval row.seqLenPreVerify (seqLen row) row.commitLen

/-- `fused_mamba_state_scatter_with_mask` saves the state of this step of request `i`. -/
def MambaSteps.Saves (steps : MambaSteps) (i step : ℕ) : Prop :=
  ∃ stepIndices ∈ steps.mambaStepsToTrack, stepIndices[i]? = some (step : ℤ)

/-- `DFlashWorker` has advanced `batch.seq_lens` (`dflash_worker.py:1322-1350`). -/
def workerSteps (mambaTrackInterval : ℕ) (mambaTrackIndices : List ℕ) (rows : List MambaRow) :
    MambaSteps :=
  updateTargetMambaStateAfterVerify mambaTrackInterval (some mambaTrackIndices)
    (fun row => row.seqLenPreVerify + row.commitLen) rows

/-- `DFlashWorkerV2` passes the batch it verified (`dflash_worker_v2.py:472-478`). -/
def workerV2Steps (mambaTrackInterval : ℕ) (mambaTrackIndices : List ℕ) (rows : List MambaRow) :
    MambaSteps :=
  updateTargetMambaStateAfterVerify mambaTrackInterval (some mambaTrackIndices)
    (fun row => row.seqLenPreVerify) rows

/-! ## Agreement -/

/-- The length the scheduler sets for request `i` is that of the state the worker saved. -/
def MambaAgrees (mambaTrackInterval : ℕ) (row : MambaRow) (steps : MambaSteps) (i : ℕ) : Prop :=
  ∀ seqLen, (row.req.commit row.commitLen).Sets mambaTrackInterval (row.commitLen - 1) seqLen ↔
    ∃ step, steps.Saves i step ∧ row.seqLenPreVerify + step + 1 = seqLen

variable {I : ℕ} {row : MambaRow} {rows : List MambaRow} {i : ℕ}

/-- The scheduler compares the end of the block with its first token. -/
theorem trackPoint_commit (I : ℕ) {row : MambaRow} (hc : 1 ≤ row.commitLen) :
    (row.req.commit row.commitLen).trackPoint false I (some (row.commitLen - 1)) =
      if (row.seqLenPreVerify + row.commitLen) / I ≠ (row.seqLenPreVerify + 1) / I then
        some ((row.seqLenPreVerify + row.commitLen) / I * I) else none := by
  have hbuffer : (row.req.commit row.commitLen).mambaPingPongTrackBuffer.isNone = false := by
    rw [Option.isNone_eq_false_iff]
    exact row.buffered
  have hlen : (row.req.commit row.commitLen).seqlen - 1 =
      row.seqLenPreVerify + row.commitLen := by
    have := row.seqlen_eq
    simp only [MambaReq.seqlen, MambaReq.commit] at this ⊢
    omega
  have hfirst : row.seqLenPreVerify + row.commitLen - (row.commitLen - 1) =
      row.seqLenPreVerify + 1 := by omega
  simp only [MambaReq.trackPoint, hbuffer, Bool.false_eq_true, false_and, if_false,
    Option.bind_some, hlen, hfirst]

theorem saves_iff {trackIndices : List ℕ} {seqLen : MambaRow → ℕ} {step : ℕ}
    (hrow : rows[i]? = some row) :
    (updateTargetMambaStateAfterVerify I (some trackIndices) seqLen rows).Saves i step ↔
      mambaStepToTrack I row.seqLenPreVerify (seqLen row) row.commitLen = step := by
  simp only [MambaSteps.Saves, updateTargetMambaStateAfterVerify, Option.map_some,
    Option.mem_def, Option.some.injEq, exists_eq_left', List.getElem?_map, hrow]

/-- The worker saves the state of the last multiple the step crosses. -/
theorem mambaStepToTrack_advanced (hI : 1 ≤ I) (L c step : ℕ) :
    mambaStepToTrack I L (L + c) c = step ↔
      L / I ≠ (L + c) / I ∧ L + step + 1 = (L + c) / I * I := by
  have hend := Nat.div_mul_le_self (L + c) I
  unfold mambaStepToTrack
  by_cases hcross : L / I = (L + c) / I
  · rw [if_neg fun h => h.1 hcross]
    refine ⟨fun h => ?_, fun h => absurd hcross h.1⟩
    omega
  · have hlt : L / I < (L + c) / I :=
      lt_of_le_of_ne (Nat.div_le_div_right (Nat.le_add_right L c)) hcross
    have hpoint : L < (L + c) / I * I := (Nat.div_lt_iff_lt_mul hI).mp hlt
    rw [if_pos ⟨hcross, by omega⟩]
    constructor
    · intro heq
      exact ⟨hcross, by omega⟩
    · rintro ⟨-, heq⟩
      omega

theorem mambaStepToTrack_same (L c : ℕ) : mambaStepToTrack I L L c = -1 := by
  simp [mambaStepToTrack]

/-- The first token ends at a multiple or crosses none. -/
theorem div_succ_ne_iff (I L : ℕ) : (L + 1) / I ≠ L / I ↔ I ∣ L + 1 := by
  rw [Nat.succ_div]
  split_ifs with h
  · simp [h]
  · simp [h]

/-- The steps for which the spec-v1 worker agrees with the scheduler. -/
theorem agrees_worker_iff (hI : 1 ≤ I) (hc : 1 ≤ row.commitLen) (hrow : rows[i]? = some row)
    (trackIndices : List ℕ) :
    MambaAgrees I row (workerSteps I trackIndices rows) i ↔
      (I ∣ row.seqLenPreVerify + 1 →
        (row.seqLenPreVerify + row.commitLen) / I ≠ (row.seqLenPreVerify + 1) / I) := by
  simp only [MambaAgrees, MambaReq.sets_iff, trackPoint_commit I hc, workerSteps, saves_iff hrow,
    mambaStepToTrack_advanced hI]
  generalize row.seqLenPreVerify = L at *
  generalize row.commitLen = c at *
  rw [← div_succ_ne_iff]
  have hfirst : L / I ≤ (L + 1) / I := Nat.div_le_div_right (Nat.le_succ L)
  have hrest : (L + 1) / I ≤ (L + c) / I := Nat.div_le_div_right (by omega)
  constructor
  · intro hagree hne hend
    -- the worker saves the state of the first token, the scheduler sets nothing
    have hsaved : L / I ≠ (L + c) / I := fun heq => hne (by omega)
    have hpoint : L < (L + c) / I * I :=
      (Nat.div_lt_iff_lt_mul hI).mp (lt_of_le_of_ne (hfirst.trans hrest) hsaved)
    have hset := (hagree ((L + c) / I * I)).mpr
      ⟨(L + c) / I * I - L - 1, ⟨hsaved, by omega⟩, by omega⟩
    rw [if_neg (not_not.mpr hend)] at hset
    cases hset
  · intro hne seqLen
    by_cases hend : (L + c) / I = (L + 1) / I
    · have hsame : L / I = (L + c) / I := by
        by_contra hcross
        exact hne (fun heq => hcross (by omega)) hend
      rw [if_neg (not_not.mpr hend)]
      refine ⟨fun h => (by cases h), ?_⟩
      rintro ⟨step, ⟨hcross, -⟩, -⟩
      exact absurd hsame hcross
    · have hcross : L / I < (L + c) / I := hfirst.trans_lt (lt_of_le_of_ne hrest (Ne.symm hend))
      have hpoint : L < (L + c) / I * I := (Nat.div_lt_iff_lt_mul hI).mp hcross
      rw [if_pos hend, Option.some.injEq]
      constructor
      · rintro rfl
        exact ⟨(L + c) / I * I - L - 1, ⟨hcross.ne, by omega⟩, by omega⟩
      · rintro ⟨step, ⟨-, heq⟩, rfl⟩
        exact heq.symm

/-- The steps for which the spec-v2 worker agrees with the scheduler. -/
theorem agrees_workerV2_iff (hc : 1 ≤ row.commitLen) (hrow : rows[i]? = some row)
    (trackIndices : List ℕ) :
    MambaAgrees I row (workerV2Steps I trackIndices rows) i ↔
      (row.seqLenPreVerify + row.commitLen) / I = (row.seqLenPreVerify + 1) / I := by
  simp only [MambaAgrees, MambaReq.sets_iff, trackPoint_commit I hc, workerV2Steps, saves_iff hrow,
    mambaStepToTrack_same]
  constructor
  · intro hagree
    by_contra hne
    rw [if_pos hne] at hagree
    obtain ⟨step, hstep, -⟩ := (hagree _).mp rfl
    omega
  · intro hend seqLen
    rw [if_neg (not_not.mpr hend)]
    refine ⟨fun h => (by cases h), ?_⟩
    rintro ⟨step, hstep, -⟩
    omega

/-- The workers and the scheduler agree on a verify step exactly when it crosses no multiple of
the interval. The spec-v1 worker also agrees on a step that crosses one behind its first token,
the spec-v2 worker on one whose first token ends at the only multiple. -/
theorem mambaAgrees_iff (hI : 1 ≤ I) (hc : 1 ≤ row.commitLen) (hrow : rows[i]? = some row)
    (trackIndices : List ℕ) :
    (MambaAgrees I row (workerSteps I trackIndices rows) i ∧
        MambaAgrees I row (workerV2Steps I trackIndices rows) i ↔
      (row.seqLenPreVerify + row.commitLen) / I = row.seqLenPreVerify / I) ∧
    (MambaAgrees I row (workerSteps I trackIndices rows) i ↔
      (I ∣ row.seqLenPreVerify + 1 →
        (row.seqLenPreVerify + row.commitLen) / I ≠ (row.seqLenPreVerify + 1) / I)) ∧
    (MambaAgrees I row (workerV2Steps I trackIndices rows) i ↔
      (row.seqLenPreVerify + row.commitLen) / I = (row.seqLenPreVerify + 1) / I) := by
  have hworker := agrees_worker_iff hI hc hrow trackIndices
  have hworkerV2 := agrees_workerV2_iff (I := I) hc hrow trackIndices
  refine ⟨?_, hworker, hworkerV2⟩
  have hfirst : row.seqLenPreVerify / I ≤ (row.seqLenPreVerify + 1) / I :=
    Nat.div_le_div_right (Nat.le_succ _)
  have hrest : (row.seqLenPreVerify + 1) / I ≤ (row.seqLenPreVerify + row.commitLen) / I :=
    Nat.div_le_div_right (by omega)
  rw [hworker, hworkerV2, ← div_succ_ne_iff]
  constructor
  · rintro ⟨hne, hend⟩
    rw [hend]
    exact not_not.mp fun hcross => hne hcross hend
  · intro hsame
    exact ⟨fun hne => absurd (by omega) hne, by omega⟩

/-- A request of three cached tokens that commits one, tracked every four. -/
def boundaryRow : MambaRow :=
  ⟨⟨2, 2, some [0, 1], 0, none⟩, 3, 1, rfl, rfl⟩

/-- A request of four cached tokens that commits two, tracked every four. -/
def insideRow : MambaRow :=
  ⟨⟨2, 3, some [0, 1], 0, none⟩, 4, 2, rfl, rfl⟩

/-- A request of two cached tokens that commits three, tracked every four. -/
def crossingRow : MambaRow :=
  ⟨⟨2, 1, some [0, 1], 0, none⟩, 2, 3, rfl, rfl⟩

/-- They agree on a step from `4` to `6`. -/
theorem mambaAgrees_insideRow :
    MambaAgrees 4 insideRow (workerSteps 4 [0] [insideRow]) 0 ∧
      MambaAgrees 4 insideRow (workerV2Steps 4 [0] [insideRow]) 0 := by
  have hrow : [insideRow][0]? = some insideRow := rfl
  exact (mambaAgrees_iff (by decide) (by decide) hrow [0]).1.mpr (by decide)

/-- On a step from `3` to `4` the spec-v1 worker saves the state at `4` and the scheduler sets
nothing. On a step from `2` to `5` the scheduler sets `4` and the spec-v2 worker saves nothing. -/
theorem not_mambaAgrees_at_multiple :
    ¬MambaAgrees 4 boundaryRow (workerSteps 4 [0] [boundaryRow]) 0 ∧
      ¬MambaAgrees 4 crossingRow (workerV2Steps 4 [0] [crossingRow]) 0 := by
  constructor
  · intro hagree
    have hset := (hagree 4).mpr ⟨0, ⟨[0], rfl, rfl⟩, rfl⟩
    exact absurd (MambaReq.sets_iff.mp hset) (by decide)
  · intro hagree
    obtain ⟨step, ⟨stepIndices, hindices, hstep⟩, -⟩ :=
      (hagree 4).mp (MambaReq.sets_iff.mpr (by decide))
    obtain rfl := Option.some.inj hindices
    have hnone : (-1 : ℤ) = step := Option.some.inj hstep
    omega

end DraftOpd
