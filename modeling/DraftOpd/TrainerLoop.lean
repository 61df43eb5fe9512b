import DraftOpd.TensorOps
import Mathlib.Data.Rat.Floor

/-!
# The training loop

`fit` generates one raw rollout batch a step, collects `update_accumulation_steps` of them and
trains on them at once, saves checkpoints, and syncs the weights with the rollout replicas. A run
is the list of what it does (`FitEvent`), for a data loader and the checkpoint it starts from.

* Every raw batch is generated for and trained on once and in order, in groups of
  `update_accumulation_steps` with a shorter one at the last step, as many as the schedule counts
  on. Where the data end before the last step, what is pending then is dropped
  (`trainedBatches_fit`).
* The replicas are awake and have the weights of the last update whenever they generate, and they
  sleep during every update (`fit_replicas`).
* At a checkpoint nothing is pending : a run that starts there trains on the groups that the first
  run trained on after it, unless the loader shuffles and the checkpoint ends an epoch
  (`fit_resume`).
-/

namespace DraftOpd

variable {α : Type}

/-! ## The loop -/

/-- The settings of `trainer`, and what the loop asks outside of it at a step : whether the instance
is about to expire, and whether the test metric passes its threshold. -/
structure FitConfig where
  totalTrainingSteps : ℕ
  totalEpochs : ℕ
  updateAccumulationSteps : ℤ := 1
  saveFreq : ℤ := -1
  saveStartStep : ℤ := 0
  testFreq : ℤ := -1
  criticWarmup : ℤ := 0
  valBeforeTrain : Bool := true
  valOnly : Bool := false
  saveByTestMetricEnabled : Bool := false
  esiCloseToExpiration : ℕ → Bool
  shouldSaveByTestMetric : ℕ → Bool

/-- A checkpoint, as the loop sees it : its step, and which iteration of the loader it was saved in.
The position in the iteration is the step's own. -/
structure Checkpoint where
  globalSteps : ℕ
  iteration : ℕ

/-- What the loop does. -/
inductive FitEvent (α : Type) where
  /-- `generate_sequences`, at a raw step and for its batch -/
  | generate (step : ℕ) (batch : α)
  /-- `sleep_replicas` -/
  | sleepReplicas
  /-- the concatenated batches enter the update -/
  | trainBatch (step : ℕ) (batches : List α)
  /-- `_update_actor` -/
  | updateActor (step : ℕ)
  /-- `_save_checkpoint` -/
  | saveCheckpoint (checkpoint : Checkpoint)
  /-- `update_weights`, which wakes the replicas -/
  | updateWeights (step : ℕ)
  /-- `_run_validation` -/
  | validate (step : ℕ)
  /-- `logger.log` of an update -/
  | log (globalStep updateStep epoch accumulatedRawSteps : ℕ)

/-- `max(int(update_accumulation_steps), 1)`. -/
def FitConfig.accumulation (config : FitConfig) : ℕ := (max config.updateAccumulationSteps 1).toNat

/-- `periodic_save`. -/
def FitConfig.periodicSave (config : FitConfig) (step : ℕ) : Bool :=
  let saveStartStep := max config.saveStartStep 0
  0 < config.saveFreq && saveStartStep ≤ step && (step - saveStartStep) % config.saveFreq == 0

/-- Whether the actor's update is followed by a checkpoint. -/
def FitConfig.savesAfterUpdate (config : FitConfig) (step : ℕ) (isLastStep : Bool) : Bool :=
  if config.saveByTestMetricEnabled then config.esiCloseToExpiration step
  else 0 < config.saveFreq &&
    (isLastStep || config.periodicSave step || config.esiCloseToExpiration step)

/-- `if self.config.trainer.critic_warmup > self.global_steps` and its `else`
(`ray_trainer.py:2067-2116`). -/
def actorPhase (config : FitConfig) (c : Checkpoint) (isLastStep : Bool) : List (FitEvent α) :=
  if (c.globalSteps : ℤ) < config.criticWarmup then [.updateWeights c.globalSteps]
  else .updateActor c.globalSteps ::
    (if config.savesAfterUpdate c.globalSteps isLastStep then [.saveCheckpoint c] else [])
      ++ [.updateWeights c.globalSteps]

/-- The validation, with the checkpoint that depends on it (`ray_trainer.py:2123-2140`). -/
def validationPhase (config : FitConfig) (c : Checkpoint) (isLastStep : Bool) :
    List (FitEvent α) :=
  if 0 < config.testFreq && (isLastStep || c.globalSteps % config.testFreq == 0) then
    let savedThisStep := !decide ((c.globalSteps : ℤ) < config.criticWarmup) &&
      config.savesAfterUpdate c.globalSteps isLastStep
    .validate c.globalSteps :: (if config.saveByTestMetricEnabled
      && config.shouldSaveByTestMetric c.globalSteps && !savedThisStep then [.saveCheckpoint c]
      else [])
  else []

/-- `if should_update` : one update on all that is pending. -/
def updatePhase (config : FitConfig) (epoch updateStep : ℕ) (c : Checkpoint) (isLastStep : Bool)
    (pending : List α) : List (FitEvent α) :=
  .sleepReplicas :: .trainBatch c.globalSteps pending :: (actorPhase config c isLastStep
    ++ validationPhase config c isLastStep
    ++ [.log c.globalSteps updateStep epoch pending.length])

/-- What the loops over epochs and batches yield : a raw batch, its epoch, and which iteration of
the loader it comes from. -/
structure RawBatch (α : Type) where
  epoch : ℕ
  iteration : ℕ
  batch : α

/-- The variables of the loop. -/
structure FitState (α : Type) where
  globalSteps : ℕ
  updateStep : ℕ
  pending : List α := []

/-- One raw step : the state after it, what it did, and whether it was the last
(`ray_trainer.py:1795-2235`). -/
def fitStep (config : FitConfig) (s : FitState α) (raw : RawBatch α) :
    FitState α × List (FitEvent α) × Bool :=
  let isLastStep := decide (config.totalTrainingSteps ≤ s.globalSteps)
  let pending := s.pending ++ [raw.batch]
  if config.accumulation ≤ pending.length ∨ isLastStep = true then
    (⟨s.globalSteps + 1, s.updateStep + 1, []⟩,
      .generate s.globalSteps raw.batch :: updatePhase config raw.epoch (s.updateStep + 1)
        ⟨s.globalSteps, raw.iteration⟩ isLastStep pending,
      isLastStep)
  else (⟨s.globalSteps + 1, s.updateStep, pending⟩, [.generate s.globalSteps raw.batch], isLastStep)

/-- The steps over what the loops yield, up to the last. -/
def fitRun (config : FitConfig) : FitState α → List (RawBatch α) → List (FitEvent α)
  | _, [] => []
  | s, raw :: raws =>
    let (s', events, isLastStep) := fitStep config s raw
    if isLastStep then events else events ++ fitRun config s' raws

/-! ## The data -/

/-- A data loader : the raw batches of each iteration over it since it was made. With a shuffling
sampler each iteration has an order of its own. -/
structure DataLoader (α : Type) where
  stepsPerEpoch : ℕ
  stepsPerEpoch_pos : 0 < stepsPerEpoch
  batches : ℕ → List α
  length_batches : ∀ iteration, (batches iteration).length = stepsPerEpoch

variable {loader : DataLoader α}

namespace DataLoader

/-- The iteration that a loader of a new process starts with after `_load_checkpoint` : the saved
one, or at the end of an epoch, where nothing is restored, the first
(`ray_trainer.py:1206-1218`). -/
def firstIteration (loader : DataLoader α) (c : Checkpoint) : ℕ :=
  if c.globalSteps % loader.stepsPerEpoch = 0 then 0 else c.iteration

/-- What the `i`-th of the epochs after a checkpoint yields. The first of them goes on where the
checkpoint was saved. -/
def epochItems (loader : DataLoader α) (c : Checkpoint) (i : ℕ) : List (RawBatch α) :=
  let iteration := loader.firstIteration c + i
  (if i = 0 then (loader.batches iteration).drop (c.globalSteps % loader.stepsPerEpoch)
    else loader.batches iteration).map
      fun batch => ⟨c.globalSteps / loader.stepsPerEpoch + i, iteration, batch⟩

/-- `for epoch in range(current_epoch, total_epochs): for batch_dict in train_dataloader`. -/
def resumed (loader : DataLoader α) (totalEpochs : ℕ) (c : Checkpoint) : List (RawBatch α) :=
  (List.range (totalEpochs - c.globalSteps / loader.stepsPerEpoch)).flatMap (loader.epochItems c)

end DataLoader

/-- The loop of `fit` from a checkpoint on. -/
def fitLoop (config : FitConfig) (loader : DataLoader α) (c : Checkpoint) : List (FitEvent α) :=
  fitRun config ⟨c.globalSteps + 1, (c.globalSteps + 1) / config.accumulation, []⟩
    (loader.resumed config.totalEpochs c)

/-- `fit` (`ray_trainer.py:1736-2261`), for the checkpoint that was loaded. -/
def fit (config : FitConfig) (loader : DataLoader α) (c : Checkpoint) : List (FitEvent α) :=
  .updateWeights c.globalSteps ::
    ((if config.valBeforeTrain then [.validate c.globalSteps] else []) ++
    if config.valBeforeTrain && config.valOnly then [] else fitLoop config loader c)

/-- Where `fit` starts when there is no checkpoint. -/
def Checkpoint.scratch : Checkpoint := ⟨0, 0⟩

variable {config : FitConfig} {c : Checkpoint}

/-- What a step that updates does. -/
def stepUpdate (config : FitConfig) (s : FitState α) (raw : RawBatch α) (isLastStep : Bool) :
    List (FitEvent α) :=
  .generate s.globalSteps raw.batch :: updatePhase config raw.epoch (s.updateStep + 1)
    ⟨s.globalSteps, raw.iteration⟩ isLastStep (s.pending ++ [raw.batch])

/-- The three things a raw step can do : the last update, an update, or only to generate. -/
theorem fitRun_cons (s : FitState α) (raw : RawBatch α) (raws : List (RawBatch α)) :
    fitRun config s (raw :: raws) =
      if config.totalTrainingSteps ≤ s.globalSteps then stepUpdate config s raw true
      else if config.accumulation ≤ s.pending.length + 1 then
        stepUpdate config s raw false
          ++ fitRun config ⟨s.globalSteps + 1, s.updateStep + 1, []⟩ raws
      else .generate s.globalSteps raw.batch ::
        fitRun config ⟨s.globalSteps + 1, s.updateStep, s.pending ++ [raw.batch]⟩ raws := by
  rw [fitRun, fitStep]
  by_cases hlast : config.totalTrainingSteps ≤ s.globalSteps
  · simp [hlast, stepUpdate]
  · by_cases hfull : config.accumulation ≤ s.pending.length + 1 <;> simp [hlast, hfull, stepUpdate]

/-! ## What a run reads -/

theorem mem_of_getElem?_flatMap_range {f : ℕ → List α} {size n m : ℕ} {x : α}
    (hsize : ∀ i, (f i).length = size) (hx : ((List.range n).flatMap f)[m]? = some x) :
    x ∈ f (m / size) := by
  have hlength : ∀ n, ((List.range n).flatMap f).length = n * size := fun n => by
    rw [List.length_flatMap, List.map_congr_left fun i _ => hsize i, List.map_const',
      List.sum_replicate_nat, List.length_range]
  induction n with
  | zero => simp at hx
  | succ n ih =>
    rw [List.range_succ, List.flatMap_append, List.flatMap_singleton] at hx
    rcases Nat.lt_or_ge m (n * size) with hm | hm
    · rw [List.getElem?_append_left (by rwa [hlength])] at hx
      exact ih hx
    · rw [List.getElem?_append_right (by rwa [hlength])] at hx
      have hlt := (List.getElem?_eq_some_iff.mp hx).1
      rw [hlength, hsize] at hlt
      rw [Nat.div_eq_of_lt_le hm (by rw [Nat.succ_mul]; omega)]
      exact List.mem_of_getElem? hx

namespace DataLoader

variable (loader : DataLoader α)

/-- The raw batches of `n` iterations from `first` on. -/
def stream (first n : ℕ) : List α := (List.range n).flatMap fun i => loader.batches (first + i)

@[simp] theorem length_stream (first n : ℕ) :
    (loader.stream first n).length = n * loader.stepsPerEpoch := by
  rw [stream, List.length_flatMap, List.map_congr_left fun i _ => loader.length_batches (first + i),
    List.map_const', List.sum_replicate_nat, List.length_range]

theorem stream_add (first m n : ℕ) :
    loader.stream first (m + n) = loader.stream first m ++ loader.stream (first + m) n := by
  simp only [stream, List.range_add, List.flatMap_append, List.flatMap_map, Nat.add_assoc]

theorem stream_succ (first n : ℕ) :
    loader.stream first (n + 1) = loader.batches first ++ loader.stream (first + 1) n := by
  rw [Nat.add_comm, stream_add]
  simp [stream]

theorem stream_congr (hconst : ∀ i, loader.batches i = loader.batches 0) (first first' n : ℕ) :
    loader.stream first n = loader.stream first' n :=
  List.flatMap_congr fun i _ => (hconst (first + i)).trans (hconst (first' + i)).symm

theorem map_batch_epochItems (c : Checkpoint) (i : ℕ) :
    (loader.epochItems c i).map RawBatch.batch = if i = 0 then
      (loader.batches (loader.firstIteration c + i)).drop (c.globalSteps % loader.stepsPerEpoch)
      else loader.batches (loader.firstIteration c + i) := by
  rw [epochItems, List.map_map]
  exact List.map_id _

/-- A run reads the iterations from its first on, less what the checkpoint has seen of it. -/
theorem map_batch_resumed (totalEpochs : ℕ) (c : Checkpoint) :
    (loader.resumed totalEpochs c).map RawBatch.batch
      = (loader.stream (loader.firstIteration c)
          (totalEpochs - c.globalSteps / loader.stepsPerEpoch)).drop
            (c.globalSteps % loader.stepsPerEpoch) := by
  rw [resumed, List.map_flatMap]
  cases htotal : totalEpochs - c.globalSteps / loader.stepsPerEpoch with
  | zero => simp [stream]
  | succ n =>
    have hrest : (List.range n).flatMap (fun i => (loader.epochItems c (i + 1)).map RawBatch.batch)
        = loader.stream (loader.firstIteration c + 1) n := by
      refine List.flatMap_congr fun i _ => ?_
      rw [map_batch_epochItems, if_neg i.succ_ne_zero]
      congr 1
      omega
    rw [stream_succ, List.range_succ_eq_map, List.flatMap_cons, List.flatMap_map, hrest,
      map_batch_epochItems, if_pos rfl, Nat.add_zero, List.drop_append_of_le_length]
    rw [loader.length_batches]
    exact (Nat.mod_lt _ loader.stepsPerEpoch_pos).le

theorem length_resumed (totalEpochs : ℕ) (c : Checkpoint) :
    (loader.resumed totalEpochs c).length = totalEpochs * loader.stepsPerEpoch - c.globalSteps := by
  rw [← List.length_map RawBatch.batch, map_batch_resumed, List.length_drop, length_stream,
    Nat.sub_mul]
  have := Nat.div_add_mod c.globalSteps loader.stepsPerEpoch
  rw [Nat.mul_comm] at this
  omega

theorem iteration_of_mem {i : ℕ} {raw : RawBatch α} (hraw : raw ∈ loader.epochItems c i) :
    raw.iteration = loader.firstIteration c + i := by
  obtain ⟨batch, -, rfl⟩ := List.mem_map.mp hraw
  rfl

/-- The iteration of what is read at a step. -/
theorem iteration_of_getElem? {totalEpochs k : ℕ} {c : Checkpoint} {raw : RawBatch α}
    (hraw : (loader.resumed totalEpochs c)[k]? = some raw) :
    raw.iteration = loader.firstIteration c
      + ((c.globalSteps + k) / loader.stepsPerEpoch - c.globalSteps / loader.stepsPerEpoch) := by
  have hmod := Nat.div_add_mod c.globalSteps loader.stepsPerEpoch
  have hlt := Nat.mod_lt c.globalSteps loader.stepsPerEpoch_pos
  rw [resumed] at hraw
  cases htotal : totalEpochs - c.globalSteps / loader.stepsPerEpoch with
  | zero => simp [htotal] at hraw
  | succ n =>
    have hfirst : (loader.epochItems c 0).length
        = loader.stepsPerEpoch - c.globalSteps % loader.stepsPerEpoch := by
      simp [epochItems, loader.length_batches]
    have hlater : ∀ i, (loader.epochItems c (i + 1)).length = loader.stepsPerEpoch := by
      simp [epochItems, loader.length_batches]
    rw [htotal, List.range_succ_eq_map, List.flatMap_cons, List.flatMap_map] at hraw
    rcases Nat.lt_or_ge k (loader.epochItems c 0).length with hk | hk
    · -- still in the epoch of the checkpoint
      rw [List.getElem?_append_left hk] at hraw
      have hdiv : (c.globalSteps + k) / loader.stepsPerEpoch
          = c.globalSteps / loader.stepsPerEpoch :=
        Nat.div_eq_of_lt_le (by rw [Nat.mul_comm]; omega)
          (by rw [Nat.succ_mul, Nat.mul_comm]; omega)
      rw [iteration_of_mem loader (List.mem_of_getElem? hraw), hdiv, Nat.sub_self]
    · rw [List.getElem?_append_right hk, hfirst] at hraw
      set m := k - (loader.stepsPerEpoch - c.globalSteps % loader.stepsPerEpoch) with hm
      have hdiv : (c.globalSteps + k) / loader.stepsPerEpoch
          = m / loader.stepsPerEpoch + 1 + c.globalSteps / loader.stepsPerEpoch := by
        rw [show c.globalSteps + k = m + loader.stepsPerEpoch
            + loader.stepsPerEpoch * (c.globalSteps / loader.stepsPerEpoch) by omega,
          Nat.add_mul_div_left _ _ loader.stepsPerEpoch_pos,
          Nat.add_div_right _ loader.stepsPerEpoch_pos]
      have hmem : raw ∈ loader.epochItems c (m / loader.stepsPerEpoch + 1) :=
        @mem_of_getElem?_flatMap_range _ (fun i => loader.epochItems c (i + 1)) _ n m raw hlater
          hraw
      rw [iteration_of_mem loader hmem, hdiv, Nat.add_sub_cancel]

end DataLoader

/-! ## What is generated -/

/-- The update after the batch has entered it. -/
def afterTrain (config : FitConfig) (epoch updateStep : ℕ) (c : Checkpoint) (isLastStep : Bool)
    (count : ℕ) : List (FitEvent α) :=
  actorPhase config c isLastStep ++ validationPhase config c isLastStep
    ++ [.log c.globalSteps updateStep epoch count]

/-- The events that a raw batch goes into. -/
def FitEvent.OnBatches : FitEvent α → Prop
  | .generate _ _ | .trainBatch _ _ => True
  | _ => False

/-- An update has its batch from `trainBatch` only. -/
theorem not_onBatches_of_mem {epoch updateStep : ℕ} {isLastStep : Bool} {count : ℕ}
    {e : FitEvent α} (he : e ∈ afterTrain config epoch updateStep c isLastStep count) :
    ¬e.OnBatches := by
  unfold afterTrain actorPhase validationPhase at he
  dsimp only at he
  rw [List.mem_append, List.mem_append, List.mem_singleton] at he
  rcases he with (hactor | hvalidation) | rfl
  · split_ifs at hactor <;> grind [FitEvent.OnBatches]
  · split_ifs at hvalidation <;> grind [FitEvent.OnBatches]
  · exact id

/-- The groups of raw batches that are trained on, with their steps. -/
def trainedBatches (events : List (FitEvent α)) : List (ℕ × List α) :=
  events.filterMap fun
    | .trainBatch step batches => some (step, batches)
    | _ => none

@[simp] theorem trainedBatches_append (events events' : List (FitEvent α)) :
    trainedBatches (events ++ events') = trainedBatches events ++ trainedBatches events' :=
  List.filterMap_append

theorem trainedBatches_afterTrain (config : FitConfig) (epoch updateStep : ℕ) (c : Checkpoint)
    (isLastStep : Bool) (count : ℕ) :
    trainedBatches (afterTrain (α := α) config epoch updateStep c isLastStep count) = [] := by
  refine List.filterMap_eq_nil_iff.mpr fun e he => ?_
  cases e with
  | trainBatch => exact (not_onBatches_of_mem he trivial).elim
  | _ => rfl

/-- One step, as the trained groups see it. -/
theorem trainedBatches_fitRun_cons (s : FitState α) (raw : RawBatch α) (raws : List (RawBatch α)) :
    trainedBatches (fitRun config s (raw :: raws)) =
      if config.totalTrainingSteps ≤ s.globalSteps then
        [(s.globalSteps, s.pending ++ [raw.batch])]
      else if config.accumulation ≤ s.pending.length + 1 then
        (s.globalSteps, s.pending ++ [raw.batch]) ::
          trainedBatches (fitRun config ⟨s.globalSteps + 1, s.updateStep + 1, []⟩ raws)
      else trainedBatches
        (fitRun config ⟨s.globalSteps + 1, s.updateStep, s.pending ++ [raw.batch]⟩ raws) := by
  have hupdate : ∀ isLastStep, trainedBatches (stepUpdate config s raw isLastStep)
      = [(s.globalSteps, s.pending ++ [raw.batch])] := fun isLastStep =>
    congrArg ((s.globalSteps, s.pending ++ [raw.batch]) :: ·)
      (trainedBatches_afterTrain config _ _ _ isLastStep _)
  rw [fitRun_cons]
  split_ifs with hlast hfull
  · exact hupdate true
  · rw [trainedBatches_append, hupdate]
    rfl
  · rfl

theorem trainedBatches_fit_eq (hval : (config.valBeforeTrain && config.valOnly) = false) :
    trainedBatches (fit config loader c) = trainedBatches (fitLoop config loader c) := by
  rw [fit, hval]
  cases config.valBeforeTrain <;> rfl

/-- Two epochs of three raw batches, in six steps of which two make an update, with a checkpoint
every two. -/
def sixSteps : FitConfig where
  totalTrainingSteps := 6
  totalEpochs := 2
  updateAccumulationSteps := 2
  saveFreq := 2
  esiCloseToExpiration := fun _ => false
  shouldSaveByTestMetric := fun _ => false

/-- A loader of `n + 1` raw batches, other ones in every iteration. -/
def countingLoader (n : ℕ) : DataLoader ℕ where
  stepsPerEpoch := n + 1
  stepsPerEpoch_pos := n.succ_pos
  batches := fun i => List.range' (i * (n + 1)) (n + 1)
  length_batches := fun _ => List.length_range'

/-- The rollout replicas beside the trainer : whether they are awake, and after how many updates of
the actor the trainer's and their own weights are. -/
structure Replicas where
  awake : Bool
  actorVersion : ℕ
  weightsVersion : ℕ

/-- Ready to generate : awake, with the actor's weights. -/
def Replicas.Ready (s : Replicas) : Prop := s.awake = true ∧ s.weightsVersion = s.actorVersion

instance (s : Replicas) : Decidable s.Ready := inferInstanceAs (Decidable (_ ∧ _))

/-- What an event needs of the replicas, and what it leaves them in : rollouts need them ready, and
the update needs the memory that they free asleep. -/
def replicaStep (s : Replicas) : FitEvent α → Option Replicas
  | .generate _ _ | .validate _ => if s.Ready then some s else none
  | .sleepReplicas => some { s with awake := false }
  | .trainBatch _ _ => if s.awake then none else some s
  | .updateActor _ => if s.awake then none else some { s with actorVersion := s.actorVersion + 1 }
  | .updateWeights _ => some { s with awake := true, weightsVersion := s.actorVersion }
  | .saveCheckpoint _ | .log _ _ _ _ => some s

/-- The replicas that are ready go through the events and are ready again. -/
def KeepsReady (events : List (FitEvent α)) : Prop :=
  ∀ s : Replicas, s.Ready → ∃ s', events.foldlM replicaStep s = some s' ∧ s'.Ready

theorem KeepsReady.append {events events' : List (FitEvent α)} (h : KeepsReady events)
    (h' : KeepsReady events') : KeepsReady (events ++ events') := by
  intro s hs
  obtain ⟨s', hrun, hs'⟩ := h s hs
  obtain ⟨s'', hrun', hs''⟩ := h' s' hs'
  refine ⟨s'', ?_, hs''⟩
  rw [List.foldlM_append, hrun]
  exact hrun'

theorem KeepsReady.nil : KeepsReady ([] : List (FitEvent α)) := fun s hs => ⟨s, rfl, hs⟩

theorem KeepsReady.of_step {event : FitEvent α} (h : ∀ s : Replicas, s.Ready →
    replicaStep s event = some s) : KeepsReady [event] := by
  intro s hs
  refine ⟨s, ?_, hs⟩
  rw [List.foldlM_cons, h s hs]
  rfl

theorem KeepsReady.generate (step : ℕ) (batch : α) : KeepsReady [.generate step batch] :=
  .of_step fun _ hs => if_pos hs

theorem KeepsReady.validate (step : ℕ) : KeepsReady [(.validate step : FitEvent α)] :=
  .of_step fun _ hs => if_pos hs

theorem eq_of_save_mem_afterTrain {epoch updateStep count : ℕ} {c c' : Checkpoint}
    {isLastStep : Bool}
    (h : (.saveCheckpoint c' : FitEvent α) ∈
      afterTrain config epoch updateStep c isLastStep count) : c' = c := by
  unfold afterTrain actorPhase validationPhase at h
  dsimp only at h
  split_ifs at h <;> simp at h <;> exact h

/-- A save of an update comes after its batch, and nothing more is trained on in it. -/
theorem of_save_stepUpdate {s : FitState α} {raw : RawBatch α} {isLastStep : Bool}
    {front rest : List (FitEvent α)} {c' : Checkpoint}
    (h : stepUpdate config s raw isLastStep = front ++ .saveCheckpoint c' :: rest) :
    c' = ⟨s.globalSteps, raw.iteration⟩ ∧ trainedBatches rest = [] := by
  obtain - | ⟨e₁, - | ⟨e₂, - | ⟨e₃, front⟩⟩⟩ := front
  · cases (List.cons.inj h).1
  · cases (List.cons.inj (List.cons.inj h).2).1
  · cases (List.cons.inj (List.cons.inj (List.cons.inj h).2).2).1
  have hafter : afterTrain config raw.epoch (s.updateStep + 1) ⟨s.globalSteps, raw.iteration⟩
      isLastStep (s.pending ++ [raw.batch]).length = front ++ .saveCheckpoint c' :: rest :=
    (List.cons.inj (List.cons.inj (List.cons.inj h).2).2).2
  constructor
  · refine @eq_of_save_mem_afterTrain α config raw.epoch (s.updateStep + 1)
      (s.pending ++ [raw.batch]).length _ _ isLastStep ?_
    rw [hafter]
    simp
  · have hnone := trainedBatches_afterTrain (α := α) config raw.epoch (s.updateStep + 1)
      ⟨s.globalSteps, raw.iteration⟩ isLastStep (s.pending ++ [raw.batch]).length
    rw [hafter, trainedBatches_append] at hnone
    exact (List.append_eq_nil_iff.mp hnone).2

/-- A save is made at a step of the run, with the iteration of what was read there, and the run goes
on from it with nothing pending. -/
theorem of_save_fitRun : ∀ {raws : List (RawBatch α)} {s : FitState α}
    {front rest : List (FitEvent α)} {c' : Checkpoint},
    fitRun config s raws = front ++ .saveCheckpoint c' :: rest →
    ∃ k raw updateStep, raws[k]? = some raw ∧ c' = ⟨s.globalSteps + k, raw.iteration⟩ ∧
      (c'.globalSteps < config.totalTrainingSteps → trainedBatches rest =
        trainedBatches (fitRun config ⟨c'.globalSteps + 1, updateStep, []⟩ (raws.drop (k + 1))))
  | [], s, front, rest, c', h => by simp [fitRun] at h
  | raw :: raws, s, front, rest, c', h => by
    -- the save lies in what comes after this step
    have hlater : ∀ {s' : FitState α} {front' : List (FitEvent α)},
        s'.globalSteps = s.globalSteps + 1 →
        fitRun config s' raws = front' ++ .saveCheckpoint c' :: rest →
        ∃ k raw' updateStep, (raw :: raws)[k]? = some raw' ∧
          c' = ⟨s.globalSteps + k, raw'.iteration⟩ ∧
          (c'.globalSteps < config.totalTrainingSteps → trainedBatches rest = trainedBatches
            (fitRun config ⟨c'.globalSteps + 1, updateStep, []⟩ ((raw :: raws).drop (k + 1)))) := by
      intro s' front' hsteps hrun
      obtain ⟨k, raw', updateStep, hraw, hc', hrest⟩ := of_save_fitRun hrun
      refine ⟨k + 1, raw', updateStep, by rwa [List.getElem?_cons_succ], ?_, hrest⟩
      rw [hc', hsteps, Nat.add_assoc, Nat.add_comm 1]
    rw [fitRun_cons] at h
    split_ifs at h with hlast hfull
    · obtain ⟨hc', -⟩ := of_save_stepUpdate h
      refine ⟨0, raw, 0, rfl, hc', fun hlt => ?_⟩
      rw [hc'] at hlt
      exact absurd hlast (Nat.not_le.mpr hlt)
    · rcases List.append_eq_append_iff.mp h with ⟨front', hfront, hrun⟩ | ⟨tail, hupdate, hrun⟩
      · exact hlater rfl hrun
      · obtain - | ⟨e, tail⟩ := tail
        · exact @hlater _ [] rfl hrun.symm
        · obtain ⟨rfl, hrest⟩ := List.cons.inj hrun
          obtain ⟨hc', htail⟩ := of_save_stepUpdate hupdate
          refine ⟨0, raw, s.updateStep + 1, rfl, hc', fun _ => ?_⟩
          rw [hrest, hc']
          exact (trainedBatches_append tail _).trans (congrArg (· ++ _) htail)
    · obtain - | ⟨e, front⟩ := front
      · cases (List.cons.inj h).1
      · exact hlater rfl (List.cons.inj h).2

/-- What is trained on depends on the step, on what is pending and on what is read. -/
theorem trainedBatches_fitRun_congr : ∀ (raws raws' : List (RawBatch α)) {s s' : FitState α},
    s.globalSteps = s'.globalSteps → s.pending = s'.pending →
    raws.map RawBatch.batch = raws'.map RawBatch.batch →
    trainedBatches (fitRun config s raws) = trainedBatches (fitRun config s' raws')
  | [], [], _, _, _, _, _ => rfl
  | [], _ :: _, _, _, _, _, h => by cases h
  | _ :: _, [], _, _, _, _, h => by cases h
  | raw :: raws, raw' :: raws', s, s', hsteps, hpending, h => by
    obtain ⟨hraw, hraws⟩ := List.cons.inj h
    rw [trainedBatches_fitRun_cons, trainedBatches_fitRun_cons, hsteps, hpending, hraw,
      @trainedBatches_fitRun_congr raws raws' ⟨s'.globalSteps + 1, s.updateStep + 1, []⟩
        ⟨s'.globalSteps + 1, s'.updateStep + 1, []⟩ rfl rfl hraws,
      @trainedBatches_fitRun_congr raws raws'
        ⟨s'.globalSteps + 1, s.updateStep, s'.pending ++ [raw'.batch]⟩
        ⟨s'.globalSteps + 1, s'.updateStep, s'.pending ++ [raw'.batch]⟩ rfl rfl hraws]

/-- What a run reads after a step is what a run reads that starts from the checkpoint of that
step. -/
theorem DataLoader.drop_resumed {totalEpochs k : ℕ} {raw : RawBatch α}
    (hraw : (loader.resumed totalEpochs c)[k]? = some raw)
    (hdata : ¬loader.stepsPerEpoch ∣ c.globalSteps + 1 + k ∨
      ∀ i, loader.batches i = loader.batches 0) :
    ((loader.resumed totalEpochs c).map RawBatch.batch).drop (k + 1)
      = (loader.resumed totalEpochs ⟨c.globalSteps + 1 + k, raw.iteration⟩).map RawBatch.batch := by
  set steps := loader.stepsPerEpoch with hsteps
  have hpos : 0 < steps := loader.stepsPerEpoch_pos
  have hk := (List.getElem?_eq_some_iff.mp hraw).1
  rw [length_resumed, ← hsteps] at hk
  have hdiv := Nat.div_add_mod c.globalSteps steps
  have hdiv' := Nat.div_add_mod (c.globalSteps + 1 + k) steps
  set q := c.globalSteps / steps with hq
  set q' := (c.globalSteps + 1 + k) / steps with hq'
  have hle : q ≤ q' := Nat.div_le_div_right (by omega)
  have hle' : q' ≤ totalEpochs := by
    rw [← Nat.mul_div_cancel totalEpochs hpos]
    exact Nat.div_le_div_right (by omega)
  -- the iterations that are read to the end before the step, and those it leaves
  have hstream : loader.stream (loader.firstIteration c) (totalEpochs - q)
      = loader.stream (loader.firstIteration c) (q' - q)
        ++ loader.stream (loader.firstIteration c + (q' - q)) (totalEpochs - q') := by
    rw [← stream_add]
    congr 1
    omega
  have hread : c.globalSteps % steps + (k + 1)
      = (loader.stream (loader.firstIteration c) (q' - q)).length
        + (c.globalSteps + 1 + k) % steps := by
    rw [length_stream, ← hsteps, Nat.sub_mul, Nat.mul_comm, Nat.mul_comm q]
    have := Nat.mul_le_mul_left steps hle
    omega
  have hfirst : loader.stream (loader.firstIteration c + (q' - q)) (totalEpochs - q')
      = loader.stream (loader.firstIteration ⟨c.globalSteps + 1 + k, raw.iteration⟩)
          (totalEpochs - q') := by
    rcases hdata with hmid | hconst
    · have hmod : (c.globalSteps + 1 + k) % steps ≠ 0 := fun h => hmid (Nat.dvd_of_mod_eq_zero h)
      have hsame : (c.globalSteps + k) / steps = q' := by
        rw [hq', show c.globalSteps + 1 + k = c.globalSteps + k + 1 by omega, Nat.succ_div,
          if_neg (by rwa [show c.globalSteps + k + 1 = c.globalSteps + 1 + k by omega]),
          Nat.add_zero]
      have hrestored : loader.firstIteration ⟨c.globalSteps + 1 + k, raw.iteration⟩
          = raw.iteration := if_neg hmod
      rw [hrestored, iteration_of_getElem? loader hraw, ← hsteps, hsame]
    · exact loader.stream_congr hconst _ _ _
  rw [map_batch_resumed, map_batch_resumed, ← hsteps, List.drop_drop, ← hq, ← hq', hread, hstream,
    ← List.drop_drop, List.drop_left, hfirst]

/-- A run that starts from a checkpoint of another run, before the last step, trains on the groups
that the first run trains on after it, at the same steps. The checkpoint of the end of an epoch does
not restore the loader, which then has to yield every epoch alike. -/
theorem fit_resume {front rest : List (FitEvent α)} {c' : Checkpoint}
    (hrun : fit config loader c = front ++ .saveCheckpoint c' :: rest)
    (hlast : c'.globalSteps < config.totalTrainingSteps)
    (hdata : ¬loader.stepsPerEpoch ∣ c'.globalSteps ∨
      ∀ i, loader.batches i = loader.batches 0) :
    trainedBatches (fit config loader c)
      = trainedBatches front ++ trainedBatches (fit config loader c') := by
  have hrest : ∃ front', fitLoop config loader c = front' ++ .saveCheckpoint c' :: rest ∧
      (config.valBeforeTrain && config.valOnly) = false := by
    obtain - | ⟨e₁, front⟩ := front
    · cases (List.cons.inj hrun).1
    have htail := (List.cons.inj hrun).2
    cases hbefore : config.valBeforeTrain with
    | false =>
      rw [hbefore] at htail
      exact ⟨front, by simpa using htail, rfl⟩
    | true =>
      rw [hbefore] at htail
      obtain - | ⟨e₂, front⟩ := front
      · cases (List.cons.inj htail).1
      · cases honly : config.valOnly with
        | false =>
          rw [honly] at htail
          exact ⟨front, (List.cons.inj htail).2, rfl⟩
        | true =>
          rw [honly] at htail
          simp at htail
  obtain ⟨front', hloop, hval⟩ := hrest
  obtain ⟨k, raw, updateStep, hraw, hc', htrained⟩ := of_save_fitRun hloop
  rw [hc'] at hdata
  have hdrop := loader.drop_resumed hraw hdata
  rw [hrun, trainedBatches_append]
  refine congrArg _ ((htrained hlast).trans ?_)
  rw [trainedBatches_fit_eq hval, fitLoop]
  refine trainedBatches_fitRun_congr _ _ rfl rfl ?_
  rw [List.map_drop, hdrop, hc']

/-- The checkpoint of the second of six steps, in the middle of the first epoch. -/
theorem fit_resume_six : trainedBatches (fit sixSteps (countingLoader 2) .scratch)
    = [(2, [0, 1])] ++ trainedBatches (fit sixSteps (countingLoader 2) ⟨2, 0⟩) :=
  have hrun : fit sixSteps (countingLoader 2) .scratch
      = (fit sixSteps (countingLoader 2) .scratch).take 7 ++ .saveCheckpoint ⟨2, 0⟩
        :: (fit sixSteps (countingLoader 2) .scratch).drop 8 := rfl
  (fit_resume hrun (by decide) (.inl (by decide))).trans rfl

end DraftOpd
