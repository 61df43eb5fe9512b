import Mathlib.Algebra.BigOperators.Group.List.Lemmas
import Mathlib.Data.List.Forall2
import Mathlib.Tactic.Linarith

/-!
# Results of batches that still run

With overlap scheduling a batch is scheduled before the one in front of it has its tokens. The
scheduler then uses the negated indices of a circular buffer in place of the tokens, the forward
stream stores every batch's result at its indices, and resolves the indices in the input of the
batches after it (`overlap_utils.py`).

* Between the store of a batch and of one at most `2 + max_num_chunks` batches away from it, in any
  order of allocations and stores, no result is overwritten : what is resolved is what was stored,
  and token ids that are no placeholders stay as they are (`resolveFuture_eq`).
-/

namespace DraftOpd

variable {α : Type}

/-! ## Intervals of a ring -/

/-- Two intervals of one turn of a ring of length `limit` have no cell in common, also where they
run over the end of the ring. -/
theorem ring_ne {limit p q b b' x y : ℕ} (hle : p + b ≤ q) (hturn : q + b' ≤ p + limit)
    (hx : x < b) (hy : y < b') : p % limit + x ≠ q % limit + y := by
  intro heq
  have hp := Nat.div_add_mod p limit
  have hq := Nat.div_add_mod q limit
  have hdiv : p / limit ≤ q / limit := Nat.div_le_div_right (by omega)
  rcases Nat.eq_or_lt_of_le hdiv with hsame | hlt
  · rw [← hsame] at hq
    omega
  · have hmul := Nat.mul_le_mul_left limit (Nat.succ_le_of_lt hlt)
    rw [Nat.mul_succ] at hmul
    omega

/-- `buf[start : start + len(rows)] = rows`. -/
def setSlice (buf : List α) (start : ℕ) (rows : List α) : List α :=
  buf.take start ++ rows ++ buf.drop (start + rows.length)

theorem length_setSlice {buf rows : List α} {start : ℕ} (h : start + rows.length ≤ buf.length) :
    (setSlice buf start rows).length = buf.length := by
  simp only [setSlice, List.length_append, List.length_take, List.length_drop]
  omega

theorem getElem?_setSlice {buf rows : List α} {start : ℕ} (h : start + rows.length ≤ buf.length)
    (slot : ℕ) : (setSlice buf start rows)[slot]? =
      if start ≤ slot ∧ slot < start + rows.length then rows[slot - start]? else buf[slot]? := by
  have htake : (buf.take start).length = start := List.length_take_of_le (by omega)
  rw [setSlice, List.append_assoc]
  rcases Nat.lt_or_ge slot start with hfront | hback
  · rw [if_neg (by omega), List.getElem?_append_left (by omega), List.getElem?_take_of_lt hfront]
  · rw [List.getElem?_append_right (by omega), htake]
    rcases Nat.lt_or_ge (slot - start) rows.length with hin | hout
    · rw [if_pos (by omega), List.getElem?_append_left hin]
    · rw [if_neg (by omega), List.getElem?_append_right hout, List.getElem?_drop]
      congr 1
      omega

/-! ## The map -/

/-- What `FutureMap` is made from ; `chunkedPrefillSize` is zero for `None`. -/
structure FutureConfig where
  maxRunningRequests : ℕ
  maxRunningRequests_pos : 0 < maxRunningRequests
  chunkedPrefillSize : ℕ
  contextLen : ℕ
  specAlgoIsNone : Bool

namespace FutureConfig

variable (config : FutureConfig)

/-- `max_num_chunks`. -/
def maxNumChunks : ℕ :=
  if config.chunkedPrefillSize = 0 then 0
  else (config.contextLen + config.chunkedPrefillSize - 1) / config.chunkedPrefillSize

/-- `future_limit`. -/
def futureLimit : ℕ := config.maxRunningRequests * (3 + config.maxNumChunks)

/-- `future_buffer_len`. -/
def futureBufferLen : ℕ := config.futureLimit + 2 * config.maxRunningRequests

end FutureConfig

/-- The indices `start, …, start + bs - 1`. -/
structure FutureIndices where
  start : ℕ
  bs : ℕ

/-- The buffer holds one row an index, `none` where it is not written yet, and is absent until
`_lazy_init_buf`. -/
structure FutureMap (α : Type) where
  futureCt : ℕ
  buf : Option (List (Option α))

/-- `torch.empty`. -/
def emptyBuf (config : FutureConfig) : List (Option α) := List.replicate config.futureBufferLen none

/-- `__init__`. -/
def FutureMap.init (config : FutureConfig) : FutureMap α where
  futureCt := 0
  buf := if config.specAlgoIsNone then some (emptyBuf config) else none

/-- `alloc_future_indices`. -/
def allocFutureIndices (config : FutureConfig) (m : FutureMap α) (bs : ℕ) :
    FutureMap α × FutureIndices :=
  ({ m with futureCt := (m.futureCt + bs) % config.futureLimit }, ⟨m.futureCt + 1, bs⟩)

/-- `is_empty_slice`, on the slice's indices in the buffer. -/
def isEmptySlice (config : FutureConfig) (f : FutureIndices) : Bool :=
  min config.futureBufferLen (f.start + f.bs) ≤ min config.futureBufferLen f.start

/-- `store_to_map`, with `store_to_map_for_new_batch` for speculative decoding. -/
def storeToMap (config : FutureConfig) (m : FutureMap α) (f : FutureIndices) (rows : List α) :
    FutureMap α :=
  if config.specAlgoIsNone then
    { m with buf := m.buf.map fun buf => setSlice buf f.start (rows.map some) }
  else if isEmptySlice config f then m
  else { m with buf := some (setSlice (m.buf.getD (emptyBuf config)) f.start (rows.map some)) }

/-- The row at an index of the buffer. -/
def FutureMap.lookup (m : FutureMap α) (slot : ℕ) : Option α :=
  (m.buf.bind fun buf => buf[slot]?).join

/-- `_resolve_future_token_ids` : `where(ids < 0, map[clamp(-ids, min=0)], ids)`. -/
def resolveFutureTokenIds (inputIds : List ℤ) (m : FutureMap ℤ) : List (Option ℤ) :=
  inputIds.map fun id => if id < 0 then m.lookup (max (-id) 0).toNat else some id

/-- The rows that `resolve_future` reads for speculative decoding. -/
def resolveFutureRows (indices : List ℕ) (m : FutureMap α) : List (Option α) :=
  indices.map m.lookup

/-! ## Runs -/

/-- What the scheduler does with the map. -/
inductive FutureOp (α : Type) where
  | alloc (bs : ℕ)
  /-- the result of a batch, by its number -/
  | store (batch : ℕ) (rows : List α)

/-- The map, with the indices of the batches so far. -/
structure FutureRun (α : Type) where
  map : FutureMap α
  allocated : List FutureIndices

/-- A batch has at most `max_running_requests` requests, and as many results. -/
def futureStep (config : FutureConfig) (s : FutureRun α) : FutureOp α → Option (FutureRun α)
  | .alloc bs =>
    if bs ≤ config.maxRunningRequests then
      let (m, f) := allocFutureIndices config s.map bs
      some ⟨m, s.allocated ++ [f]⟩
    else none
  | .store batch rows => do
    let f ← s.allocated[batch]?
    if rows.length = f.bs then some { s with map := storeToMap config s.map f rows } else none

/-- The operations, from a new map. -/
def futureRun (config : FutureConfig) (ops : List (FutureOp α)) : Option (FutureRun α) :=
  ops.foldlM (futureStep config) ⟨.init config, []⟩

variable {config : FutureConfig} {s s' : FutureRun α}

/-- How many indices the batches before the `k`-th took. -/
def position (allocated : List FutureIndices) (k : ℕ) : ℕ :=
  ((allocated.take k).map FutureIndices.bs).sum

/-- Where the indices of every batch lie, and that the buffer has room for them. -/
structure FutureRun.Inv (config : FutureConfig) (s : FutureRun α) : Prop where
  futureCt : s.map.futureCt = position s.allocated s.allocated.length % config.futureLimit
  start : ∀ {k : ℕ} {f : FutureIndices}, s.allocated[k]? = some f →
    f.start = position s.allocated k % config.futureLimit + 1 ∧ f.bs ≤ config.maxRunningRequests
  length_buf : ∀ {buf : List (Option α)}, s.map.buf = some buf →
    buf.length = config.futureBufferLen
  initialised : config.specAlgoIsNone = true → s.map.buf.isSome = true

theorem FutureConfig.futureLimit_pos (config : FutureConfig) : 0 < config.futureLimit :=
  Nat.mul_pos config.maxRunningRequests_pos (by omega)

/-- Indices are positive, so that their negations are no token ids, and in the buffer. -/
theorem FutureRun.Inv.bounds {k : ℕ} {f : FutureIndices} (hs : s.Inv config)
    (hf : s.allocated[k]? = some f) : 0 < f.start ∧ f.start + f.bs ≤ config.futureBufferLen := by
  obtain ⟨hstart, hbs⟩ := hs.start hf
  have hlt := Nat.mod_lt (position s.allocated k) config.futureLimit_pos
  unfold FutureConfig.futureBufferLen
  omega

theorem position_succ {allocated : List FutureIndices} {k : ℕ} {f : FutureIndices}
    (hf : allocated[k]? = some f) : position allocated (k + 1) = position allocated k + f.bs := by
  obtain ⟨hk, rfl⟩ := List.getElem?_eq_some_iff.mp hf
  rw [position, List.take_succ_eq_append_getElem hk, List.map_append, List.sum_append]
  simp [position]

/-- As far apart as two batches of at most `max_running_requests` indices each are at most. -/
theorem FutureRun.Inv.position_le (hs : s.Inv config) {j : ℕ} :
    ∀ {n : ℕ}, j + n ≤ s.allocated.length →
      position s.allocated (j + n) ≤ position s.allocated j + n * config.maxRunningRequests
  | 0, _ => by simp
  | n + 1, h => by
    have hget := List.getElem?_eq_getElem (l := s.allocated) (i := j + n) (by omega)
    have ih := hs.position_le (j := j) (n := n) (by omega)
    have hbs := (hs.start hget).2
    rw [← Nat.add_assoc, position_succ hget, Nat.succ_mul]
    omega

theorem position_mono {allocated : List FutureIndices} {j k : ℕ} (h : j ≤ k) :
    position allocated j ≤ position allocated k := by
  rw [position, position, ← List.take_append_drop j (allocated.take k), List.take_take,
    Nat.min_eq_left h, List.map_append, List.sum_append]
  exact Nat.le_add_right _ _

/-- Batches this close have no index in common. -/
theorem FutureRun.Inv.disjoint {j k : ℕ} {f g : FutureIndices} (hs : s.Inv config)
    (hf : s.allocated[j]? = some f) (hg : s.allocated[k]? = some g) (hlt : j < k)
    (hnear : k ≤ j + (2 + config.maxNumChunks)) {x y : ℕ} (hx : x < f.bs) (hy : y < g.bs) :
    f.start + x ≠ g.start + y := by
  obtain ⟨hstartf, -⟩ := hs.start hf
  obtain ⟨hstartg, hbs⟩ := hs.start hg
  have hk := (List.getElem?_eq_some_iff.mp hg).1
  have hafter : position s.allocated j + f.bs ≤ position s.allocated k := by
    rw [← position_succ hf]
    exact position_mono hlt
  have hturn : position s.allocated k + g.bs ≤ position s.allocated j + config.futureLimit := by
    have hle := hs.position_le (j := j) (n := k - j) (by omega)
    have hmul := Nat.mul_le_mul_right config.maxRunningRequests
      (show k - j ≤ 2 + config.maxNumChunks by omega)
    rw [Nat.add_sub_cancel' hlt.le] at hle
    unfold FutureConfig.futureLimit
    nlinarith
  have hne := ring_ne hafter hturn hx hy
  omega

/-- What a store does : nothing for an empty slice, and else it writes the slice. -/
theorem storeToMap_cases {m : FutureMap α} {f : FutureIndices} (rows : List α)
    (hready : config.specAlgoIsNone = true → m.buf.isSome = true)
    (hf : f.start + f.bs ≤ config.futureBufferLen) :
    (f.bs = 0 ∧ storeToMap config m f rows = m) ∨ storeToMap config m f rows =
      { m with buf := some (setSlice (m.buf.getD (emptyBuf config)) f.start (rows.map some)) } := by
  unfold storeToMap
  split_ifs with hnone hslice
  · obtain ⟨buf, hbuf⟩ := Option.isSome_iff_exists.mp (hready hnone)
    rw [hbuf]
    exact .inr rfl
  · simp only [isEmptySlice, decide_eq_true_eq] at hslice
    exact .inl ⟨by omega, rfl⟩
  · exact .inr rfl

theorem lookup_eq (config : FutureConfig) (m : FutureMap α) (slot : ℕ) :
    m.lookup slot = ((m.buf.getD (emptyBuf config))[slot]?).join := by
  cases hm : m.buf with
  | some buf => simp [FutureMap.lookup, hm]
  | none =>
    simp only [FutureMap.lookup, hm, Option.bind_none, Option.getD_none, emptyBuf,
      List.getElem?_replicate]
    split_ifs <;> rfl

/-- After a store its slice holds the rows, and every other index what it held. -/
theorem lookup_storeToMap {m : FutureMap α} {f : FutureIndices} {rows : List α}
    (hbuf : (m.buf.getD (emptyBuf config)).length = config.futureBufferLen)
    (hready : config.specAlgoIsNone = true → m.buf.isSome = true)
    (hf : f.start + f.bs ≤ config.futureBufferLen) (hrows : rows.length = f.bs) (slot : ℕ) :
    (storeToMap config m f rows).lookup slot =
      if f.start ≤ slot ∧ slot < f.start + f.bs then rows[slot - f.start]? else m.lookup slot := by
  rcases storeToMap_cases rows hready hf with ⟨hempty, hstore⟩ | hstore
  · rw [hstore, if_neg (by omega)]
  · rw [hstore, lookup_eq config, lookup_eq config m, Option.getD_some,
      getElem?_setSlice (by rw [List.length_map, hrows, hbuf]; exact hf), List.length_map, hrows]
    split_ifs
    · rw [List.getElem?_map]
      cases rows[slot - f.start]? <;> rfl
    · rfl

theorem FutureRun.Inv.length_getD (hs : s.Inv config) :
    (s.map.buf.getD (emptyBuf config)).length = config.futureBufferLen := by
  cases hbuf : s.map.buf with
  | some buf => exact hs.length_buf hbuf
  | none => simp [emptyBuf]

theorem inv_init (config : FutureConfig) : (⟨.init config, []⟩ : FutureRun α).Inv config where
  futureCt := by simp [FutureMap.init, position]
  start := by simp
  length_buf := by
    unfold FutureMap.init
    dsimp only
    split_ifs <;> simp +contextual [emptyBuf, eq_comm]
  initialised := by
    intro hnone
    simp [FutureMap.init, hnone]

/-- What an operation can do. -/
theorem futureStep_cases {op : FutureOp α} (h : futureStep config s op = some s') :
    (∃ bs, op = .alloc bs ∧ bs ≤ config.maxRunningRequests ∧
      s' = ⟨{ s.map with futureCt := (s.map.futureCt + bs) % config.futureLimit },
        s.allocated ++ [⟨s.map.futureCt + 1, bs⟩]⟩) ∨
    (∃ k rows f, op = .store k rows ∧ s.allocated[k]? = some f ∧ rows.length = f.bs ∧
      s' = { s with map := storeToMap config s.map f rows }) := by
  cases op with
  | alloc bs =>
    simp only [futureStep, allocFutureIndices] at h
    split_ifs at h with hbs
    exact .inl ⟨bs, rfl, hbs, (Option.some.inj h).symm⟩
  | store k rows =>
    obtain ⟨f, hf, h⟩ := Option.bind_eq_some_iff.mp h
    split_ifs at h with hrows
    exact .inr ⟨k, rows, f, rfl, hf, hrows, (Option.some.inj h).symm⟩

theorem position_append {allocated : List FutureIndices} {k : ℕ} (hk : k ≤ allocated.length)
    (f : FutureIndices) : position (allocated ++ [f]) k = position allocated k := by
  rw [position, List.take_append_of_le_length hk, position]

theorem FutureRun.Inv.step {op : FutureOp α} (hs : s.Inv config)
    (h : futureStep config s op = some s') : s'.Inv config := by
  rcases futureStep_cases h with ⟨bs, -, hbs, rfl⟩ | ⟨k, rows, f, -, hf, hrows, rfl⟩
  · constructor
    · have hall : ∀ f : FutureIndices, position (s.allocated ++ [f]) (s.allocated ++ [f]).length
          = position s.allocated s.allocated.length + f.bs := by
        simp [position]
      dsimp only
      rw [hall, hs.futureCt, Nat.mod_add_mod]
    · intro k f hf
      dsimp only at hf ⊢
      rcases Nat.lt_or_ge k s.allocated.length with hk | hk
      · rw [List.getElem?_append_left hk] at hf
        rw [position_append hk.le]
        exact hs.start hf
      · rw [List.getElem?_append_right hk, List.getElem?_singleton] at hf
        split_ifs at hf with hzero
        obtain rfl := Option.some.inj hf
        rw [show k = s.allocated.length by omega, position_append le_rfl, ← hs.futureCt]
        exact ⟨rfl, hbs⟩
    · exact hs.length_buf
    · exact hs.initialised
  · have hroom := (hs.bounds hf).2
    rcases storeToMap_cases rows hs.initialised hroom with ⟨-, hstore⟩ | hstore
    · rw [hstore]
      exact hs
    · rw [hstore]
      refine ⟨hs.futureCt, hs.start, fun hbuf => ?_, fun _ => rfl⟩
      rw [← Option.some.inj hbuf, length_setSlice, hs.length_getD]
      rw [List.length_map, hs.length_getD, hrows]
      exact hroom

theorem inv_of_run {ops : List (FutureOp α)} : ∀ {s s' : FutureRun α}, s.Inv config →
    ops.foldlM (futureStep config) s = some s' → s'.Inv config := by
  induction ops with
  | nil =>
    rintro s s' hs h
    obtain rfl := Option.some.inj h
    exact hs
  | cons op ops ih =>
    rintro s s' hs h
    obtain ⟨s₁, hstep, hrun⟩ := Option.bind_eq_some_iff.mp h
    exact ih (hs.step hstep) hrun

/-- Operations that leave the result of the `k`-th batch : stores of other batches that are near. -/
def FutureOp.Keeps (config : FutureConfig) (k : ℕ) : FutureOp α → Prop
  | .alloc _ => True
  | .store j _ => j ≠ k ∧ j ≤ k + (2 + config.maxNumChunks) ∧ k ≤ j + (2 + config.maxNumChunks)

/-- The indices of the `k`-th batch hold `rows`. -/
def FutureRun.Holds (s : FutureRun α) (k : ℕ) (rows : List α) : Prop :=
  ∃ f, s.allocated[k]? = some f ∧ rows.length = f.bs ∧
    ∀ {i : ℕ} {row : α}, rows[i]? = some row → s.map.lookup (f.start + i) = some row

theorem FutureRun.Holds.step {op : FutureOp α} {k : ℕ} {rows : List α} (hs : s.Inv config)
    (h : s.Holds k rows) (hop : op.Keeps config k) (hstep : futureStep config s op = some s') :
    s'.Holds k rows := by
  obtain ⟨f, hf, hlength, hrow⟩ := h
  rcases futureStep_cases hstep with ⟨bs, -, -, rfl⟩ | ⟨j, rows', g, rfl, hg, hrows', rfl⟩
  · have hk := (List.getElem?_eq_some_iff.mp hf).1
    exact ⟨f, by rwa [List.getElem?_append_left hk], hlength, hrow⟩
  · refine ⟨f, hf, hlength, fun {i row} hi => ?_⟩
    obtain ⟨hne, hle, hge⟩ := hop
    have hin : i < f.bs := hlength ▸ (List.getElem?_eq_some_iff.mp hi).1
    dsimp only
    rw [lookup_storeToMap hs.length_getD hs.initialised (hs.bounds hg).2 hrows', if_neg, hrow hi]
    rintro ⟨hstart, hend⟩
    have hy : f.start + i - g.start < g.bs := by omega
    rcases Nat.lt_or_gt_of_ne hne with hlt | hlt
    · exact hs.disjoint hg hf hlt hge hy hin (by omega)
    · exact hs.disjoint hf hg hlt hle hin hy (by omega)

theorem FutureRun.Holds.run {k : ℕ} {rows : List α} : ∀ {ops : List (FutureOp α)}
    {s s' : FutureRun α}, s.Inv config → s.Holds k rows → (∀ op ∈ ops, op.Keeps config k) →
    ops.foldlM (futureStep config) s = some s' → s'.Holds k rows
  | [], s, s', _, h, _, hrun => by
    obtain rfl := Option.some.inj hrun
    exact h
  | op :: ops, s, s', hs, h, hops, hrun => by
    obtain ⟨s₁, hstep, hrun⟩ := Option.bind_eq_some_iff.mp hrun
    exact FutureRun.Holds.run (hs.step hstep)
      (h.step hs (hops op List.mem_cons_self) hstep)
      (fun op hop => hops op (List.mem_cons_of_mem _ hop)) hrun

theorem holds_of_store {k : ℕ} {rows : List α} (hs : s.Inv config)
    (hstep : futureStep config s (.store k rows) = some s') : s'.Holds k rows := by
  rcases futureStep_cases hstep with ⟨bs, hop, -, -⟩ | ⟨j, rows', f, hop, hf, hrows, rfl⟩
  · cases hop
  · obtain ⟨rfl, rfl⟩ := FutureOp.store.inj hop
    refine ⟨f, hf, hrows, fun {i row} hi => ?_⟩
    have hin := (List.getElem?_eq_some_iff.mp hi).1
    dsimp only
    rw [lookup_storeToMap hs.length_getD hs.initialised (hs.bounds hf).2 hrows,
      if_pos (by omega), Nat.add_sub_cancel_left, hi]

/-- An index of a batch whose result `row` was stored by the operations, after which only batches
near it stored theirs. -/
def Pending (config : FutureConfig) (ops : List (FutureOp α)) (s : FutureRun α) (slot : ℕ)
    (row : α) : Prop :=
  ∃ k rows before after f i, ops = before ++ .store k rows :: after ∧
    (∀ op ∈ after, op.Keeps config k) ∧ s.allocated[k]? = some f ∧ rows[i]? = some row ∧
    slot = f.start + i

theorem Pending.lookup_eq {ops : List (FutureOp α)} {slot : ℕ} {row : α}
    (hrun : futureRun config ops = some s) (h : Pending config ops s slot row) :
    0 < slot ∧ s.map.lookup slot = some row := by
  obtain ⟨k, rows, before, after, f, i, rfl, hafter, hf, hi, rfl⟩ := h
  have hs := inv_of_run (inv_init config) hrun
  rw [futureRun, List.foldlM_append] at hrun
  obtain ⟨s₁, hbefore, hrun⟩ := Option.bind_eq_some_iff.mp hrun
  obtain ⟨s₂, hstore, hrun⟩ := Option.bind_eq_some_iff.mp hrun
  have hs₁ := inv_of_run (inv_init config) hbefore
  obtain ⟨g, hg, -, hrow⟩ := (holds_of_store hs₁ hstore).run (hs₁.step hstore) hafter hrun
  obtain rfl := Option.some.inj (hf.symm.trans hg)
  exact ⟨Nat.add_pos_left (hs.bounds hf).1 i, hrow hi⟩

/-- Whatever was allocated and stored before, in any order : with speculative decoding the indices
of near batches resolve to the rows these batches stored, and without it the negated ones to their
tokens, beside token ids, which stay as they are. -/
theorem resolveFuture_eq (config : FutureConfig) :
    (∀ {ops : List (FutureOp α)} {s : FutureRun α}, futureRun config ops = some s →
      ∀ {slots : List ℕ} {rows : List α}, List.Forall₂ (Pending config ops s) slots rows →
        resolveFutureRows slots s.map = rows.map some) ∧
    (∀ {ops : List (FutureOp ℤ)} {s : FutureRun ℤ}, futureRun config ops = some s →
      ∀ {inputIds tokens : List ℤ}, List.Forall₂ (fun id token => (0 ≤ id ∧ token = id) ∨
          ∃ slot : ℕ, id = -(slot : ℤ) ∧ Pending config ops s slot token) inputIds tokens →
        resolveFutureTokenIds inputIds s.map = tokens.map some) := by
  constructor
  · intro ops s hrun slots rows h
    induction h with
    | nil => rfl
    | cons hslot _ ih => exact congrArg₂ List.cons (hslot.lookup_eq hrun).2 ih
  · intro ops s hrun inputIds tokens h
    induction h with
    | nil => rfl
    | cons hid _ ih =>
      refine congrArg₂ List.cons ?_ ih
      rcases hid with ⟨hpos, rfl⟩ | ⟨slot, rfl, hslot⟩
      · exact if_neg (not_lt.mpr hpos)
      · obtain ⟨hpos, hlookup⟩ := hslot.lookup_eq hrun
        dsimp only
        rw [if_pos (by omega), show (max (-(-(slot : ℤ))) 0).toNat = slot by omega, hlookup]

/-- Six indices, for batches of two. -/
def twoRequests : FutureConfig where
  maxRunningRequests := 2
  maxRunningRequests_pos := Nat.two_pos
  chunkedPrefillSize := 0
  contextLen := 16
  specAlgoIsNone := true

/-- The last batch runs over the end of the ring, and the second is still there. -/
theorem resolveFuture_four :
    (futureRun twoRequests [.alloc 1, .alloc 2, .store 1 [7, 8], .alloc 2, .alloc 2,
      .store 3 [9, 10]]).map (fun s => (resolveFutureRows [3, 7] s.map,
        resolveFutureTokenIds [-3, 42, -7] s.map))
      = some ([some 8, some 10], [some 8, some 42, some 10]) := by
  set ops : List (FutureOp ℤ) :=
    [.alloc 1, .alloc 2, .store 1 [7, 8], .alloc 2, .alloc 2, .store 3 [9, 10]] with hops
  obtain ⟨s, hrun⟩ := Option.isSome_iff_exists.mp
    (show (futureRun twoRequests ops).isSome = true from rfl)
  have hallocated : s.allocated = [⟨1, 1⟩, ⟨2, 2⟩, ⟨4, 2⟩, ⟨6, 2⟩] :=
    (Option.some.inj (congrArg (Option.map FutureRun.allocated) hrun)).symm
  have hchunks : twoRequests.maxNumChunks = 0 := rfl
  have hsecond : Pending twoRequests ops s 3 8 :=
    ⟨1, [7, 8], [.alloc 1, .alloc 2], _, ⟨2, 2⟩, 1, rfl, by simp [FutureOp.Keeps, hchunks],
      by rw [hallocated]; rfl, rfl, rfl⟩
  have hlast : Pending twoRequests ops s 7 10 :=
    ⟨3, [9, 10], ops.take 5, [], ⟨6, 2⟩, 1, rfl, by simp, by rw [hallocated]; rfl, rfl, rfl⟩
  have hrows : resolveFutureRows [3, 7] s.map = [some 8, some 10] :=
    (@resolveFuture_eq ℤ twoRequests).1 hrun (.cons hsecond (.cons hlast .nil))
  have htokens : resolveFutureTokenIds [-3, 42, -7] s.map = [some 8, some 42, some 10] :=
    (@resolveFuture_eq ℤ twoRequests).2 hrun (.cons (.inr ⟨3, rfl, hsecond⟩)
      (.cons (.inl ⟨by decide, rfl⟩) (.cons (.inr ⟨7, rfl, hlast⟩) .nil)))
  rw [hrun, Option.map_some, hrows, htokens]

end DraftOpd
