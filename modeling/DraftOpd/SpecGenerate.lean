import DraftOpd.Autoregress
import DraftOpd.Verify

/-!
# The reference generators

`spec_generate` (`diffusion/dflash/model/dflash.py:235-319`) and `dflash_generate`
(`diffusion/dflash/benchmark.py:60-177`) decode one prompt at temperature 0 with a draft
of `block_size` tokens a time, in a buffer of `max_length + block_size` ids that starts
full of mask tokens. `GenState` is what their loop carries : the buffer, `start`, the two
caches, the pending rows of `target_hidden` and the acceptance lengths. Both run the same
loop (`decodeLoop`) ; `dflash_generate` leaves the draft model out when the block size is
one.

The target answers by an arbitrary function of the tokens it has seen with their
positions, the draft model by an arbitrary function of the state. `AtHead` is the
invariant of the loop, `atHead_iterate` its step, and `generators_lossless` what both
functions return.
-/

namespace DraftOpd

/-! ## Assignments to a row of a tensor -/

/-- What the generators can raise. -/
inductive GenError where
  | emptyPrompt
  | shapeMismatch
  | indexOutOfRange
  | positionMismatch
  | zeroDivision
  | outOfFuel
  deriving DecidableEq, Repr

/-- `xs[lo:hi] = vs` : the bounds are clamped to the row, and one value fills the slice. -/
def assignSlice (xs : List ℤ) (lo hi : ℕ) (vs : List ℤ) : Except GenError (List ℤ) :=
  let slice := (xs.take hi).drop lo
  if vs.length = slice.length then .ok (xs.take lo ++ vs ++ xs.drop (lo + slice.length))
  else if vs.length = 1 then
    .ok (xs.take lo ++ List.replicate slice.length (vs.headD 0) ++ xs.drop (lo + slice.length))
  else .error .shapeMismatch

/-- `xs[i] = v`. -/
def assignIndex (xs : List ℤ) (i : ℕ) (v : ℤ) : Except GenError (List ℤ) :=
  if i < xs.length then .ok (xs.set i v) else .error .indexOutOfRange

/-- `xs[i]`, raising `e` outside the row. -/
def readIndex (xs : List ℤ) (i : ℕ) (e : GenError) : Except GenError ℤ :=
  match xs[i]? with
  | some v => .ok v
  | none => .error e

/-- An assignment of the slice's own length, inside the row. -/
theorem assignSlice_append (xs ys zs vs : List ℤ) (h : vs.length = ys.length) :
    assignSlice (xs ++ ys ++ zs) xs.length (xs.length + ys.length) vs = .ok (xs ++ vs ++ zs) := by
  have hs : ((xs ++ ys ++ zs).take (xs.length + ys.length)).drop xs.length = ys := by
    rw [← List.length_append, List.take_left, List.drop_left]
  unfold assignSlice
  simp only [hs, h, if_true]
  rw [List.append_assoc xs ys zs, List.take_left, ← List.append_assoc, ← List.length_append,
    List.drop_left]

/-- An assignment to an empty slice at the end of the row, of one value. -/
theorem assignSlice_empty (xs : List ℤ) (v : ℤ) :
    assignSlice xs xs.length xs.length [v] = .ok xs := by
  simp [assignSlice]

theorem assignIndex_append (xs zs : List ℤ) (y v : ℤ) :
    assignIndex (xs ++ y :: zs) xs.length v = .ok (xs ++ v :: zs) := by
  rw [assignIndex, if_pos (by simp), List.set_append_right _ _ (le_refl _), Nat.sub_self,
    List.set_cons_zero]

/-! ## The generators -/

/-- What the loop carries from one iteration to the next. -/
structure GenState where
  /-- `output_ids`, one row. -/
  outputIds : List ℤ
  start : ℕ
  /-- The tokens, with their positions, whose keys and values the target's cache holds. -/
  targetCache : List (ℤ × ℕ)
  /-- `past_key_values_draft.get_seq_length()`. -/
  draftCacheLen : ℕ
  /-- Rows of `target_hidden` the draft model has not read yet ; 0 where it is never set. -/
  targetHidden : ℕ
  acceptanceLengths : List ℕ
  stoppedByEos : Bool
  /-- The ranges of `output_ids` written so far : a record of the model, not of the source. -/
  writes : List (ℕ × ℕ)

/-- The arguments of a call. -/
structure Generator where
  /-- The target's greedy token after a sequence of tokens at their positions. -/
  target : List (ℤ × ℕ) → ℤ
  /-- The draft model's token at a row of the block, whatever it reads of the state. -/
  draft : GenState → ℕ → ℤ
  inputIds : List ℤ
  maskTokenId : ℤ
  blockSize : ℕ
  maxNewTokens : ℕ
  stopTokenIds : Option (List ℤ)

namespace Generator

/-- The target's answer to a prefix : its tokens at the positions from 0 on. -/
def next (g : Generator) (ids : List ℤ) : ℤ := g.target ids.zipIdx

def numInputTokens (g : Generator) : ℕ := g.inputIds.length

def maxLength (g : Generator) : ℕ := g.numInputTokens + g.maxNewTokens

/-- The stop ids, none when `stop_token_ids is None`. -/
def stops (g : Generator) : List ℤ := g.stopTokenIds.getD []

/-- `position_ids[:, lo : hi]` of `arange(output_ids.shape[1])`. -/
def positionIds (g : Generator) (lo hi : ℕ) : List ℕ :=
  ((List.range (g.maxLength + g.blockSize)).take hi).drop lo

/-- The target's forward over `ids` at `positions` : one token for each row. -/
def targetForward (g : Generator) (cache : List (ℤ × ℕ)) (ids : List ℤ) (positions : List ℕ) :
    List ℤ :=
  (List.range ids.length).map fun t => g.target (cache ++ (ids.zip positions).take (t + 1))

/-- The prefill : the prompt and the target's first token are written into the buffer. -/
def prefill (g : Generator) (usesDraft : Bool) : Except GenError GenState := do
  let positions := g.positionIds 0 g.numInputTokens
  let first ← readIndex (g.targetForward [] g.inputIds positions) (g.numInputTokens - 1)
    .emptyPrompt
  let blank := List.replicate (g.maxLength + g.blockSize) g.maskTokenId
  let outputIds ← assignSlice blank 0 g.numInputTokens g.inputIds
  let outputIds ← assignSlice outputIds g.numInputTokens (g.numInputTokens + 1) [first]
  pure
    { outputIds
      start := g.numInputTokens
      targetCache := g.inputIds.zip positions
      draftCacheLen := 0
      targetHidden := if usesDraft then g.inputIds.length else 0
      acceptanceLengths := []
      stoppedByEos := false
      writes := [(0, g.numInputTokens), (g.numInputTokens, g.numInputTokens + 1)] }

/-- The draft model's tokens written into the block : `[:, -block_size+1:, :]` of its rows
is all of them for a block of one. The rotary embedding needs a position for each row it
appends to its cache, or one for all. -/
def propose (g : Generator) (s : GenState) (block : List ℤ) :
    Except GenError (List ℤ × ℕ) := do
  let positions := g.positionIds s.draftCacheLen (s.start + g.blockSize)
  if positions.length ≠ s.targetHidden + block.length ∧ positions.length ≠ 1 then
    throw .positionMismatch
  let rows := (List.range block.length).map (g.draft s)
  let drafted := if g.blockSize = 1 then rows else rows.drop (rows.length - (g.blockSize - 1))
  let block ← assignSlice block 1 block.length drafted
  -- `past_key_values_draft.crop(start)`
  pure (block, min s.start (s.draftCacheLen + s.targetHidden + rows.length))

/-- The block to verify and the draft cache's length, with or without the draft model. -/
def draftBlock (g : Generator) (usesDraft : Bool) (s : GenState) (block : List ℤ) :
    Except GenError (List ℤ × ℕ) :=
  if usesDraft then g.propose s block else .ok (block, s.draftCacheLen)

/-- `(block_output_ids[:, 1:] == posterior[:, :-1]).cumprod(dim=1).sum(dim=1)`. -/
def acceptanceLength (block posterior : List ℤ) : ℕ :=
  (cumprod 1 ((List.zipWith (fun b p => b == p) block.tail posterior.dropLast).map
    Bool.toNat)).sum

/-- Does some stop id occur in `output_ids[:, num_input_tokens:]`. -/
def stopFound (g : Generator) (outputIds : List ℤ) : Bool :=
  g.stops.any fun stop => (outputIds.drop g.numInputTokens).contains stop

/-- One iteration of the `while` loop. -/
def iterate (g : Generator) (usesDraft : Bool) (s : GenState) : Except GenError GenState := do
  let (block, draftCacheLen) ← g.draftBlock usesDraft s
    ((s.outputIds.take (s.start + g.blockSize)).drop s.start)
  let positions := g.positionIds s.start (s.start + g.blockSize)
  let posterior := g.targetForward s.targetCache block positions
  let acc := acceptanceLength block posterior
  let outputIds ← assignSlice s.outputIds s.start (s.start + acc + 1) (block.take (acc + 1))
  let last ← readIndex posterior acc .indexOutOfRange
  let outputIds ← assignIndex outputIds (s.start + acc + 1) last
  pure
    { outputIds
      start := s.start + acc + 1
      -- `past_key_values_target.crop(start)`
      targetCache := (s.targetCache ++ block.zip positions).take (s.start + acc + 1)
      draftCacheLen
      targetHidden := if usesDraft then min (acc + 1) posterior.length else 0
      acceptanceLengths := s.acceptanceLengths ++ [acc + 1]
      stoppedByEos := g.stopFound outputIds
      writes := s.writes ++
        [(s.start, s.start + acc + 1), (s.start + acc + 1, s.start + acc + 2)] }

/-- `while start < max_length`, left by `break` once a stop id is found. -/
def decodeLoop (g : Generator) (usesDraft : Bool) : ℕ → GenState → Except GenError GenState
  | fuel, s =>
    if s.stoppedByEos ∨ g.maxLength ≤ s.start then .ok s
    else match fuel with
      | 0 => .error .outOfFuel
      | fuel + 1 => do g.decodeLoop usesDraft fuel (← g.iterate usesDraft s)

/-- The last lines of both : cut at `max_length`, drop the mask tokens, cut after the
first stop token. -/
def finish (g : Generator) (s : GenState) : List ℤ :=
  let outputIds := (s.outputIds.take g.maxLength).filter (· ≠ g.maskTokenId)
  match g.stopTokenIds with
  | none => outputIds
  | some stops =>
    match (outputIds.drop g.numInputTokens).findIdx? (· ∈ stops) with
    | some i => outputIds.take (g.numInputTokens + i + 1)
    | none => outputIds

/-- `spec_generate` (`dflash.py:235-319`). -/
def specGenerate (g : Generator) (fuel : ℕ) : Except GenError (List ℤ) := do
  let s ← g.decodeLoop true fuel (← g.prefill true)
  pure (g.finish s)

/-- What `dflash_generate` returns, less the times. -/
structure Response where
  outputIds : List ℤ
  numInputTokens : ℕ
  numOutputTokens : ℤ
  acceptanceLengths : List ℕ
  hitTokenLimit : Bool
  deriving DecidableEq, Repr

/-- `if block_size > 1` of `dflash_generate`. -/
def drafts (g : Generator) : Bool := decide (1 < g.blockSize)

/-- `dflash_generate` (`benchmark.py:60-177`) ; it divides the decode time by the number
of output tokens. -/
def dflashGenerate (g : Generator) (fuel : ℕ) : Except GenError Response := do
  let s ← g.decodeLoop g.drafts fuel (← g.prefill g.drafts)
  let outputIds := g.finish s
  let numOutputTokens : ℤ := outputIds.length - g.numInputTokens
  if numOutputTokens = 0 then throw .zeroDivision
  pure
    { outputIds
      numInputTokens := g.numInputTokens
      numOutputTokens
      acceptanceLengths := s.acceptanceLengths
      hitTokenLimit := !s.stoppedByEos }

/-- The states the loop passes through : after the prefill, and after each iteration. -/
inductive Reached (g : Generator) (usesDraft : Bool) : GenState → Prop
  | prefill {s} : g.prefill usesDraft = .ok s → Reached g usesDraft s
  | iterate {s s'} : Reached g usesDraft s → s.stoppedByEos = false → s.start < g.maxLength →
      g.iterate usesDraft s = .ok s' → Reached g usesDraft s'

/-! ## One iteration -/

/-- The prompt and the first `k` tokens of the target's own sequence. -/
def greedy (g : Generator) (k : ℕ) : List ℤ :=
  g.inputIds ++ autoregress g.next g.inputIds k

@[simp] theorem length_greedy (g : Generator) (k : ℕ) :
    (g.greedy k).length = g.numInputTokens + k := by
  simp [greedy, numInputTokens]

theorem greedy_succ (g : Generator) (k : ℕ) :
    g.greedy (k + 1) = g.greedy k ++ [g.next (g.greedy k)] := by
  simp [greedy, autoregress]

theorem positionIds_eq (g : Generator) {lo hi : ℕ} (h : hi ≤ g.maxLength + g.blockSize) :
    g.positionIds lo hi = List.range' lo (hi - lo) := by
  rw [positionIds, List.take_range, min_eq_left h, List.range_eq_range', List.drop_range']
  simp

theorem take_zipIdx (xs : List ℤ) (n i : ℕ) : (xs.zipIdx i).take n = (xs.take n).zipIdx i := by
  induction xs generalizing n i with
  | nil => simp
  | cons x xs ih =>
    cases n with
    | zero => simp
    | succ n => simp [ih]

/-- Tokens at the positions after a cache are the cache's sequence continued. -/
theorem targetForward_eq (g : Generator) (ids block : List ℤ) :
    g.targetForward ids.zipIdx block (List.range' ids.length block.length) =
      (List.range block.length).map fun t => g.next (ids ++ block.take (t + 1)) := by
  refine List.map_congr_left fun t _ => ?_
  rw [next, ← List.zipIdx_eq_zip_range', List.zipIdx_append, take_zipIdx, Nat.zero_add]

/-- The accept length of a block that starts with the current token `c` : the drafted
tokens `ds` agree so far with the target's answers along them. -/
def acceptance (g : Generator) (ids : List ℤ) (c : ℤ) (ds : List ℤ) : ℕ :=
  ((List.zipWith (fun b p => b == p) ds ((List.range ds.length).map fun t =>
    g.next (ids ++ c :: ds.take t))).takeWhile id).length

theorem acceptance_le (g : Generator) (ids : List ℤ) (c : ℤ) (ds : List ℤ) :
    g.acceptance ids c ds ≤ ds.length := by
  refine (List.takeWhile_sublist _).length_le.trans ?_
  simp

/-- What the iteration adds to the current token follows the target's own sequence. -/
theorem follows_acceptance (g : Generator) (ids : List ℤ) (c : ℤ) (ds : List ℤ) :
    Follows g.next (ids ++ [c]) (ds.take (g.acceptance ids c ds) ++
      [g.next (ids ++ c :: ds.take (g.acceptance ids c ds))]) := by
  have hle := g.acceptance_le ids c ds
  have hagree : Follows g.next (ids ++ [c]) (ds.take (g.acceptance ids c ds)) := by
    refine follows_take_of_agree _ hle fun t ht => ?_
    have h := (getElem?_takeWhile_id _).1 t ht
    have hd : t < ds.length := by omega
    simp only [List.getElem?_zipWith, List.getElem?_map, List.getElem?_range hd,
      List.getElem?_eq_getElem hd, Option.map_some, Option.some_inj, beq_iff_eq] at h ⊢
    simpa using h
  have hsnoc := hagree.snoc
  rwa [List.append_assoc, List.singleton_append] at hsnoc

/-- The target's sequence after the current token and what the iteration adds to it. -/
theorem greedy_acceptance (g : Generator) (k : ℕ) (ds : List ℤ) :
    let c := g.next (g.greedy k)
    let acc := g.acceptance (g.greedy k) c ds
    g.greedy (k + acc + 1) = g.greedy k ++ c :: ds.take acc ∧
      g.greedy (k + acc + 2) =
        g.greedy k ++ c :: ds.take acc ++ [g.next (g.greedy k ++ c :: ds.take acc)] := by
  intro c acc
  have hacc : acc ≤ ds.length := g.acceptance_le _ _ _
  have hk : Follows g.next g.inputIds (autoregress g.next g.inputIds (k + 1)) := by
    simp [Follows]
  have hctx : g.inputIds ++ autoregress g.next g.inputIds (k + 1) = g.greedy k ++ [c] :=
    g.greedy_succ k
  have hblock := g.follows_acceptance (g.greedy k) c ds
  rw [← hctx] at hblock
  have hall : Follows g.next g.inputIds _ := hk.append _ hblock
  have hlen : (autoregress g.next g.inputIds (k + 1) ++ (ds.take acc ++
      [g.next (g.greedy k ++ c :: ds.take acc)])).length = k + acc + 2 := by
    simp [hacc]
    omega
  have htwo : g.greedy (k + acc + 2) =
      g.greedy k ++ c :: ds.take acc ++ [g.next (g.greedy k ++ c :: ds.take acc)] := by
    unfold Follows at hall
    rw [hlen] at hall
    rw [greedy, ← hall, ← List.append_assoc, hctx]
    simp [acc]
  refine ⟨?_, htwo⟩
  rw [greedy_succ g (k + acc + 1)] at htwo
  exact (List.append_inj' htwo rfl).1

/-- The state of the loop after `k` tokens beyond the first. -/
structure AtHead (g : Generator) (usesDraft : Bool) (k : ℕ) (s : GenState) : Prop where
  start : s.start = g.numInputTokens + k
  bound : k < g.maxNewTokens + g.blockSize
  outputIds : s.outputIds =
    g.greedy (k + 1) ++ List.replicate (g.maxNewTokens + g.blockSize - (k + 1)) g.maskTokenId
  targetCache : s.targetCache = (g.greedy k).zipIdx
  draftCache : usesDraft = true → s.draftCacheLen + s.targetHidden = s.start
  writes : ∀ w ∈ s.writes, w.2 ≤ g.maxLength + g.blockSize
  stopped : s.stoppedByEos = true → g.stopFound s.outputIds = true

/-- The draft model replaces all but the current token, and its cache is cut at `start`. -/
theorem propose_eq (g : Generator) (hB : 1 ≤ g.blockSize) {s : GenState}
    (hstart : s.start ≤ g.maxLength) (hdraft : s.draftCacheLen + s.targetHidden = s.start)
    (c : ℤ) (masks : List ℤ) (hmasks : masks.length = g.blockSize - 1) :
    ∃ ds, ds.length = g.blockSize - 1 ∧ g.propose s (c :: masks) = .ok (c :: ds, s.start) := by
  have hlen : (c :: masks).length = g.blockSize := by
    rw [List.length_cons, hmasks]
    omega
  have hpos : (g.positionIds s.draftCacheLen (s.start + g.blockSize)).length =
      s.targetHidden + g.blockSize := by
    rw [positionIds_eq g (by omega), List.length_range']
    omega
  have hcrop : min s.start (s.draftCacheLen + s.targetHidden + g.blockSize) = s.start := by
    omega
  rcases Nat.lt_or_ge 1 g.blockSize with hB' | hB'
  · refine ⟨((List.range g.blockSize).map (g.draft s)).drop (g.blockSize - (g.blockSize - 1)),
      by simp; omega, ?_⟩
    have hassign := assignSlice_append [c] masks []
      (((List.range g.blockSize).map (g.draft s)).drop (g.blockSize - (g.blockSize - 1)))
      (by simp [hmasks]; omega)
    rw [List.append_nil, List.append_nil, List.length_singleton, Nat.add_comm 1,
      ← List.length_cons, hlen] at hassign
    unfold propose
    simp only [hlen, hpos, ne_eq, not_true_eq_false, false_and, if_false, List.length_map,
      List.length_range, if_neg (by omega : ¬g.blockSize = 1), hcrop]
    rw [show c :: masks = [c] ++ masks from rfl, hassign]
    rfl
  · have hone : g.blockSize = 1 := by omega
    obtain rfl : masks = [] := List.length_eq_zero_iff.mp (by omega)
    refine ⟨[], by simp [hone], ?_⟩
    rw [hone] at hpos hcrop
    unfold propose
    simp only [hpos, hone, List.length_singleton, ne_eq, not_true_eq_false, false_and, if_false,
      if_true, List.range_one, List.map_cons, List.map_nil]
    rw [show assignSlice [c] 1 1 [g.draft s 0] = .ok [c] from assignSlice_empty [c] _, hcrop]
    rfl

/-- The target accepts the leading tokens of the block that agree with its own. -/
theorem acceptanceLength_eq (g : Generator) (ids : List ℤ) (c : ℤ) (ds : List ℤ) :
    acceptanceLength (c :: ds) ((List.range (c :: ds).length).map fun t =>
      g.next (ids ++ (c :: ds).take (t + 1))) = g.acceptance ids c ds := by
  have hmatch : ((List.range (c :: ds).length).map fun t =>
      g.next (ids ++ (c :: ds).take (t + 1))).dropLast =
      (List.range ds.length).map fun t => g.next (ids ++ c :: ds.take t) := by
    rw [List.length_cons, List.range_succ, List.map_append]
    simp
  rw [acceptanceLength, hmatch, List.tail_cons, sum_cumprod_one]
  rfl

/-- What an iteration leaves in `output_ids` : the accepted tokens, then the target's own. -/
theorem iterate_writes (ids ds rest : List ℤ) (c token : ℤ) {acc : ℕ}
    (hacc : acc ≤ ds.length) (hrest : acc < rest.length) :
    assignSlice (ids ++ c :: rest) ids.length (ids.length + acc + 1) ((c :: ds).take (acc + 1)) =
        .ok (ids ++ c :: ds.take acc ++ rest.drop acc) ∧
      assignIndex (ids ++ c :: ds.take acc ++ rest.drop acc) (ids.length + acc + 1) token =
        .ok (ids ++ c :: ds.take acc ++ token :: rest.drop (acc + 1)) := by
  constructor
  · have h := assignSlice_append ids (c :: rest.take acc) (rest.drop acc) (c :: ds.take acc)
      (by simp; omega)
    have hl : (c :: rest.take acc).length = acc + 1 := by
      simp
      omega
    rw [hl, ← Nat.add_assoc, List.append_assoc ids, List.cons_append, List.take_append_drop] at h
    exact h
  · have hl : ids.length + acc + 1 = (ids ++ c :: ds.take acc).length := by
      simp
      omega
    rw [List.drop_eq_getElem_cons hrest, hl]
    exact assignIndex_append _ _ _ _

/-- An iteration whose block is the current token `c` and the tokens `ds`, in the terms of
the accept length. -/
theorem iterate_eq (g : Generator) (usesDraft : Bool) {s : GenState} {ids ds rest : List ℤ}
    {c : ℤ} {draftCacheLen : ℕ} (hB : 1 ≤ g.blockSize) (hds : ds.length = g.blockSize - 1)
    (hrest : g.blockSize ≤ rest.length) (hstart : s.start = ids.length)
    (hmax : s.start ≤ g.maxLength) (hout : s.outputIds = ids ++ c :: rest)
    (hcache : s.targetCache = ids.zipIdx)
    (hblock : g.draftBlock usesDraft s (c :: rest.take (g.blockSize - 1)) =
      .ok (c :: ds, draftCacheLen)) :
    let acc := g.acceptance ids c ds
    let outputIds := ids ++ c :: ds.take acc ++
      g.next (ids ++ c :: ds.take acc) :: rest.drop (acc + 1)
    g.iterate usesDraft s = .ok
      { outputIds
        start := s.start + acc + 1
        targetCache := (ids ++ c :: ds.take acc).zipIdx
        draftCacheLen
        targetHidden := if usesDraft then acc + 1 else 0
        acceptanceLengths := s.acceptanceLengths ++ [acc + 1]
        stoppedByEos := g.stopFound outputIds
        writes := s.writes ++
          [(s.start, s.start + acc + 1), (s.start + acc + 1, s.start + acc + 2)] } := by
  intro acc outputIds
  have hacc : acc ≤ ds.length := g.acceptance_le _ _ _
  have hlen : (c :: ds).length = g.blockSize := by
    rw [List.length_cons, hds]
    omega
  have hslice : (s.outputIds.take (s.start + g.blockSize)).drop s.start =
      c :: rest.take (g.blockSize - 1) := by
    rw [hout, hstart, List.take_length_add_append, List.drop_left, List.take_cons (by omega)]
  have hpos : g.positionIds s.start (s.start + g.blockSize) =
      List.range' ids.length (c :: ds).length := by
    rw [positionIds_eq g (by omega), hstart, hlen, Nat.add_sub_cancel_left]
  have hpost := g.targetForward_eq ids (c :: ds)
  have hread : readIndex ((List.range (c :: ds).length).map fun t =>
      g.next (ids ++ (c :: ds).take (t + 1))) acc .indexOutOfRange =
      .ok (g.next (ids ++ c :: ds.take acc)) := by
    rw [readIndex, List.getElem?_map, List.getElem?_range (by simp; omega)]
    rfl
  obtain ⟨hwrite, hnext⟩ := iterate_writes ids ds rest c (g.next (ids ++ c :: ds.take acc)) hacc
    (show acc < rest.length by omega)
  rw [← hout, ← hstart] at hwrite
  rw [← hstart] at hnext
  change _ = Except.ok outputIds at hnext
  have hcrop : (s.targetCache ++ (c :: ds).zip (List.range' ids.length (c :: ds).length)).take
      (s.start + acc + 1) = (ids ++ c :: ds.take acc).zipIdx := by
    rw [hcache, ← List.zipIdx_eq_zip_range', ← Nat.zero_add ids.length, ← List.zipIdx_append,
      take_zipIdx, hstart, Nat.add_assoc, List.take_length_add_append, List.take_succ_cons]
  have hposterior : (List.range (c :: ds).length).map
      (fun t => g.next (ids ++ (c :: ds).take (t + 1))) =
      g.targetForward s.targetCache (c :: ds) (g.positionIds s.start (s.start + g.blockSize)) := by
    rw [hcache, hpos, hpost]
  have haccept : acceptanceLength (c :: ds) _ = acc := g.acceptanceLength_eq ids c ds
  rw [hposterior] at hread haccept
  unfold iterate
  rw [hslice, hblock]
  simp only [bind, Except.bind, haccept, hwrite, hread, hnext, pure, Except.pure]
  rw [hpos, hcrop, targetForward, List.length_map, List.length_range,
    min_eq_left (by simp; omega)]

/-- The block to verify is the current token and `block_size - 1` others, and the draft
cache is left at `start`. -/
theorem draftBlock_eq (g : Generator) (usesDraft : Bool) (hB : 1 ≤ g.blockSize) {s : GenState}
    (hstart : s.start ≤ g.maxLength)
    (hdraft : usesDraft = true → s.draftCacheLen + s.targetHidden = s.start)
    (c : ℤ) (masks : List ℤ) (hmasks : masks.length = g.blockSize - 1) :
    ∃ ds draftCacheLen, ds.length = g.blockSize - 1 ∧
      (usesDraft = true → draftCacheLen = s.start) ∧
      g.draftBlock usesDraft s (c :: masks) = .ok (c :: ds, draftCacheLen) := by
  cases usesDraft with
  | false => exact ⟨masks, s.draftCacheLen, hmasks, by simp, rfl⟩
  | true =>
    obtain ⟨ds, hds, heq⟩ := g.propose_eq hB hstart (hdraft rfl) c masks hmasks
    exact ⟨ds, s.start, hds, fun _ => rfl, heq⟩

/-- One iteration : it never raises, and commits between one and `block_size` tokens. -/
theorem atHead_iterate (g : Generator) (usesDraft : Bool) (hB : 1 ≤ g.blockSize)
    {s : GenState} {k : ℕ} (h : g.AtHead usesDraft k s) (hk : k < g.maxNewTokens) :
    ∃ acc s', g.iterate usesDraft s = .ok s' ∧ g.AtHead usesDraft (k + acc + 1) s' := by
  have hmax : s.start ≤ g.maxLength := by
    rw [h.start, maxLength]
    omega
  have hout := h.outputIds
  rw [greedy_succ, List.append_assoc, List.singleton_append] at hout
  obtain ⟨ds, draftCacheLen, hds, hcrop, hblock⟩ := g.draftBlock_eq usesDraft hB hmax
    h.draftCache (g.next (g.greedy k))
    ((List.replicate (g.maxNewTokens + g.blockSize - (k + 1)) g.maskTokenId).take
      (g.blockSize - 1)) (by simp; omega)
  have heq := g.iterate_eq usesDraft hB hds (by simp; omega) (by rw [h.start, length_greedy])
    hmax hout h.targetCache hblock
  obtain ⟨hone, htwo⟩ := g.greedy_acceptance k ds
  have hacc := g.acceptance_le (g.greedy k) (g.next (g.greedy k)) ds
  refine ⟨g.acceptance (g.greedy k) (g.next (g.greedy k)) ds, _, heq, ?_⟩
  constructor
  · simp only [h.start]
    omega
  · omega
  · simp only [List.drop_replicate]
    rw [htwo, List.append_assoc _ [_], List.singleton_append]
    congr 3
    omega
  · rw [hone]
  · intro hd
    simp only [hd, if_true, hcrop hd]
    omega
  · intro w hw
    simp only [List.mem_append, List.mem_cons, List.not_mem_nil, or_false] at hw
    rcases hw with hw | rfl | rfl
    · exact h.writes w hw
    · simp only [h.start, maxLength]
      omega
    · simp only [h.start, maxLength]
      omega
  · exact id

/-- The state after the prefill. -/
theorem atHead_prefill (g : Generator) (usesDraft : Bool) (hp : g.inputIds ≠ [])
    (hB : 1 ≤ g.blockSize) : ∃ s, g.prefill usesDraft = .ok s ∧ g.AtHead usesDraft 0 s := by
  have hn : 0 < g.numInputTokens := List.length_pos_iff.mpr hp
  have hpos : g.positionIds 0 g.numInputTokens = List.range' 0 g.inputIds.length := by
    rw [positionIds_eq g (by simp [maxLength]; omega)]
    rfl
  have hread : readIndex (g.targetForward [] g.inputIds (g.positionIds 0 g.numInputTokens))
      (g.numInputTokens - 1) .emptyPrompt = .ok (g.next g.inputIds) := by
    have hforward := g.targetForward_eq [] g.inputIds
    rw [List.zipIdx_nil, List.length_nil, ← hpos] at hforward
    rw [hforward, readIndex, List.getElem?_map,
      List.getElem?_range (by simp [numInputTokens] at hn ⊢; omega)]
    simp only [Option.map_some, List.nil_append, Nat.sub_add_cancel hn]
    rw [numInputTokens, List.take_length]
  have hprompt : assignSlice (List.replicate (g.maxLength + g.blockSize) g.maskTokenId) 0
      g.numInputTokens g.inputIds =
      .ok (g.inputIds ++ List.replicate (g.maxNewTokens + g.blockSize) g.maskTokenId) := by
    have h := assignSlice_append [] (List.replicate g.numInputTokens g.maskTokenId)
      (List.replicate (g.maxNewTokens + g.blockSize) g.maskTokenId) g.inputIds
      (by simp [numInputTokens])
    rw [List.nil_append, List.nil_append, List.replicate_append_replicate, ← Nat.add_assoc,
      List.length_nil, List.length_replicate, Nat.zero_add] at h
    exact h
  have hfirst : assignSlice (g.inputIds ++
      List.replicate (g.maxNewTokens + g.blockSize) g.maskTokenId) g.numInputTokens
      (g.numInputTokens + 1) [g.next g.inputIds] = .ok (g.inputIds ++ [g.next g.inputIds] ++
        List.replicate (g.maxNewTokens + g.blockSize - 1) g.maskTokenId) := by
    have h := assignSlice_append g.inputIds [g.maskTokenId]
      (List.replicate (g.maxNewTokens + g.blockSize - 1) g.maskTokenId) [g.next g.inputIds] rfl
    rw [List.append_assoc g.inputIds [g.maskTokenId], List.singleton_append,
      ← List.replicate_succ, Nat.sub_add_cancel (by omega)] at h
    exact h
  unfold prefill
  simp only [hread, bind, Except.bind, hprompt, hfirst, pure, Except.pure]
  refine ⟨_, rfl, ?_⟩
  constructor
  · rfl
  · omega
  · simp [greedy, autoregress]
  · simp [greedy, autoregress, hpos, List.zipIdx_eq_zip_range']
  · intro hd
    simp [hd, numInputTokens]
  · intro w hw
    simp only [List.mem_cons, List.not_mem_nil, or_false] at hw
    rcases hw with rfl | rfl <;> simp only [maxLength] <;> omega
  · intro h
    cases h

/-! ## Whole runs -/

/-- Every state the loop passes through. -/
theorem atHead_of_reached (g : Generator) (usesDraft : Bool) (hp : g.inputIds ≠ [])
    (hB : 1 ≤ g.blockSize) {s : GenState} (h : g.Reached usesDraft s) :
    ∃ k, g.AtHead usesDraft k s := by
  induction h with
  | prefill hs =>
    obtain ⟨s', hs', hat⟩ := g.atHead_prefill usesDraft hp hB
    rw [hs, Except.ok.injEq] at hs'
    exact ⟨0, hs' ▸ hat⟩
  | @iterate s s' _ _ hlt hs ih =>
    obtain ⟨k, hk⟩ := ih
    have hk' : k < g.maxNewTokens := by
      rw [hk.start, maxLength] at hlt
      omega
    obtain ⟨acc, s'', hs'', hat⟩ := g.atHead_iterate usesDraft hB hk hk'
    rw [hs, Except.ok.injEq] at hs''
    exact ⟨_, hs'' ▸ hat⟩

/-- The loop ends, within `max_new_tokens` iterations. -/
theorem decodeLoop_ok (g : Generator) (usesDraft : Bool) (hB : 1 ≤ g.blockSize) :
    ∀ (fuel : ℕ) {s : GenState} {k : ℕ}, g.AtHead usesDraft k s → g.maxNewTokens ≤ k + fuel →
      ∃ k' s', g.decodeLoop usesDraft fuel s = .ok s' ∧ g.AtHead usesDraft k' s' ∧
        (s'.stoppedByEos = true ∨ g.maxNewTokens ≤ k') := by
  intro fuel
  induction fuel with
  | zero =>
    intro s k h hfuel
    refine ⟨k, s, ?_, h, .inr hfuel⟩
    rw [decodeLoop, if_pos]
    right
    rw [h.start, maxLength]
    omega
  | succ fuel ih =>
    intro s k h hfuel
    by_cases hdone : s.stoppedByEos = true ∨ g.maxLength ≤ s.start
    · refine ⟨k, s, by rw [decodeLoop, if_pos hdone], h, hdone.imp_right fun hle => ?_⟩
      rw [h.start, maxLength] at hle
      omega
    · have hk : k < g.maxNewTokens := by
        have := (not_or.mp hdone).2
        rw [h.start, maxLength] at this
        omega
      obtain ⟨acc, s', hs', hat⟩ := g.atHead_iterate usesDraft hB h hk
      obtain ⟨k', s'', hloop, hrest⟩ := ih hat (by omega)
      refine ⟨k', s'', ?_, hrest⟩
      rw [decodeLoop, if_neg hdone]
      simp only [hs', bind, Except.bind, hloop]

end Generator

/-- A sequence up to its first stop token, that token included. -/
def cutAtStop (stops : List ℤ) : List ℤ → List ℤ
  | [] => []
  | x :: xs => if x ∈ stops then [x] else x :: cutAtStop stops xs

theorem cutAtStop_ne_nil {stops xs : List ℤ} (h : xs ≠ []) : cutAtStop stops xs ≠ [] := by
  cases xs with
  | nil => exact absurd rfl h
  | cons x xs =>
    rw [cutAtStop]
    split <;> simp

theorem cutAtStop_of_not_mem {stops : List ℤ} : ∀ {xs : List ℤ}, (∀ x ∈ xs, x ∉ stops) →
    cutAtStop stops xs = xs
  | [], _ => rfl
  | x :: xs, h => by
    rw [cutAtStop, if_neg (h x (by simp)), cutAtStop_of_not_mem fun y hy => h y (by simp [hy])]

/-- Past the first stop token nothing counts. -/
theorem cutAtStop_append {stops : List ℤ} (ys : List ℤ) : ∀ {xs : List ℤ},
    (∃ x ∈ xs, x ∈ stops) → cutAtStop stops (xs ++ ys) = cutAtStop stops xs
  | [], h => by simp at h
  | x :: xs, h => by
    rw [List.cons_append, cutAtStop, cutAtStop]
    by_cases hx : x ∈ stops
    · rw [if_pos hx, if_pos hx]
    · rw [if_neg hx, if_neg hx, cutAtStop_append ys]
      simpa [hx] using h

/-- Dropping a token that does not occur before the cut. -/
theorem cutAtStop_filter {stops : List ℤ} {mask : ℤ} : ∀ {xs : List ℤ},
    mask ∉ cutAtStop stops xs → cutAtStop stops (xs.filter (· ≠ mask)) = cutAtStop stops xs
  | [], _ => rfl
  | x :: xs, h => by
    rw [cutAtStop] at h ⊢
    by_cases hx : x ∈ stops
    · rw [if_pos hx, List.mem_singleton] at h
      rw [if_pos hx, List.filter_cons_of_pos (by simpa using Ne.symm h), cutAtStop, if_pos hx]
    · rw [if_neg hx, List.mem_cons, not_or] at h
      rw [if_neg hx, List.filter_cons_of_pos (by simpa using Ne.symm h.1), cutAtStop, if_neg hx,
        cutAtStop_filter h.2]

/-- `torch.isin(…).nonzero()` finds where to cut. -/
theorem cutAtStop_eq_findIdx (stops : List ℤ) : ∀ xs : List ℤ,
    cutAtStop stops xs = match xs.findIdx? (· ∈ stops) with
      | some i => xs.take (i + 1)
      | none => xs
  | [] => rfl
  | x :: xs => by
    rw [cutAtStop, List.findIdx?_cons, cutAtStop_eq_findIdx stops xs]
    by_cases hx : x ∈ stops
    · simp [hx]
    · rw [if_neg hx]
      cases xs.findIdx? (· ∈ stops) <;> simp [hx]

namespace Generator

/-- The end of both functions keeps the prompt and cuts what follows. -/
theorem finish_eq (g : Generator) {s : GenState} (ys : List ℤ)
    (hprompt : g.maskTokenId ∉ g.inputIds)
    (hs : s.outputIds.take g.maxLength = g.inputIds ++ ys) :
    g.finish s = g.inputIds ++ cutAtStop g.stops (ys.filter (· ≠ g.maskTokenId)) := by
  have hfilter : g.inputIds.filter (· ≠ g.maskTokenId) = g.inputIds := by
    rw [List.filter_eq_self]
    intro x hx
    simpa using fun h : x = g.maskTokenId => hprompt (h ▸ hx)
  unfold finish stops
  simp only [hs, List.filter_append, hfilter]
  cases g.stopTokenIds with
  | none =>
    rw [Option.getD_none, cutAtStop_of_not_mem fun x _ => List.not_mem_nil]
  | some stops =>
    simp only [numInputTokens, List.drop_left, Option.getD_some, cutAtStop_eq_findIdx stops]
    cases (ys.filter (· ≠ g.maskTokenId)).findIdx? (· ∈ stops) with
    | none => rfl
    | some i => simp only [Nat.add_assoc, List.take_length_add_append]

/-- What is left of the buffer when the loop has ended. -/
theorem finish_of_atHead (g : Generator) (usesDraft : Bool) {s : GenState} {k : ℕ}
    (h : g.AtHead usesDraft k s) (hdone : s.stoppedByEos = true ∨ g.maxNewTokens ≤ k)
    (hprompt : g.maskTokenId ∉ g.inputIds) (hstops : g.maskTokenId ∉ g.stops)
    (hmask : g.maskTokenId ∉
      cutAtStop g.stops (autoregress g.next g.inputIds g.maxNewTokens)) :
    g.finish s =
      g.inputIds ++ cutAtStop g.stops (autoregress g.next g.inputIds g.maxNewTokens) := by
  rcases Nat.lt_or_ge k g.maxNewTokens with hk | hk
  · -- a stop token was found before the limit : the buffer still ends in mask tokens
    have hstop : ∃ x ∈ autoregress g.next g.inputIds (k + 1), x ∈ g.stops := by
      have hfound := h.stopped (hdone.resolve_right (by omega))
      rw [stopFound, List.any_eq_true] at hfound
      obtain ⟨stop, hmem, hin⟩ := hfound
      rw [List.contains_iff_mem, h.outputIds, greedy, List.append_assoc, numInputTokens,
        List.drop_left, List.mem_append, List.mem_replicate] at hin
      rcases hin with hin | ⟨-, rfl⟩
      · exact ⟨stop, hin, hmem⟩
      · exact absurd hmem hstops
    obtain ⟨zs, hzs⟩ := prefix_of_autoregress g.next g.inputIds (k + 1)
      (g.maxNewTokens - (k + 1))
    rw [Nat.add_sub_cancel' hk] at hzs
    have hcut : cutAtStop g.stops (autoregress g.next g.inputIds g.maxNewTokens) =
        cutAtStop g.stops (autoregress g.next g.inputIds (k + 1)) := by
      rw [← hzs, cutAtStop_append zs hstop]
    rw [hcut] at hmask ⊢
    rw [g.finish_eq (autoregress g.next g.inputIds (k + 1) ++
      List.replicate (g.maxNewTokens - (k + 1)) g.maskTokenId) hprompt, List.filter_append,
      List.filter_replicate_of_neg (by simp), List.append_nil, cutAtStop_filter hmask]
    rw [h.outputIds, greedy, List.append_assoc, maxLength, numInputTokens,
      List.take_length_add_append, List.take_append, length_autoregress, List.take_of_length_le
        (by simp; omega), List.take_replicate]
    congr 3
    omega
  · -- the limit was reached : the buffer up to it holds the target's own sequence
    obtain ⟨zs, hzs⟩ := prefix_of_autoregress g.next g.inputIds g.maxNewTokens
      (k + 1 - g.maxNewTokens)
    rw [Nat.add_sub_cancel' (by omega)] at hzs
    rw [g.finish_eq (autoregress g.next g.inputIds g.maxNewTokens) hprompt,
      cutAtStop_filter hmask]
    rw [h.outputIds, greedy, List.append_assoc, maxLength, numInputTokens,
      List.take_length_add_append, ← hzs, List.append_assoc]
    congr 1
    exact List.take_left' (by simp)

/-- What holds at the head of the loop, and of the writes so far. -/
structure HeadInvariant (g : Generator) (usesDraft : Bool) (s : GenState) : Prop where
  targetCache : s.targetCache.length = s.start
  draftCache : usesDraft = true → s.draftCacheLen + s.targetHidden = s.start
  length_outputIds : s.outputIds.length = g.maxLength + g.blockSize
  writes : ∀ w ∈ s.writes, w.2 ≤ s.outputIds.length

theorem AtHead.headInvariant {g : Generator} {usesDraft : Bool} {k : ℕ} {s : GenState}
    (h : g.AtHead usesDraft k s) : g.HeadInvariant usesDraft s := by
  have hlen : s.outputIds.length = g.maxLength + g.blockSize := by
    have := h.bound
    rw [h.outputIds, List.length_append, length_greedy, List.length_replicate, maxLength]
    omega
  refine ⟨?_, h.draftCache, hlen, fun w hw => hlen ▸ h.writes w hw⟩
  rw [h.targetCache, List.length_zipIdx, length_greedy, h.start]

/-- Both functions' loops end in a state whose buffer holds the target's own sequence. -/
theorem decode_ok (g : Generator) (usesDraft : Bool) (hp : g.inputIds ≠ [])
    (hB : 1 ≤ g.blockSize) (hprompt : g.maskTokenId ∉ g.inputIds)
    (hstops : g.maskTokenId ∉ g.stops)
    (hmask : g.maskTokenId ∉ cutAtStop g.stops (autoregress g.next g.inputIds g.maxNewTokens))
    {fuel : ℕ} (hfuel : g.maxNewTokens ≤ fuel) :
    ∃ s₀ s, g.prefill usesDraft = .ok s₀ ∧ g.decodeLoop usesDraft fuel s₀ = .ok s ∧
      g.finish s =
        g.inputIds ++ cutAtStop g.stops (autoregress g.next g.inputIds g.maxNewTokens) := by
  obtain ⟨s₀, hs₀, hat₀⟩ := g.atHead_prefill usesDraft hp hB
  obtain ⟨k, s, hs, hat, hdone⟩ := g.decodeLoop_ok usesDraft hB fuel hat₀ (by omega)
  exact ⟨s₀, s, hs₀, hs, g.finish_of_atHead usesDraft hat hdone hprompt hstops hmask⟩

/-- Both functions return the target's own sequence after the prompt, cut at the first
stop token or at `max_new_tokens`, whatever the draft model proposes ; `dflash_generate`
keeps the draft cache in step where it uses one. -/
theorem generators_lossless (g : Generator) (hp : g.inputIds ≠ []) (hB : 1 ≤ g.blockSize)
    (hprompt : g.maskTokenId ∉ g.inputIds) (hstops : g.maskTokenId ∉ g.stops)
    (hmask : g.maskTokenId ∉ cutAtStop g.stops (autoregress g.next g.inputIds g.maxNewTokens))
    {fuel : ℕ} (hfuel : g.maxNewTokens ≤ fuel) :
    g.specGenerate fuel = .ok
        (g.inputIds ++ cutAtStop g.stops (autoregress g.next g.inputIds g.maxNewTokens)) ∧
      (0 < g.maxNewTokens → ∃ r, g.dflashGenerate fuel = .ok r ∧ r.outputIds =
        g.inputIds ++ cutAtStop g.stops (autoregress g.next g.inputIds g.maxNewTokens)) ∧
      (∀ s, g.Reached true s → g.HeadInvariant true s) ∧
      ∀ s, g.Reached g.drafts s → g.HeadInvariant g.drafts s := by
  refine ⟨?_, fun hpos => ?_, fun s hs => ?_, fun s hs => ?_⟩
  · obtain ⟨s₀, s, hs₀, hs, hfinish⟩ := g.decode_ok true hp hB hprompt hstops hmask hfuel
    unfold specGenerate
    simp only [hs₀, bind, Except.bind, hs, pure, Except.pure, hfinish]
  · obtain ⟨s₀, s, hs₀, hs, hfinish⟩ := g.decode_ok g.drafts hp hB hprompt hstops hmask hfuel
    have hcut : cutAtStop g.stops (autoregress g.next g.inputIds g.maxNewTokens) ≠ [] := by
      refine cutAtStop_ne_nil (List.length_pos_iff.mp ?_)
      rwa [length_autoregress]
    have hne : ¬((g.finish s).length - g.numInputTokens : ℤ) = 0 := by
      have := List.length_pos_iff.mpr hcut
      rw [hfinish, List.length_append, numInputTokens]
      omega
    unfold dflashGenerate
    simp only [hs₀, bind, Except.bind, hs, if_neg hne]
    exact ⟨_, rfl, hfinish⟩
  · obtain ⟨k, hk⟩ := g.atHead_of_reached true hp hB hs
    exact hk.headInvariant
  · obtain ⟨k, hk⟩ := g.atHead_of_reached g.drafts hp hB hs
    exact hk.headInvariant

/-- A target that counts the tokens it has seen, and a draft model that is right about the
first drafted token of a block only. -/
def countingGenerator (blockSize maxNewTokens : ℕ) : Generator where
  target ids := ids.length
  draft s i := if i = 1 then s.start + 1 else 0
  inputIds := [5]
  maskTokenId := -1
  blockSize
  maxNewTokens
  stopTokenIds := some [4]

theorem generators_lossless_counting :
    (countingGenerator 3 6).specGenerate 6 = .ok [5, 1, 2, 3, 4] ∧
      (∃ r, (countingGenerator 3 6).dflashGenerate 6 = .ok r ∧ r.outputIds = [5, 1, 2, 3, 4]) ∧
      ∀ s, (countingGenerator 3 6).Reached true s →
        (countingGenerator 3 6).HeadInvariant true s := by
  have h := generators_lossless (countingGenerator 3 6) (by decide) (by decide) (by decide)
    (by decide) (by decide) (le_refl 6)
  exact ⟨h.1, h.2.1 (by decide), h.2.2.1⟩

/-- With a block of one, `dflash_generate` has no draft cache to keep in step. -/
theorem not_draftCache_block_of_one :
    ¬∀ s, (countingGenerator 1 2).Reached (countingGenerator 1 2).drafts s →
      s.draftCacheLen + s.targetHidden = s.start := by
  intro h
  obtain ⟨s, hs, hat⟩ := (countingGenerator 1 2).atHead_prefill false (by decide) (by decide)
  have hdraft := h s (.prefill hs)
  have hzero : s.draftCacheLen + s.targetHidden = 0 := by
    cases hs
    rfl
  rw [hzero, hat.start] at hdraft
  exact absurd hdraft (by decide)

end Generator

end DraftOpd
