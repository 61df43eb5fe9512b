import DraftOpd.OverAllocation
import DraftOpd.StopFold

/-!
# Runs of the over-allocating batch

`OverStep` is one step of the running batch of the v2 worker : preparing it, verifying it,
keeping some of its requests, or adding a prefilled batch. A run keeps, beside the batch and
the table, the slots taken from the allocator and every assignment of a slot to a position of
a request. The abstract request (`OwnReq`) has its slots as a list, and a run only ever
appends to it.

`over_run` : in every run in which `prepare_for_decode` sees lengths that lag by at most one
verify step, every verify block lies inside the mapped positions of its row, and positions
are assigned once and slots counted exactly.
-/

namespace DraftOpd

/-- A request of the batch and what it owns. -/
structure OwnReq where
  rid : ℕ
  row : ℕ
  /-- The length on the device. -/
  seqLen : ℕ
  /-- The length `prepare_for_decode` sees. -/
  seen : ℕ
  /-- The slots of the positions of its row, from 0 on. -/
  slots : List ℕ
  /-- How many of them it had when it joined the batch. -/
  admitted : ℕ
  admitted_le : admitted ≤ slots.length

namespace OwnReq

def toReq (req : OwnReq) : OverReq := ⟨req.rid, req.slots.length⟩

/-- How many slots `prepare_for_decode` adds. -/
def extra (blockSize : ℕ) (req : OwnReq) : ℕ :=
  max req.slots.length (req.seen + 2 * blockSize) - req.slots.length

/-- More slots, for the next positions. -/
def grow (req : OwnReq) (more : List ℕ) : OwnReq :=
  { req with
    slots := req.slots ++ more
    admitted_le := req.admitted_le.trans (by simp) }

/-- After a verify : the tokens the request committed, and the length seen next. -/
def advance (req : OwnReq) (answer : ℕ × ℕ) : OwnReq :=
  { req with seqLen := req.seqLen + answer.1, seen := answer.2 }

/-- The slots reserved since the request joined the batch. -/
def reserved (req : OwnReq) : List ℕ := req.slots.drop req.admitted

/-- The assignments of `more` to the next positions. -/
def newLog (req : OwnReq) (more : List ℕ) : List (ℕ × ℕ × ℕ) :=
  (more.zipIdx req.slots.length).map fun q => (req.rid, q.2, q.1)

/-- The assignments since the request joined the batch. -/
def ownLog (req : OwnReq) : List (ℕ × ℕ × ℕ) :=
  (req.reserved.zipIdx req.admitted).map fun q => (req.rid, q.2, q.1)

theorem reserved_grow (req : OwnReq) (more : List ℕ) :
    (req.grow more).reserved = req.reserved ++ more :=
  List.drop_append_of_le_length req.admitted_le

theorem ownLog_grow (req : OwnReq) (more : List ℕ) :
    (req.grow more).ownLog = req.ownLog ++ req.newLog more := by
  have hlen : req.admitted + req.reserved.length = req.slots.length := by
    have := req.admitted_le
    rw [reserved, List.length_drop]
    omega
  rw [ownLog, reserved_grow, List.zipIdx_append, List.map_append,
    show (req.grow more).admitted = req.admitted from rfl, hlen]
  rfl

end OwnReq

/-- The running batch, the table, and the records of a run. -/
structure OverState where
  batch : OverBatch
  reqToToken : ReqToToken
  /-- Was the batch prepared since it was last verified or added to. -/
  ready : Bool
  /-- The slots `prepare_for_decode` took from the allocator so far. -/
  taken : List ℕ
  /-- The request, the position and the slot of each of its assignments. -/
  assigned : List (ℕ × ℕ × ℕ)

/-- The assignments of a `prepare_for_decode` that took `slots`. -/
def OverBatch.assignments (b : OverBatch) (blockSize : ℕ) (slots : List ℕ) :
    List (ℕ × ℕ × ℕ) :=
  let lens := List.zipWith (fun nxt cur => nxt - cur) (b.nxtKvLens blockSize)
    (b.reqs.map (·.kvAllocatedLen))
  (b.reqs.zip (splitLens lens slots)).flatMap fun p =>
    (p.2.zipIdx p.1.kvAllocatedLen).map fun q => (p.1.rid, q.2, q.1)

/-- The batch is the one of the requests `live`. -/
structure Shows (live : List OwnReq) (b : OverBatch) : Prop where
  reqs : b.reqs = live.map (·.toReq)
  reqPoolIndices : live ≠ [] → b.reqPoolIndices = live.map (·.row)
  seqLens : live ≠ [] → b.seqLens = live.map (·.seen)
  deviceLens : live ≠ [] → b.deviceLens = live.map (·.seqLen)

/-- The lengths `prepare_for_decode` sees are exact, or lag by one verify step. -/
def Lags (blockSize : ℕ) (live : List OwnReq) : Prop :=
  ∀ req ∈ live, req.seen ≤ req.seqLen ∧ req.seqLen ≤ req.seen + blockSize

/-- The allocator answers with fresh slots, as many as asked for. -/
def FreshAlloc (live : List OwnReq) (alloc : ℕ → Option (List ℕ)) : Prop :=
  ∀ n slots, alloc n = some slots →
    slots.length = n ∧ slots.Nodup ∧ ∀ req ∈ live, ∀ slot ∈ slots, slot ∉ req.slots

/-- The row of each request holds its slots. -/
def Mapped (live : List OwnReq) (reqToToken : ReqToToken) : Prop :=
  ∀ req ∈ live, ∀ p < req.slots.length, req.slots[p]? = some (reqToToken req.row p)

/-- A prefilled batch `others` in rows of its own, with as many positions mapped as it
allocated. -/
structure Joins (live departed others : List OwnReq) (reqToToken reqToToken' : ReqToToken) :
    Prop where
  rows : ((live ++ others).map (·.row)).Nodup
  rids : ((live ++ departed ++ others).map (·.rid)).Nodup
  admitted : ∀ req ∈ others, req.admitted = req.slots.length
  frame : ∀ req ∈ live, ∀ p, reqToToken' req.row p = reqToToken req.row p
  mapped : Mapped others reqToToken'

/-- The requests after a `prepare_for_decode` that took `slots`. -/
def growAll (blockSize : ℕ) (live : List OwnReq) (slots : List ℕ) : List OwnReq :=
  (live.zip (splitLens (live.map (·.extra blockSize)) slots)).map fun p => p.1.grow p.2

/-- The requests a filter drops. -/
def dropped (live : List OwnReq) (keep : List ℕ) : List OwnReq :=
  ((List.range live.length).filter (· ∉ keep)).filterMap (live[·]?)

/-- The requests a filter keeps : nothing is moved when all stay. -/
def kept (live : List OwnReq) (keep : List ℕ) : List OwnReq :=
  if keep.length = live.length then live else keep.filterMap (live[·]?)

/-- The running batch with the requests in it and those that left. -/
structure OverConfig where
  live : List OwnReq
  departed : List OwnReq
  state : OverState

/-- One step of the running batch. -/
inductive OverStep (blockSize : ℕ) : OverConfig → OverConfig → Prop
  | prepare {live departed s alloc b table slots} : Lags blockSize live →
      FreshAlloc live alloc →
      s.batch.prepareForDecode blockSize alloc s.reqToToken = .ok (b, table, slots) →
      OverStep blockSize ⟨live, departed, s⟩
        ⟨growAll blockSize live slots, departed,
          { batch := b
            reqToToken := table
            ready := true
            taken := s.taken ++ slots
            assigned := s.assigned ++ s.batch.assignments blockSize slots }⟩
  | verify {live departed s answers bonus future} : s.ready = true → s.batch.reqs ≠ [] →
      answers.length = live.length → (∀ answer ∈ answers, answer.1 ≤ blockSize) →
      OverStep blockSize ⟨live, departed, s⟩
        ⟨(live.zip answers).map fun p => p.1.advance p.2,
          departed,
          { s with
            batch := s.batch.afterVerify (answers.map Prod.fst) (answers.map Prod.snd) bonus future
            ready := false }⟩
  | filter {live departed s keep b} : keep.Nodup → (∀ i ∈ keep, i < live.length) →
      s.batch.filterBatch keep = .ok b →
      OverStep blockSize ⟨live, departed, s⟩
        ⟨kept live keep, departed ++ dropped live keep, { s with batch := b }⟩
  | merge {live departed s others last reqToToken b} : others ≠ [] → Shows others last →
      Joins live departed others s.reqToToken reqToToken → s.batch.mergeLast last = .ok b →
      OverStep blockSize ⟨live, departed, s⟩
        ⟨live ++ others, departed,
          { s with batch := b, reqToToken := reqToToken, ready := false }⟩

/-! ## The invariant -/

/-- What holds of the running batch at every point of a run. -/
structure OverInv (blockSize : ℕ) (c : OverConfig) : Prop where
  shows : Shows c.live c.state.batch
  rows : (c.live.map (·.row)).Nodup
  rids : ((c.live ++ c.departed).map (·.rid)).Nodup
  mapped : Mapped c.live c.state.reqToToken
  headroom : c.state.ready = true → ∀ req ∈ c.live, req.seqLen + blockSize ≤ req.slots.length
  reserved : (c.live.flatMap (·.reserved)).Nodup
  assigned : c.state.assigned.Perm ((c.live ++ c.departed).flatMap (·.ownLog))
  taken : c.state.taken = c.state.assigned.map fun a => a.2.2

section Prepare

variable {blockSize : ℕ} {live : List OwnReq}

theorem nxtKvLens_eq {b : OverBatch} (hb : Shows live b) (hne : live ≠ []) :
    b.nxtKvLens blockSize =
      live.map fun req => max req.slots.length (req.seen + 2 * blockSize) := by
  rw [OverBatch.nxtKvLens, hb.reqs, hb.seqLens hne, List.map_map, List.zipWith_map,
    List.zipWith_self]
  rfl

theorem neededLens_eq {b : OverBatch} (hb : Shows live b) (hne : live ≠ []) :
    List.zipWith (fun nxt cur => nxt - cur) (b.nxtKvLens blockSize)
      (b.reqs.map (·.kvAllocatedLen)) = live.map (·.extra blockSize) := by
  rw [nxtKvLens_eq hb hne, hb.reqs, List.map_map, List.zipWith_map, List.zipWith_self]
  rfl

theorem map_growAll {β : Type} {slots : List ℕ}
    (h : slots.length = (live.map (·.extra blockSize)).sum) {f : OwnReq → β} {g : OwnReq → β}
    (hfg : ∀ req more, more.length = req.extra blockSize → f (req.grow more) = g req) :
    (growAll blockSize live slots).map f = live.map g := by
  rw [growAll, List.map_map]
  exact map_zip_splitLens (le_of_eq h.symm) hfg

/-- Nothing is written where there are no slots. -/
theorem assignReqToTokenPool_nil (reqToToken : ReqToToken) : ∀ programs : List (ℕ × ℕ × ℕ),
    assignReqToTokenPool reqToToken programs [] = reqToToken
  | [] => rfl
  | (row, start, stop) :: rest => by
    have hwrite : reqToToken.write row start [] = reqToToken := by
      funext r p
      rw [ReqToToken.write, if_neg]
      simp only [List.length_nil, Nat.add_zero]
      omega
    rw [assignReqToTokenPool, List.take_nil, List.drop_nil, hwrite,
      assignReqToTokenPool_nil reqToToken rest]

/-- The slots of one call : as many as needed, and fresh. -/
theorem allocTokenSlots_ok {alloc : ℕ → Option (List ℕ)} (halloc : FreshAlloc live alloc)
    {n : ℕ} {slots : List ℕ} (h : OverBatch.allocTokenSlots alloc n = .ok slots) :
    slots.length = n ∧ slots.Nodup ∧ ∀ req ∈ live, ∀ slot ∈ slots, slot ∉ req.slots := by
  unfold OverBatch.allocTokenSlots at h
  by_cases hn : 0 < n
  · rw [if_pos hn] at h
    cases ha : alloc n with
    | none => rw [ha] at h; cases h
    | some out =>
      rw [ha] at h
      obtain rfl := Except.ok.inj h
      exact halloc n out ha
  · rw [if_neg hn] at h
    obtain rfl := Except.ok.inj h
    refine ⟨?_, List.nodup_nil, fun _ _ _ hs => absurd hs List.not_mem_nil⟩
    rw [List.length_nil]
    omega

/-- The batch of the requests with their new slots. -/
theorem shows_growAll {b : OverBatch} {slots : List ℕ} (hb : Shows live b) (hne : live ≠ [])
    (hlen : slots.length = (live.map (·.extra blockSize)).sum) :
    Shows (growAll blockSize live slots)
      { b with
        reqs := List.zipWith (fun req len => { req with kvAllocatedLen := len }) b.reqs
          (b.nxtKvLens blockSize)
        seqLensCpu := b.nxtKvLens blockSize
        seqLensSum := (b.nxtKvLens blockSize).sum } := by
  constructor
  · have hreq : (growAll blockSize live slots).map (·.toReq) = live.map fun req =>
        ⟨req.rid, max req.slots.length (req.seen + 2 * blockSize)⟩ := by
      refine map_growAll hlen fun req more hmore => ?_
      rw [OwnReq.extra] at hmore
      simp only [OwnReq.toReq, OwnReq.grow, List.length_append, OverReq.mk.injEq, true_and]
      omega
    simp only [hreq, nxtKvLens_eq hb hne, hb.reqs, List.zipWith_map, List.zipWith_self]
    rfl
  · intro _
    rw [map_growAll hlen (g := (·.row)) fun _ _ _ => rfl]
    exact hb.reqPoolIndices hne
  · intro _
    rw [map_growAll hlen (g := (·.seen)) fun _ _ _ => rfl]
    exact hb.seqLens hne
  · intro _
    rw [map_growAll hlen (g := (·.seqLen)) fun _ _ _ => rfl]
    exact hb.deviceLens hne

/-- What `prepare_for_decode` does to a batch with requests. -/
theorem prepareForDecode_ok {b b' : OverBatch} {alloc : ℕ → Option (List ℕ)}
    {table table' : ReqToToken} {slots : List ℕ} (hb : Shows live b) (hne : live ≠ [])
    (halloc : FreshAlloc live alloc)
    (h : b.prepareForDecode blockSize alloc table = .ok (b', table', slots)) :
    slots.length = (live.map (·.extra blockSize)).sum ∧ slots.Nodup ∧
      (∀ req ∈ live, ∀ slot ∈ slots, slot ∉ req.slots) ∧
      table' = assignReqToTokenPool table (live.map fun req => (req.row, req.slots.length,
        max req.slots.length (req.seen + 2 * blockSize))) slots ∧
      Shows (growAll blockSize live slots) b' := by
  have hreqs : b.reqs ≠ [] := by
    rw [hb.reqs]
    simpa using hne
  have hneeded : b.numNeededTokens blockSize = (live.map (·.extra blockSize)).sum := by
    rw [OverBatch.numNeededTokens, neededLens_eq hb hne]
  have hprograms : b.reqPoolIndices.zip ((b.reqs.map (·.kvAllocatedLen)).zip
      (b.nxtKvLens blockSize)) = live.map fun req => (req.row, req.slots.length,
        max req.slots.length (req.seen + 2 * blockSize)) := by
    rw [nxtKvLens_eq hb hne, hb.reqs, hb.reqPoolIndices hne, List.map_map, List.zip_map',
      List.zip_map']
    rfl
  unfold OverBatch.prepareForDecode at h
  rw [if_neg hreqs] at h
  by_cases hB : blockSize ≤ 0
  · rw [if_pos hB] at h
    cases h
  rw [if_neg hB] at h
  obtain ⟨out, hslots, h⟩ := of_bind_ok h
  simp only [pure, Except.pure, Except.ok.injEq, Prod.mk.injEq] at h
  obtain ⟨rfl, rfl, rfl⟩ := h
  obtain ⟨hlen, hnodup, hfresh⟩ := allocTokenSlots_ok halloc hslots
  rw [hneeded] at hlen
  refine ⟨hlen, hnodup, hfresh, ?_, shows_growAll hb hne hlen⟩
  by_cases hpos : 0 < b.numNeededTokens blockSize
  · rw [if_pos hpos, hprograms]
  · have hnil : out = [] := List.length_eq_zero_iff.mp (by omega)
    rw [if_neg hpos, hnil, assignReqToTokenPool_nil]

/-- Writing the new slots to the rows keeps the old ones and maps the new ones. -/
theorem mapped_growAll {table : ReqToToken} {slots : List ℕ}
    (hrows : (live.map (·.row)).Nodup) (hmapped : Mapped live table)
    (hlen : slots.length = (live.map (·.extra blockSize)).sum) :
    Mapped (growAll blockSize live slots) (assignReqToTokenPool table
      (live.map fun req => (req.row, req.slots.length,
        max req.slots.length (req.seen + 2 * blockSize))) slots) := by
  generalize hxs : live.zip (splitLens (live.map (·.extra blockSize)) slots) = xs
  have hprograms : (live.map fun req => (req.row, req.slots.length,
      max req.slots.length (req.seen + 2 * blockSize))) =
      xs.map fun p => (p.1.row, p.1.slots.length, p.1.slots.length + p.2.length) := by
    rw [← hxs]
    refine (map_zip_splitLens (le_of_eq hlen.symm)
      (f := fun req more => (req.row, req.slots.length, req.slots.length + more.length))
      fun req more hmore => ?_).symm
    rw [hmore, OwnReq.extra]
    congr 2
    omega
  have hflat : xs.flatMap (fun p => p.2) = slots := hxs ▸ flatMap_zip_splitLens hlen
  have hfst : (xs.map fun p => p.1.row) = live.map (·.row) :=
    hxs ▸ map_zip_splitLens (le_of_eq hlen.symm) (f := fun req _ => req.row) fun _ _ _ => rfl
  obtain ⟨hin, -⟩ := assignReqToTokenPool_spec (fun p : OwnReq × List ℕ => p.1.row)
    (fun p => p.1.slots.length) (fun p => p.2) xs table (hfst ▸ hrows)
  rw [hflat] at hin
  rw [hprograms]
  intro req hreq p hp
  rw [growAll, hxs] at hreq
  obtain ⟨x, hx, rfl⟩ := List.mem_map.mp hreq
  have hlive : x.1 ∈ live := (List.of_mem_zip (hxs ▸ hx)).1
  have hread := hin x hx p
  change (x.1.slots ++ x.2)[p]? = some (assignReqToTokenPool _ _ _ x.1.row p)
  have hp' : p < x.1.slots.length + x.2.length := by
    simpa [OwnReq.grow] using hp
  rw [hread]
  by_cases hold : p < x.1.slots.length
  · rw [if_neg (by omega), List.getElem?_append_left hold]
    exact hmapped x.1 hlive p hold
  · rw [if_pos (by omega), List.getElem?_append_right (by omega),
      List.getD_eq_getElem?_getD, List.getElem?_eq_getElem (by omega), Option.getD_some]

theorem flatMap_growAll {β : Type} (f : OwnReq → List β) (g : OwnReq → List ℕ → List β)
    (hfg : ∀ req more, f (req.grow more) = f req ++ g req more) (slots : List ℕ) :
    ((growAll blockSize live slots).flatMap f).Perm (live.flatMap f ++
      (live.zip (splitLens (live.map (·.extra blockSize)) slots)).flatMap fun p => g p.1 p.2) := by
  have hleft : ((live.zip (splitLens (live.map (·.extra blockSize)) slots)).flatMap
      fun p => f p.1) = live.flatMap f := by
    rw [List.flatMap_def, List.flatMap_def,
      map_zip_left f (by simp [length_splitLens])]
  rw [growAll, List.flatMap_map, ← hleft]
  simp only [hfg]
  exact (List.flatMap_append_perm _ _ _).symm

/-- The assignments of a `prepare_for_decode`, request by request. -/
theorem assignments_eq {b : OverBatch} (hb : Shows live b) (hne : live ≠ []) (slots : List ℕ) :
    b.assignments blockSize slots =
      (live.zip (splitLens (live.map (·.extra blockSize)) slots)).flatMap fun p =>
        p.1.newLog p.2 := by
  unfold OverBatch.assignments
  simp only [neededLens_eq hb hne]
  rw [hb.reqs, List.zip_map_left, List.flatMap_map]
  rfl

theorem slots_newLog (req : OwnReq) (more : List ℕ) :
    ((req.newLog more).map fun a => a.2.2) = more := by
  rw [OwnReq.newLog, List.map_map]
  exact List.zipIdx_map_fst _ _

/-- After `prepare_for_decode` a verify block fits, even when the length seen lags by one
block. -/
theorem headroom_growAll {slots : List ℕ} (hlags : Lags blockSize live)
    (hlen : slots.length = (live.map (·.extra blockSize)).sum) :
    ∀ req ∈ growAll blockSize live slots, req.seqLen + blockSize ≤ req.slots.length := by
  intro req hreq
  obtain ⟨x, hx, rfl⟩ := List.mem_map.mp hreq
  have hmore := length_of_mem_zip (map_length_splitLens _ _ (le_of_eq hlen.symm)) x hx
  have hlag := (hlags x.1 (List.of_mem_zip hx).1).2
  rw [OwnReq.extra] at hmore
  simp only [OwnReq.grow, List.length_append]
  omega

/-- Preparing a batch. -/
theorem overInv_prepare {departed : List OwnReq} {s : OverState}
    {alloc : ℕ → Option (List ℕ)} {b : OverBatch} {table : ReqToToken} {slots : List ℕ}
    (hinv : OverInv blockSize ⟨live, departed, s⟩) (hlags : Lags blockSize live)
    (halloc : FreshAlloc live alloc)
    (h : s.batch.prepareForDecode blockSize alloc s.reqToToken = .ok (b, table, slots)) :
    OverInv blockSize ⟨growAll blockSize live slots, departed,
      { batch := b
        reqToToken := table
        ready := true
        taken := s.taken ++ slots
        assigned := s.assigned ++ s.batch.assignments blockSize slots }⟩ := by
  by_cases hne : live = []
  · subst hne
    have hreqs : s.batch.reqs = [] := hinv.shows.reqs
    rw [OverBatch.prepareForDecode, if_pos hreqs, Except.ok.injEq, Prod.mk.injEq,
      Prod.mk.injEq] at h
    obtain ⟨rfl, rfl, rfl⟩ := h
    have hnone : s.batch.assignments blockSize [] = [] := by
      rw [OverBatch.assignments, hreqs]
      rfl
    simp only [hnone, List.append_nil]
    exact ⟨hinv.shows, hinv.rows, hinv.rids, hinv.mapped,
      fun _ _ hreq => absurd hreq List.not_mem_nil, hinv.reserved, hinv.assigned, hinv.taken⟩
  obtain ⟨hlen, hnodup, hfresh, rfl, hshows⟩ := prepareForDecode_ok hinv.shows hne halloc h
  have hnew := @assignments_eq blockSize live _ hinv.shows hne slots
  constructor
  · exact hshows
  · simp only
    rw [map_growAll hlen (g := (·.row)) fun _ _ _ => rfl]
    exact hinv.rows
  · simp only [List.map_append]
    rw [map_growAll hlen (g := (·.rid)) fun _ _ _ => rfl, ← List.map_append]
    exact hinv.rids
  · exact mapped_growAll hinv.rows hinv.mapped hlen
  · intro _ req hreq
    exact headroom_growAll hlags hlen req hreq
  · have hperm := @flatMap_growAll blockSize live _ (·.reserved) (fun _ more => more)
      OwnReq.reserved_grow slots
    rw [flatMap_zip_splitLens hlen] at hperm
    refine hperm.nodup_iff.mpr (List.nodup_append.mpr ⟨hinv.reserved, hnodup, ?_⟩)
    rintro slot hold _ hslot rfl
    obtain ⟨req, hreq, hmem⟩ := List.mem_flatMap.mp hold
    exact hfresh req hreq slot hslot (List.mem_of_mem_drop hmem)
  · have hperm := @flatMap_growAll blockSize live _ (·.ownLog) (fun req more => req.newLog more)
      OwnReq.ownLog_grow slots
    rw [← hnew] at hperm
    simp only [List.flatMap_append]
    have hold := hinv.assigned
    simp only [List.flatMap_append] at hold
    have hswap : (live.flatMap (·.ownLog) ++ departed.flatMap (·.ownLog) ++
        s.batch.assignments blockSize slots).Perm (live.flatMap (·.ownLog) ++
          s.batch.assignments blockSize slots ++ departed.flatMap (·.ownLog)) := by
      rw [List.append_assoc, List.append_assoc]
      exact List.perm_append_comm.append_left _
    exact ((hold.append_right _).trans hswap).trans (hperm.symm.append_right _)
  · simp only [List.map_append]
    rw [← hinv.taken, hnew, List.map_flatMap]
    simp only [slots_newLog]
    rw [flatMap_zip_splitLens hlen]

end Prepare

section Verify

variable {blockSize : ℕ} {live departed : List OwnReq} {s : OverState}

/-- What a verify does not change, read off the requests before it. -/
theorem map_advance {β : Type} {answers : List (ℕ × ℕ)} (h : answers.length = live.length)
    {f : OwnReq → β} (hf : ∀ req answer, f (req.advance answer) = f req) :
    ((live.zip answers).map fun p => p.1.advance p.2).map f = live.map f := by
  rw [List.map_map, ← map_zip_left f (le_of_eq h.symm)]
  exact List.map_congr_left fun p _ => hf p.1 p.2

/-- Verifying a batch. -/
theorem overInv_verify (hinv : OverInv blockSize ⟨live, departed, s⟩)
    {answers : List (ℕ × ℕ)} (h : answers.length = live.length) (bonus : List ℤ)
    (future : List ℕ) :
    OverInv blockSize ⟨(live.zip answers).map fun p => p.1.advance p.2, departed,
      { s with
        batch := s.batch.afterVerify (answers.map Prod.fst) (answers.map Prod.snd) bonus future
        ready := false }⟩ := by
  have hlive : (live.zip answers).map (fun p => p.1.advance p.2) ≠ [] → live ≠ [] := by
    rintro hne rfl
    exact hne rfl
  have hflat : ∀ {β : Type} (f : OwnReq → List β), (∀ req answer, f (req.advance answer) = f req) →
      ((live.zip answers).map fun p => p.1.advance p.2).flatMap f = live.flatMap f := by
    intro β f hf
    rw [List.flatMap_def, map_advance h hf, List.flatMap_def]
  constructor
  · constructor
    · exact (map_advance h (f := (·.toReq)) fun _ _ => rfl) ▸ hinv.shows.reqs
    · intro hne
      exact (map_advance h (f := (·.row)) fun _ _ => rfl) ▸ hinv.shows.reqPoolIndices (hlive hne)
    · intro _
      rw [List.map_map]
      exact (map_zip_right Prod.snd (le_of_eq h)).symm
    · intro hne
      have hold : s.batch.deviceLens = live.map (·.seqLen) :=
        hinv.shows.deviceLens (hlive hne)
      simp only [OverBatch.afterVerify, hold, List.zipWith_map, List.map_map]
      rw [← List.map_uncurry_zip_eq_zipWith]
      rfl
  · exact (map_advance h (f := (·.row)) fun _ _ => rfl).symm ▸ hinv.rows
  · simp only [List.map_append]
    rw [map_advance h (f := (·.rid)) fun _ _ => rfl, ← List.map_append]
    exact hinv.rids
  · intro req hreq p hp
    obtain ⟨x, hx, rfl⟩ := List.mem_map.mp hreq
    exact hinv.mapped x.1 (List.of_mem_zip hx).1 p hp
  · intro hready
    cases hready
  · simp only [hflat (·.reserved) fun _ _ => rfl]
    exact hinv.reserved
  · simp only [List.flatMap_append, hflat (·.ownLog) fun _ _ => rfl]
    rw [← List.flatMap_append]
    exact hinv.assigned
  · exact hinv.taken

end Verify

section FilterMerge

variable {blockSize : ℕ} {live departed : List OwnReq} {s : OverState}

theorem takeIndices_map {β : Type} (f : OwnReq → β) {keep : List ℕ}
    (h : ∀ i ∈ keep, i < live.length) :
    takeIndices (live.map f) keep = .ok ((keep.filterMap (live[·]?)).map f) := by
  rw [takeIndices, gather_map f live h]

/-- A filter parts the requests into those it keeps and those it drops. -/
theorem perm_kept_append_dropped {keep : List ℕ} (hnodup : keep.Nodup)
    (hkeep : ∀ i ∈ keep, i < live.length) :
    (kept live keep ++ dropped live keep).Perm live := by
  have hparts : (keep ++ (List.range live.length).filter (· ∉ keep)).Perm
      (List.range live.length) := by
    refine (List.perm_ext_iff_of_nodup (List.nodup_append.mpr ⟨hnodup,
      List.nodup_range.filter _, ?_⟩) List.nodup_range).mpr fun i => ?_
    · rintro i hi _ hi' rfl
      simp [hi] at hi'
    · by_cases hi : i ∈ keep
      · simp [hi, hkeep i hi]
      · simp [hi]
  by_cases hall : keep.length = live.length
  · have hnone : (List.range live.length).filter (· ∉ keep) = [] := by
      have hlen := hparts.length_eq
      rw [List.length_append, List.length_range] at hlen
      exact List.length_eq_zero_iff.mp (by omega)
    rw [kept, if_pos hall, dropped, hnone, List.filterMap_nil, List.append_nil]
  · rw [kept, if_neg hall, dropped, ← List.filterMap_append]
    refine (hparts.filterMap _).trans (.of_eq ?_)
    rw [filterMap_range_take le_rfl, List.take_length]

/-- The batch of the requests a filter keeps. -/
theorem shows_kept {b b' : OverBatch} (hb : Shows live b) {keep : List ℕ}
    (hkeep : ∀ i ∈ keep, i < live.length) (h : b.filterBatch keep = .ok b') :
    Shows (kept live keep) b' := by
  unfold OverBatch.filterBatch at h
  have hlen : b.reqs.length = live.length := by rw [hb.reqs, List.length_map]
  by_cases hnil : keep = []
  · rw [if_pos hnil, Except.ok.injEq] at h
    have hkept : kept live keep = [] := by
      rw [kept, hnil]
      split_ifs with hlive
      · exact List.length_eq_zero_iff.mp hlive.symm
      · rfl
    rw [hkept, ← h]
    exact ⟨rfl, fun hne => absurd rfl hne, fun hne => absurd rfl hne, fun hne => absurd rfl hne⟩
  rw [if_neg hnil, hlen] at h
  by_cases hall : keep.length = live.length
  · rw [if_pos hall, Except.ok.injEq] at h
    rwa [kept, if_pos hall, ← h]
  rw [if_neg hall] at h
  have hne : live ≠ [] := by
    rintro rfl
    obtain ⟨i, hi⟩ := List.exists_mem_of_ne_nil _ hnil
    exact absurd (hkeep i hi) (Nat.not_lt_zero i)
  rw [kept, if_neg hall]
  unfold OverBatch.filterIndices at h
  obtain ⟨reqs, hreqs, h⟩ := of_bind_ok h
  obtain ⟨rows, hrows, h⟩ := of_bind_ok h
  obtain ⟨seqLens, hseqLens, h⟩ := of_bind_ok h
  obtain ⟨deviceLens, hdeviceLens, h⟩ := of_bind_ok h
  obtain ⟨seqLensCpu, -, h⟩ := of_bind_ok h
  obtain ⟨specInfo, -, h⟩ := of_bind_ok h
  rw [hb.reqs, takeIndices_map _ hkeep] at hreqs
  rw [hb.reqPoolIndices hne, takeIndices_map _ hkeep] at hrows
  rw [hb.seqLens hne, takeIndices_map _ hkeep] at hseqLens
  rw [hb.deviceLens hne, takeIndices_map _ hkeep] at hdeviceLens
  rw [← Except.ok.inj h]
  exact ⟨(Except.ok.inj hreqs).symm, fun _ => (Except.ok.inj hrows).symm,
    fun _ => (Except.ok.inj hseqLens).symm, fun _ => (Except.ok.inj hdeviceLens).symm⟩

/-- Filtering a batch. -/
theorem overInv_filter (hinv : OverInv blockSize ⟨live, departed, s⟩) {keep : List ℕ}
    (hnodup : keep.Nodup) (hkeep : ∀ i ∈ keep, i < live.length) {b : OverBatch}
    (h : s.batch.filterBatch keep = .ok b) :
    OverInv blockSize ⟨kept live keep, departed ++ dropped live keep, { s with batch := b }⟩ := by
  have hperm := perm_kept_append_dropped hnodup hkeep
  have hsub : ∀ req ∈ kept live keep, req ∈ live := fun req hreq =>
    hperm.mem_iff.mp (List.mem_append_left _ hreq)
  have hall : (kept live keep ++ (departed ++ dropped live keep)).Perm (live ++ departed) := by
    have hswap : (departed ++ dropped live keep).Perm (dropped live keep ++ departed) :=
      List.perm_append_comm
    refine (hswap.append_left _).trans ?_
    rw [← List.append_assoc]
    exact hperm.append_right _
  constructor
  · exact shows_kept hinv.shows hkeep h
  · have hrows := (hperm.map (·.row)).nodup_iff.mpr hinv.rows
    rw [List.map_append] at hrows
    exact (List.nodup_append.mp hrows).1
  · exact (hall.map _).nodup_iff.mpr hinv.rids
  · exact fun req hreq => hinv.mapped req (hsub req hreq)
  · exact fun hready req hreq => hinv.headroom hready req (hsub req hreq)
  · have hres := (hperm.flatMap_right (·.reserved)).nodup_iff.mpr hinv.reserved
    rw [List.flatMap_append] at hres
    exact (List.nodup_append.mp hres).1
  · exact hinv.assigned.trans (hall.flatMap_right _).symm
  · exact hinv.taken

/-- The batch of the requests of both. -/
theorem shows_mergeLast {others : List OwnReq} {running last b : OverBatch}
    (hrunning : Shows live running) (hne : others ≠ []) (hlast : Shows others last)
    (h : running.mergeLast last = .ok b) : Shows (live ++ others) b := by
  unfold OverBatch.mergeLast at h
  rw [if_neg (by rw [hlast.reqs]; simpa using hne)] at h
  by_cases hlive : live = []
  · subst hlive
    have hnone : running.reqs = [] := hrunning.reqs
    rw [if_pos hnone, Except.ok.injEq] at h
    rwa [← h]
  rw [if_neg (by rw [hrunning.reqs]; simpa using hlive)] at h
  unfold OverBatch.mergeBatch at h
  obtain ⟨spec, -, h⟩ := of_bind_ok h
  rw [← Except.ok.inj h]
  constructor
  · simp only [hrunning.reqs, hlast.reqs, List.map_append]
  · intro _
    simp only [hrunning.reqPoolIndices hlive, hlast.reqPoolIndices hne, List.map_append]
  · intro _
    simp only [hrunning.seqLens hlive, hlast.seqLens hne, List.map_append]
  · intro _
    simp only [hrunning.deviceLens hlive, hlast.deviceLens hne, List.map_append]

/-- Adding a prefilled batch. -/
theorem overInv_merge (hinv : OverInv blockSize ⟨live, departed, s⟩) {others : List OwnReq}
    {last b : OverBatch} {reqToToken : ReqToToken} (hne : others ≠ []) (hlast : Shows others last)
    (hjoin : Joins live departed others s.reqToToken reqToToken)
    (h : s.batch.mergeLast last = .ok b) :
    OverInv blockSize ⟨live ++ others, departed,
      { s with batch := b, reqToToken := reqToToken, ready := false }⟩ := by
  have hreserved : ∀ req ∈ others, req.reserved = [] := by
    intro req hreq
    rw [OwnReq.reserved, hjoin.admitted req hreq, List.drop_length]
  have hlog : others.flatMap (·.ownLog) = [] := by
    rw [List.flatMap_eq_nil_iff]
    intro req hreq
    rw [OwnReq.ownLog, hreserved req hreq]
    rfl
  constructor
  · exact shows_mergeLast hinv.shows hne hlast h
  · exact hjoin.rows
  · have hswap : (live ++ others ++ departed).Perm (live ++ departed ++ others) := by
      rw [List.append_assoc, List.append_assoc]
      exact List.perm_append_comm.append_left _
    exact (hswap.map _).nodup_iff.mpr hjoin.rids
  · intro req hreq p hp
    rcases List.mem_append.mp hreq with hreq | hreq
    · exact (hinv.mapped req hreq p hp).trans (congrArg some (hjoin.frame req hreq p).symm)
    · exact hjoin.mapped req hreq p hp
  · intro hready
    cases hready
  · simp only [List.flatMap_append]
    rw [List.flatMap_eq_nil_iff.mpr hreserved, List.append_nil]
    exact hinv.reserved
  · simp only [List.flatMap_append, hlog, List.append_nil]
    rw [← List.flatMap_append]
    exact hinv.assigned
  · exact hinv.taken

end FilterMerge

/-! ## Whole runs -/

/-- A run starts with an empty batch. -/
def OverStart (c : OverConfig) : Prop :=
  c.live = [] ∧ c.departed = [] ∧ c.state.batch.reqs = [] ∧ c.state.ready = false ∧
    c.state.taken = [] ∧ c.state.assigned = []

theorem overInv_start {blockSize : ℕ} {c : OverConfig} (h : OverStart c) :
    OverInv blockSize c := by
  obtain ⟨live, departed, s⟩ := c
  obtain ⟨rfl, rfl, hreqs, hready, htaken, hassigned⟩ := h
  refine ⟨⟨hreqs, ?_, ?_, ?_⟩, List.nodup_nil, List.nodup_nil,
    fun _ hreq => absurd hreq List.not_mem_nil, fun _ _ hreq => absurd hreq List.not_mem_nil,
    List.nodup_nil, ?_, ?_⟩
  · exact fun hne => absurd rfl hne
  · exact fun hne => absurd rfl hne
  · exact fun hne => absurd rfl hne
  · exact hassigned ▸ List.Perm.refl _
  · exact htaken.trans (by rw [hassigned]; rfl)

theorem overInv_step {blockSize : ℕ} {c c' : OverConfig} (hinv : OverInv blockSize c)
    (h : OverStep blockSize c c') : OverInv blockSize c' := by
  cases h with
  | prepare hlags halloc hprepare => exact overInv_prepare hinv hlags halloc hprepare
  | verify _ _ hlen _ => exact overInv_verify hinv hlen _ _
  | filter hnodup hkeep hfilter => exact overInv_filter hinv hnodup hkeep hfilter
  | merge hne hlast hjoin hmerge => exact overInv_merge hinv hne hlast hjoin hmerge

theorem overInv_run {blockSize : ℕ} {c c' : OverConfig} (hinv : OverInv blockSize c)
    (h : Relation.ReflTransGen (OverStep blockSize) c c') : OverInv blockSize c' := by
  induction h with
  | refl => exact hinv
  | tail _ hstep ih => exact overInv_step ih hstep

/-- A request keeps its slots, and only gets more of them. -/
def Extends (c c' : OverConfig) : Prop :=
  ∀ req ∈ c.live ++ c.departed, ∃ req' ∈ c'.live ++ c'.departed,
    req'.rid = req.rid ∧ req.slots <+: req'.slots

theorem extends_of_map {live departed : List OwnReq} {s s' : OverState} {β : Type}
    {ys : List β} {k : OwnReq → β → OwnReq} (hlen : live.length ≤ ys.length)
    (hk : ∀ req y, (k req y).rid = req.rid ∧ req.slots <+: (k req y).slots) :
    Extends ⟨live, departed, s⟩ ⟨(live.zip ys).map fun p => k p.1 p.2, departed, s'⟩ := by
  intro req hreq
  rcases List.mem_append.mp hreq with hreq | hreq
  · rw [← List.map_fst_zip hlen] at hreq
    obtain ⟨p, hp, rfl⟩ := List.mem_map.mp hreq
    exact ⟨k p.1 p.2, List.mem_append_left _ (List.mem_map_of_mem hp), hk p.1 p.2⟩
  · exact ⟨req, List.mem_append_right _ hreq, rfl, List.prefix_rfl⟩

theorem extends_step {blockSize : ℕ} {c c' : OverConfig} (h : OverStep blockSize c c') :
    Extends c c' := by
  cases h with
  | prepare _ _ _ =>
    exact extends_of_map (by simp [length_splitLens]) fun req more =>
      ⟨rfl, List.prefix_append _ _⟩
  | verify _ _ hlen _ =>
    exact extends_of_map (le_of_eq hlen.symm) fun req _ => ⟨rfl, List.prefix_rfl⟩
  | filter hnodup hkeep _ =>
    intro req hreq
    refine ⟨req, ?_, rfl, List.prefix_rfl⟩
    simp only [List.mem_append, ← (perm_kept_append_dropped hnodup hkeep).mem_iff] at hreq ⊢
    tauto
  | merge _ _ _ _ =>
    intro req hreq
    refine ⟨req, ?_, rfl, List.prefix_rfl⟩
    simp only [List.mem_append] at hreq ⊢
    tauto

theorem extends_run {blockSize : ℕ} {c c' : OverConfig}
    (h : Relation.ReflTransGen (OverStep blockSize) c c') : Extends c c' := by
  induction h with
  | refl => exact fun req hreq => ⟨req, hreq, rfl, List.prefix_rfl⟩
  | tail _ hstep ih =>
    intro req hreq
    obtain ⟨mid, hmid, hrid, hpre⟩ := ih req hreq
    obtain ⟨req', hreq', hrid', hpre'⟩ := extends_step hstep mid hmid
    exact ⟨req', hreq', hrid'.trans hrid, hpre.trans hpre'⟩

/-- What holds of a batch of a run. -/
structure OverSafe (blockSize : ℕ) (c : OverConfig) : Prop where
  /-- `kv_allocated_len` is how many positions of the row are mapped. -/
  allocated : c.state.batch.reqs = c.live.map (·.toReq)
  mapped : Mapped c.live c.state.reqToToken
  /-- The verify block of each request lies inside the mapped positions. -/
  block : c.state.ready = true → ∀ req ∈ c.live, req.seqLen + blockSize ≤ req.slots.length
  /-- The worker gathers the request's own slots for it. -/
  verifySlots : c.state.ready = true → c.live ≠ [] →
    c.state.batch.verifySlots blockSize c.state.reqToToken =
      c.live.flatMap fun req => (req.slots.drop req.seqLen).take blockSize
  /-- No position of a request is assigned twice. -/
  once : (c.state.assigned.map fun a => (a.1, a.2.1)).Nodup
  /-- The positions assigned are those mapped since the request joined the batch. -/
  assigned : ∀ req ∈ c.live, ∀ p slot, (req.rid, p, slot) ∈ c.state.assigned ↔
    req.admitted ≤ p ∧ p < req.slots.length ∧ c.state.reqToToken req.row p = slot
  /-- No slot is reserved twice. -/
  reserved : (c.live.flatMap (·.reserved)).Nodup
  /-- The slots taken are the total increase of `kv_allocated_len`. -/
  counted : c.state.taken.length =
    ((c.live ++ c.departed).map fun req => req.slots.length - req.admitted).sum

theorem mem_ownLog {req : OwnReq} {rid p slot : ℕ} :
    (rid, p, slot) ∈ req.ownLog ↔ rid = req.rid ∧ req.admitted ≤ p ∧ req.slots[p]? = some slot := by
  rw [OwnReq.ownLog, List.mem_map]
  constructor
  · rintro ⟨⟨slot', p'⟩, hmem, heq⟩
    obtain ⟨rfl, rfl, rfl⟩ := heq
    obtain ⟨hle, hget⟩ := List.mk_mem_zipIdx_iff_le_and_getElem?_sub.mp hmem
    rw [OwnReq.reserved, List.getElem?_drop, Nat.add_sub_cancel' hle] at hget
    exact ⟨rfl, hle, hget⟩
  · rintro ⟨rfl, hle, hget⟩
    refine ⟨(slot, p), List.mk_mem_zipIdx_iff_le_and_getElem?_sub.mpr ⟨hle, ?_⟩, rfl⟩
    rwa [OwnReq.reserved, List.getElem?_drop, Nat.add_sub_cancel' hle]

theorem length_ownLog (req : OwnReq) : req.ownLog.length = req.slots.length - req.admitted := by
  rw [OwnReq.ownLog, List.length_map, List.length_zipIdx, OwnReq.reserved, List.length_drop]

/-- No two assignments of requests with different ids are of the same position. -/
theorem nodup_positions {reqs : List OwnReq} (h : (reqs.map (·.rid)).Nodup) :
    ((reqs.flatMap (·.ownLog)).map fun a => (a.1, a.2.1)).Nodup := by
  have hown : ∀ req : OwnReq, (req.ownLog.map fun a => (a.1, a.2.1)) =
      (List.range' req.admitted req.reserved.length).map fun p => (req.rid, p) := by
    intro req
    rw [OwnReq.ownLog, List.map_map, ← List.zipIdx_map_snd req.admitted req.reserved,
      List.map_map]
    rfl
  rw [List.map_flatMap]
  simp only [hown]
  refine List.nodup_flatMap.mpr ⟨fun req _ => ?_, ?_⟩
  · exact (List.nodup_range' 1).map fun p q hpq => (Prod.mk.inj hpq).2
  · refine (List.pairwise_map.mp h).imp fun {a b} hab => ?_
    rintro ⟨rid, p⟩ ha hb
    obtain ⟨_, -, ha⟩ := List.mem_map.mp ha
    obtain ⟨_, -, hb⟩ := List.mem_map.mp hb
    exact hab ((Prod.mk.inj ha).1.trans (Prod.mk.inj hb).1.symm)

/-- The slots the worker gathers for a block inside the mapped positions. -/
theorem map_range'_slots {slots : List ℕ} {f : ℕ → ℕ} {start n : ℕ}
    (hmapped : ∀ p < slots.length, slots[p]? = some (f p)) (hle : start + n ≤ slots.length) :
    (List.range' start n).map f = (slots.drop start).take n := by
  refine List.ext_getElem? fun i => ?_
  rw [List.getElem?_map, List.getElem?_take, List.getElem?_drop]
  by_cases hi : i < n
  · rw [if_pos hi, hmapped (start + i) (by omega), List.getElem?_range' hi]
    simp
  · rw [if_neg hi, List.getElem?_eq_none (by simpa using hi)]
    rfl

theorem OverInv.safe {blockSize : ℕ} {c : OverConfig} (hinv : OverInv blockSize c) :
    OverSafe blockSize c := by
  refine ⟨hinv.shows.reqs, hinv.mapped, hinv.headroom, fun hready hne => ?_, ?_, ?_,
    hinv.reserved, ?_⟩
  · rw [OverBatch.verifySlots, hinv.shows.reqPoolIndices hne, hinv.shows.deviceLens hne,
      List.zip_map', List.flatMap_map]
    refine List.flatMap_congr fun req hreq => ?_
    exact map_range'_slots (hinv.mapped req hreq) (hinv.headroom hready req hreq)
  · exact (hinv.assigned.map _).nodup_iff.mpr (nodup_positions hinv.rids)
  · intro req hreq p slot
    rw [hinv.assigned.mem_iff, List.mem_flatMap]
    have hall : req ∈ c.live ++ c.departed := List.mem_append_left _ hreq
    constructor
    · rintro ⟨req', hreq', hmem⟩
      obtain ⟨hrid, hle, hget⟩ := mem_ownLog.mp hmem
      obtain rfl : req = req' := List.inj_on_of_nodup_map hinv.rids hall hreq' hrid
      obtain ⟨hlt, -⟩ := List.getElem?_eq_some_iff.mp hget
      rw [hinv.mapped req hreq p hlt, Option.some_inj] at hget
      exact ⟨hle, hlt, hget⟩
    · rintro ⟨hle, hlt, rfl⟩
      exact ⟨req, hall, mem_ownLog.mpr ⟨rfl, hle, hinv.mapped req hreq p hlt⟩⟩
  · rw [hinv.taken, List.length_map, hinv.assigned.length_eq, List.length_flatMap]
    simp only [length_ownLog]

/-- In every run : the verify blocks lie inside the mapped positions, positions are assigned
once, the slots taken are counted by the growth of `kv_allocated_len`, which never shrinks, and
a mapped position keeps its slot. -/
theorem over_run {blockSize : ℕ} {start c : OverConfig} (hstart : OverStart start)
    (hrun : Relation.ReflTransGen (OverStep blockSize) start c) :
    OverSafe blockSize c ∧ ∀ c', Relation.ReflTransGen (OverStep blockSize) c c' →
      ∀ req ∈ c.live, ∀ req' ∈ c'.live, req'.rid = req.rid →
        req.slots.length ≤ req'.slots.length ∧
        ∀ p < req.slots.length, c'.state.reqToToken req'.row p = c.state.reqToToken req.row p := by
  have hinv := overInv_run (overInv_start hstart) hrun
  refine ⟨hinv.safe, fun c' hrun' req hreq req' hreq' hrid => ?_⟩
  have hinv' := overInv_run hinv hrun'
  obtain ⟨later, hlater, hrid', hpre⟩ := extends_run hrun' req (List.mem_append_left _ hreq)
  obtain rfl : req' = later := List.inj_on_of_nodup_map hinv'.rids
    (List.mem_append_left _ hreq') hlater (hrid.trans hrid'.symm)
  refine ⟨hpre.length_le, fun p hp => ?_⟩
  have hold := hinv.mapped req hreq p hp
  have hnew := hinv'.mapped req' hreq' p (hp.trans_le hpre.length_le)
  obtain ⟨more, hmore⟩ := hpre
  rw [← hmore, List.getElem?_append_left hp, hold, Option.some_inj] at hnew
  exact hnew.symm

/-! ## A run -/

/-- A prefilled request of three tokens. -/
def prefilledReq : OwnReq where
  rid := 0
  row := 0
  seqLen := 3
  seen := 3
  slots := [10, 11, 12]
  admitted := 3
  admitted_le := le_refl _

def prefilledBatch : OverBatch where
  reqs := [⟨0, 3⟩]
  reqPoolIndices := [0]
  seqLens := [3]
  deviceLens := [3]
  seqLensCpu := [3]
  seqLensSum := 3
  specInfo := ⟨[7], [3], some [1]⟩

/-- An allocator that hands out slots from `first` on. -/
def countingAlloc (first n : ℕ) : Option (List ℕ) := some ((List.range n).map (first + ·))

def emptyState : OverState where
  batch := ⟨[], [], [], [], [], 0, ⟨[], [], some []⟩⟩
  reqToToken _ _ := 0
  ready := false
  taken := []
  assigned := []

def joinedState : OverState :=
  { emptyState with batch := prefilledBatch, reqToToken := fun _ p => 10 + p }

/-- The state after the first `prepare_for_decode`, for blocks of two. -/
def preparedState : OverState where
  batch := { prefilledBatch with reqs := [⟨0, 7⟩], seqLensCpu := [7], seqLensSum := 7 }
  reqToToken := assignReqToTokenPool (fun _ p => 10 + p) [(0, 3, 7)] [100, 101, 102, 103]
  ready := true
  taken := [100, 101, 102, 103]
  assigned := [(0, 3, 100), (0, 4, 101), (0, 5, 102), (0, 6, 103)]

def preparedReqs : List OwnReq := growAll 2 [prefilledReq] [100, 101, 102, 103]

/-- A verify step committed two tokens, and the next `prepare_for_decode` does not see them. -/
def laggingState : OverState :=
  { preparedState with batch := preparedState.batch.afterVerify [2] [3] [8] [2], ready := false }

def laggingReqs : List OwnReq := (preparedReqs.zip [(2, 3)]).map fun p => p.1.advance p.2

theorem freshAlloc_countingAlloc {live : List OwnReq} {first : ℕ}
    (h : ∀ req ∈ live, ∀ slot ∈ req.slots, slot < first) :
    FreshAlloc live (countingAlloc first) := by
  intro n slots hslots
  obtain rfl := Option.some.inj hslots
  refine ⟨by simp, List.nodup_range.map fun p q hpq => Nat.add_left_cancel hpq, ?_⟩
  intro req hreq slot hslot hmem
  obtain ⟨p, -, rfl⟩ := List.mem_map.mp hslot
  exact absurd (h req hreq _ hmem) (by omega)

/-- The batch is prepared, verified, and prepared again on the length before the verify step. Its
next block starts at the five tokens that it has by then. -/
theorem over_run_lagging : ∃ s : OverState, OverSafe 2 ⟨growAll 2 laggingReqs [], [], s⟩ ∧
      s.ready = true ∧ s.batch.seqLens = [3] ∧ s.batch.deviceLens = [5] ∧
      s.batch.verifySlots 2 s.reqToToken = [102, 103] := by
  have hlast : Shows [prefilledReq] prefilledBatch :=
    ⟨rfl, fun _ => rfl, fun _ => rfl, fun _ => rfl⟩
  have hmapped : Mapped [prefilledReq] fun _ p => 10 + p := by
    intro req hreq p hp
    obtain rfl := List.mem_singleton.mp hreq
    match p, hp with
    | 0, _ => rfl
    | 1, _ => rfl
    | 2, _ => rfl
  have hjoin : OverStep 2 ⟨[], [], emptyState⟩ ⟨[prefilledReq], [], joinedState⟩ :=
    .merge (List.cons_ne_nil _ _) hlast ⟨by decide, by decide, by decide,
      fun _ hreq => absurd hreq List.not_mem_nil, hmapped⟩ rfl
  have hprepare : OverStep 2 ⟨[prefilledReq], [], joinedState⟩ ⟨preparedReqs, [], preparedState⟩ :=
    .prepare (by unfold Lags; decide) (@freshAlloc_countingAlloc _ 100 (by decide)) rfl
  have hverify : OverStep 2 ⟨preparedReqs, [], preparedState⟩ ⟨laggingReqs, [], laggingState⟩ :=
    @OverStep.verify 2 _ _ _ [(2, 3)] [8] [2] rfl (by decide) rfl (by decide)
  have hlags : OverStep 2 ⟨laggingReqs, [], laggingState⟩ ⟨growAll 2 laggingReqs [], [], _⟩ :=
    .prepare (by unfold Lags; decide) (@freshAlloc_countingAlloc _ 104 (by decide)) rfl
  have hrun := (((Relation.ReflTransGen.refl.tail hjoin).tail hprepare).tail hverify).tail hlags
  exact ⟨_, (over_run ⟨rfl, rfl, rfl, rfl, rfl, rfl⟩ hrun).1, rfl, rfl, rfl, rfl⟩

end DraftOpd
