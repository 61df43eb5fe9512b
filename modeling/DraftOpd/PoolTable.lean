import DraftOpd.DraftSegments
import DraftOpd.MaskSelect
import DraftOpd.Scatter

/-!
# The request table in memory

`req_to_token` is a tensor of `size` rows and `pool_len` columns (`PoolTable`), and the mapping
`ReqToToken` is what it says (`PoolTable.view`). A gather from it fails outside the tensor ; the
kernel that writes it computes addresses in row-major memory, 32 at a time.

`gatherReqToTokenSegments_ok` : the rectangle of a ragged gather stays inside the tensor when the
segments do, and the mask leaves the segments one after another. `view_assignReqToTokenPoolFunc` :
the kernel's writes are those of `assignReqToTokenPool` on the mapping.
-/

namespace DraftOpd

/-- A `req_to_token` tensor, in row-major memory. -/
structure PoolTable where
  size : ℕ
  poolLen : ℕ
  cells : List ℕ
  length_cells : cells.length = size * poolLen

namespace PoolTable

variable (t : PoolTable)

/-- `req_to_token[row, pos]`, when it is inside the tensor. -/
def read (row pos : ℕ) : Option ℕ :=
  if row < t.size ∧ pos < t.poolLen then t.cells[row * t.poolLen + pos]? else none

/-- The mapping of the table. -/
def view : ReqToToken := fun row pos => (t.read row pos).getD 0

/-- `req_to_token[row]`. -/
def row (r : ℕ) : List ℕ := (t.cells.drop (r * t.poolLen)).take t.poolLen

variable {t}

theorem cell_lt {row pos : ℕ} (hrow : row < t.size) (hpos : pos < t.poolLen) :
    row * t.poolLen + pos < t.cells.length := by
  have hmul := Nat.mul_le_mul_right t.poolLen (Nat.succ_le_of_lt hrow)
  rw [Nat.succ_mul] at hmul
  rw [t.length_cells]
  omega

theorem read_eq {row pos : ℕ} (hrow : row < t.size) (hpos : pos < t.poolLen) :
    t.read row pos = some (t.view row pos) := by
  rw [view, read, if_pos ⟨hrow, hpos⟩, List.getElem?_eq_getElem (cell_lt hrow hpos),
    Option.getD_some]

theorem getElem?_row {r pos : ℕ} (hrow : r < t.size) (hpos : pos < t.poolLen) :
    (t.row r)[pos]? = some (t.view r pos) := by
  rw [← read_eq hrow hpos, read, if_pos ⟨hrow, hpos⟩, row, List.getElem?_take, if_pos hpos,
    List.getElem?_drop]

theorem length_row {r : ℕ} (hrow : r < t.size) : (t.row r).length = t.poolLen := by
  have hmul := Nat.mul_le_mul_right t.poolLen (Nat.succ_le_of_lt hrow)
  rw [Nat.succ_mul] at hmul
  rw [row, List.length_take, List.length_drop, t.length_cells]
  omega

/-- A part of a row, read from the mapping. -/
theorem slice_row {r start n : ℕ} (hrow : r < t.size) (hstop : start + n ≤ t.poolLen) :
    ((t.row r).drop start).take n = (List.range' start n).map (t.view r) := by
  refine List.ext_getElem? fun i => ?_
  rw [List.getElem?_take, List.getElem?_drop, List.getElem?_map]
  split_ifs with hi
  · rw [getElem?_row hrow (by omega), List.getElem?_range' hi]
    simp
  · rw [List.getElem?_eq_none (by simpa using hi), Option.map_none]

end PoolTable

/-! ## The ragged gather -/

/-- The exceptions of the gather ; the last is the `IndexError` of the tensor. -/
inductive GatherError where
  | maskShapeMismatch
  | emptyTable
  | indexOutOfRange
deriving DecidableEq, Repr

/-- `_gather_req_to_token_masked` (`dflash_worker.py:350-385`). -/
def gatherReqToTokenMasked (reqToToken : PoolTable) (reqPoolIndices : List ℕ)
    (pos2d : List (List ℕ)) (mask : List (List Bool)) : Except GatherError (List ℕ) :=
  if mask.map List.length ≠ pos2d.map List.length then .error .maskShapeMismatch
  else if reqToToken.poolLen ≤ 0 then
    if mask.any fun row => row.any id then .error .emptyTable else .ok []
  else
    let safePos2d := List.zipWith (List.zipWith fun pos m => if m then pos else 0) pos2d mask
    match (reqPoolIndices.zip safePos2d).mapM fun x => x.2.mapM (reqToToken.read x.1) with
    | none => .error .indexOutOfRange
    | some rect => .ok (maskSelect rect.flatten mask.flatten)

/-- `_gather_req_to_token_segments` (`dflash_worker.py:387-418`). -/
def gatherReqToTokenSegments (reqToToken : PoolTable) (reqPoolIndices : List ℕ)
    (start : Option (List ℕ)) (lengths : List ℕ) : Except GatherError (List ℕ) :=
  if lengths.length = 0 then .ok []
  else if maxLen lengths ≤ 0 then .ok []
  else
    let offsets := List.range (maxLen lengths)
    let pos2d := match start with
      | none => reqPoolIndices.map fun _ => offsets
      | some start => start.map fun s => offsets.map (s + ·)
    let mask := lengths.map fun len => offsets.map fun r => decide (r < len)
    gatherReqToTokenMasked reqToToken reqPoolIndices pos2d mask

theorem mapM_some {α β : Type*} {f : α → Option β} {g : α → β} :
    ∀ {xs : List α}, (∀ x ∈ xs, f x = some (g x)) → xs.mapM f = some (xs.map g)
  | [], _ => rfl
  | x :: xs, h => by
    rw [List.mapM_cons, h x List.mem_cons_self,
      mapM_some fun y hy => h y (List.mem_cons_of_mem _ hy)]
    rfl

theorem maxLen_le {lens : List ℕ} {bound : ℕ} (h : ∀ n ∈ lens, n ≤ bound) :
    maxLen lens ≤ bound := by
  induction lens with
  | nil => exact Nat.zero_le _
  | cons n lens ih =>
    obtain ⟨hn, hlens⟩ := List.forall_mem_cons.mp h
    exact max_le hn (ih hlens)

/-- Segments inside the table are read one after another : the padding of the rectangle is read
at the first column, and masked. -/
theorem gatherReqToTokenSegments_ok {t : PoolTable} {segments : List (ℕ × ℕ × ℕ)}
    (h : ∀ seg ∈ segments, seg.1 < t.size ∧ seg.2.1 + seg.2.2 ≤ t.poolLen) :
    gatherReqToTokenSegments t (segments.map (·.1)) (some (segments.map (·.2.1)))
        (segments.map (·.2.2)) = .ok (DraftWorker.gatherSegments t.view segments) := by
  unfold gatherReqToTokenSegments DraftWorker.gatherSegments
  generalize hwidth : maxLen (segments.map (·.2.2)) = width
  by_cases hnil : segments = []
  · rw [hnil]
    rfl
  rw [if_neg (by simpa using hnil)]
  by_cases hzero : width ≤ 0
  · obtain rfl : width = 0 := by omega
    simp
  rw [if_neg hzero]
  have hpos : ¬ t.poolLen ≤ 0 := by
    intro hempty
    refine hzero (hwidth ▸ maxLen_le fun n hn => ?_)
    obtain ⟨seg, hseg, rfl⟩ := List.mem_map.mp hn
    exact le_trans (by omega) ((h seg hseg).2.trans hempty)
  have hshape : ¬ ((segments.map (·.2.2)).map fun len =>
      (List.range width).map fun r => decide (r < len)).map List.length ≠
      ((segments.map (·.2.1)).map fun s => (List.range width).map (s + ·)).map List.length := by
    simp [Function.comp_def]
  have hsafe : List.zipWith (List.zipWith fun pos (m : Bool) => if m then pos else 0)
      ((segments.map (·.2.1)).map fun s => (List.range width).map (s + ·))
      ((segments.map (·.2.2)).map fun len => (List.range width).map fun r => decide (r < len)) =
      segments.map fun seg => (List.range width).map fun r =>
        if r < seg.2.2 then seg.2.1 + r else 0 := by
    simp only [List.map_map, List.zipWith_map, List.zipWith_self, Function.comp_apply,
      decide_eq_true_eq]
  have hrect : ((segments.map (·.1)).zip (segments.map fun seg => (List.range width).map fun r =>
      if r < seg.2.2 then seg.2.1 + r else 0)).mapM (fun x => x.2.mapM (t.read x.1)) =
      some (segments.map fun seg => (List.range width).map fun r =>
        t.view seg.1 (if r < seg.2.2 then seg.2.1 + r else 0)) := by
    rw [List.zip_map', List.mapM_map]
    refine mapM_some fun seg hseg => ?_
    rw [Function.comp_apply, List.mapM_map]
    refine mapM_some fun r _ => PoolTable.read_eq (h seg hseg).1 ?_
    have hstop := (h seg hseg).2
    dsimp only
    split_ifs <;> omega
  simp only [gatherReqToTokenMasked]
  rw [if_neg hshape, if_neg hpos, hsafe, hrect]
  refine congrArg Except.ok ?_
  rw [List.map_map, ← List.flatMap_def, ← List.flatMap_def, maskSelect_flatMap fun seg _ => by simp]
  refine List.flatMap_congr fun seg _ => ?_
  rw [Function.comp_apply, maskSelect_map]
  refine List.map_congr_left fun r hr => ?_
  rw [if_pos (by simpa using (List.mem_filter.mp hr).2)]

/-! ## The kernel -/

/-- The stores of one program of `assign_req_to_token_pool` (`spec_utils.py:87-118`), as
addresses and values. -/
def assignProgram (poolLen : ℕ) (outCacheLoc : List ℕ) (outOffset : ℕ)
    (program : ℕ × ℕ × ℕ) : List (ℕ × ℕ) :=
  let (row, kvStart, kvEnd) := program
  let tokenPool := row * poolLen
  let numLoop := (kvEnd - kvStart + 32 - 1) / 32
  (List.range numLoop).flatMap fun i =>
    ((List.range 32).filter fun lane => kvStart + (32 * i + lane) < kvEnd).map fun lane =>
      (tokenPool + (kvStart + (32 * i + lane)), outCacheLoc.getD (outOffset + (32 * i + lane)) 0)

/-- `assign_req_to_token_pool_func` (`spec_utils.py:121-137`) : a program for each request, which
finds its part of `out_cache_loc` after those of the requests before it. -/
def assignReqToTokenPoolFunc (t : PoolTable) (programs : List (ℕ × ℕ × ℕ))
    (outCacheLoc : List ℕ) : PoolTable where
  size := t.size
  poolLen := t.poolLen
  cells := scatter t.cells (programs.zipIdx.flatMap fun x =>
    let outOffset := ((programs.take x.2).map fun y => y.2.2 - y.2.1).sum
    assignProgram t.poolLen outCacheLoc outOffset x.1)
  length_cells := by rw [length_scatter, t.length_cells]

/-- Blocks of 32 lanes under the mask reach every offset below `n`. -/
theorem flatMap_lanes {α : Type*} (f : ℕ → α) (n : ℕ) : ∀ blocks : ℕ,
    ((List.range blocks).flatMap fun i =>
      ((List.range 32).filter fun lane => 32 * i + lane < n).map fun lane => f (32 * i + lane)) =
      (List.range (min n (32 * blocks))).map f
  | 0 => by simp
  | blocks + 1 => by
    have hlanes : ((List.range 32).filter fun lane => 32 * blocks + lane < n) =
        List.range (min 32 (n - 32 * blocks)) := by
      rw [← filter_range_lt (Nat.min_le_left 32 (n - 32 * blocks))]
      refine List.filter_congr fun lane hlane => ?_
      have hlt := List.mem_range.mp hlane
      rw [decide_eq_decide]
      omega
    have hsplit : min n (32 * (blocks + 1)) =
        min n (32 * blocks) + min 32 (n - 32 * blocks) := by omega
    rw [List.range_succ (n := blocks), List.flatMap_append, flatMap_lanes f n blocks,
      List.flatMap_singleton, hlanes, hsplit, List.range_add, List.map_append, List.map_map]
    refine congrArg _ (List.map_congr_left fun lane hlane => ?_)
    have hlt := List.mem_range.mp hlane
    rw [Function.comp_apply, show min n (32 * blocks) = 32 * blocks by omega]

/-- A program stores its segment, in order. -/
theorem assignProgram_eq (poolLen : ℕ) (outCacheLoc : List ℕ) (outOffset row kvStart kvEnd : ℕ) :
    assignProgram poolLen outCacheLoc outOffset (row, kvStart, kvEnd) =
      (List.range (kvEnd - kvStart)).map fun i =>
        (row * poolLen + (kvStart + i), outCacheLoc.getD (outOffset + i) 0) := by
  have hmask : ∀ i lane, (kvStart + (32 * i + lane) < kvEnd) = (32 * i + lane < kvEnd - kvStart) :=
    fun i lane => by rw [eq_iff_iff]; omega
  simp only [assignProgram, hmask]
  rw [flatMap_lanes (fun i => (row * poolLen + (kvStart + i), outCacheLoc.getD (outOffset + i) 0)),
    Nat.min_eq_left (by omega)]

namespace PoolTable

variable {t : PoolTable}

/-- A cell belongs to one row and one column. -/
theorem cell_inj {W r r' p p' : ℕ} (hp : p < W) (hp' : p' < W)
    (h : r * W + p = r' * W + p') : r = r' ∧ p = p' := by
  have hdiv := congrArg (· / W) h
  have hpos : 0 < W := by omega
  simp only [Nat.mul_comm _ W, Nat.mul_add_div hpos, Nat.div_eq_of_lt hp,
    Nat.div_eq_of_lt hp'] at hdiv
  obtain rfl : r = r' := by omega
  exact ⟨rfl, by omega⟩

/-- Storing a segment inside a row writes it to the mapping. -/
theorem view_scatter {row start : ℕ} {slots : List ℕ} (hrow : row < t.size)
    (hstop : start + slots.length ≤ t.poolLen) {t' : PoolTable} (hsize : t'.size = t.size)
    (hlen : t'.poolLen = t.poolLen)
    (hcells : t'.cells = scatter t.cells ((List.range slots.length).map fun i =>
      (row * t.poolLen + (start + i), slots.getD i 0))) :
    t'.view = t.view.write row start slots := by
  have haddresses : ((List.range slots.length).map fun i =>
      (row * t.poolLen + (start + i), slots.getD i 0)).map Prod.fst =
      (List.range slots.length).map fun i => row * t.poolLen + (start + i) := by
    rw [List.map_map]
    rfl
  funext r p
  by_cases hin : r < t.size ∧ p < t.poolLen
  · have hread : t'.read r p = t'.cells[r * t.poolLen + p]? := by
      rw [read, hsize, hlen, if_pos hin]
    rw [view, hread, hcells, ReqToToken.write]
    split_ifs with hseg
    · obtain ⟨rfl, hge, hlt⟩ := hseg
      rw [getElem?_scatter_of_mem (a := slots.getD (p - start) 0), Option.getD_some]
      · rw [haddresses]
        exact List.nodup_range.map fun i j hij => by omega
      · exact List.mem_map.mpr ⟨p - start, List.mem_range.mpr (by omega), by
          rw [show start + (p - start) = p by omega]⟩
      · exact cell_lt hin.1 hin.2
    · rw [getElem?_scatter_of_notMem, view, read, if_pos hin]
      rw [haddresses, List.mem_map]
      rintro ⟨i, hi, heq⟩
      have hlt := List.mem_range.mp hi
      obtain ⟨rfl, rfl⟩ := cell_inj (by omega) hin.2 heq
      exact hseg ⟨rfl, by omega, by omega⟩
  · have hnone : t'.read r p = none := by rw [read, hsize, hlen, if_neg hin]
    have hseg : ¬ (r = row ∧ start ≤ p ∧ p < start + slots.length) := by
      rintro ⟨rfl, -, hlt⟩
      exact hin ⟨hrow, by omega⟩
    rw [view, hnone, ReqToToken.write, if_neg hseg, view, read, if_neg hin]

end PoolTable

/-- The programs after the first one find their parts in what the first one leaves. -/
theorem flatMap_assignProgram_cons (poolLen : ℕ) (program : ℕ × ℕ × ℕ)
    (programs : List (ℕ × ℕ × ℕ)) (outCacheLoc : List ℕ) :
    ((program :: programs).zipIdx.flatMap fun x => assignProgram poolLen outCacheLoc
        ((((program :: programs).take x.2).map fun y => y.2.2 - y.2.1).sum) x.1) =
      assignProgram poolLen outCacheLoc 0 program ++
        programs.zipIdx.flatMap fun x => assignProgram poolLen
          (outCacheLoc.drop (program.2.2 - program.2.1))
          (((programs.take x.2).map fun y => y.2.2 - y.2.1).sum) x.1 := by
  rw [List.zipIdx_cons, List.flatMap_cons, List.zipIdx_succ, List.flatMap_map]
  refine congrArg₂ _ rfl (List.flatMap_congr fun x _ => ?_)
  obtain ⟨⟨row, kvStart, kvEnd⟩, i⟩ := x
  rw [assignProgram_eq, assignProgram_eq]
  refine List.map_congr_left fun j _ => ?_
  rw [List.take_succ_cons, List.map_cons, List.sum_cons, List.getD_eq_getElem?_getD,
    List.getD_eq_getElem?_getD, List.getElem?_drop, Nat.add_assoc]

/-- The kernel writes what the assignment to the mapping writes, when the segments are inside the
table and their slots are all there. -/
theorem view_assignReqToTokenPoolFunc : ∀ {programs : List (ℕ × ℕ × ℕ)} {t : PoolTable}
    {outCacheLoc : List ℕ},
    (∀ x ∈ programs, x.1 < t.size ∧ x.2.1 ≤ x.2.2 ∧ x.2.2 ≤ t.poolLen) →
    (programs.map fun x => x.2.2 - x.2.1).sum ≤ outCacheLoc.length →
    (assignReqToTokenPoolFunc t programs outCacheLoc).view =
      assignReqToTokenPool t.view programs outCacheLoc
  | [], t, _, _, _ => rfl
  | (row, start, stop) :: programs, t, outCacheLoc, h, hlen => by
    obtain ⟨⟨hrow, hle, hstop⟩, hrest⟩ := List.forall_mem_cons.mp h
    rw [List.map_cons, List.sum_cons] at hlen
    dsimp only at hrow hle hstop hlen
    have htake : (outCacheLoc.take (stop - start)).length = stop - start := by
      rw [List.length_take]
      omega
    let t' : PoolTable := assignReqToTokenPoolFunc t [(row, start, stop)] outCacheLoc
    have hview : t'.view = t.view.write row start (outCacheLoc.take (stop - start)) := by
      refine PoolTable.view_scatter hrow (by rw [htake]; omega) rfl rfl ?_
      refine congrArg (scatter t.cells) ?_
      rw [List.zipIdx_singleton, List.flatMap_singleton, assignProgram_eq, htake]
      refine List.map_congr_left fun i hi => ?_
      rw [List.getD_eq_getElem?_getD, List.getD_eq_getElem?_getD, List.getElem?_take,
        if_pos (List.mem_range.mp hi)]
      simp
    have hnext : assignReqToTokenPoolFunc t ((row, start, stop) :: programs) outCacheLoc =
        assignReqToTokenPoolFunc t' programs (outCacheLoc.drop (stop - start)) := by
      have hcells := flatMap_assignProgram_cons t.poolLen (row, start, stop) programs outCacheLoc
      have hone := flatMap_assignProgram_cons t.poolLen (row, start, stop) [] outCacheLoc
      simp only [t', assignReqToTokenPoolFunc, PoolTable.mk.injEq, true_and]
      rw [hcells, scatter_append, hone]
      simp
    have hrest' : ∀ x ∈ programs, x.1 < t'.size ∧ x.2.1 ≤ x.2.2 ∧ x.2.2 ≤ t'.poolLen := hrest
    rw [hnext, view_assignReqToTokenPoolFunc hrest' (by rw [List.length_drop]; omega), hview,
      assignReqToTokenPool]

end DraftOpd
