import Mathlib.Data.List.Basic
import Mathlib.Order.Nat

/-!
# Side lists aligned with a growing output

A producer appends outputs and keeps a side list with one entry per output. It
records an entry only for the last output of some steps, padding the outputs in
between (`recordAt`), so the side list may be shorter than the output until the
next record. A sender ships the part of the side list past its send offset and
moves the offset to the end of the output (`SideStream.send`), and the receiver
concatenates the parts.

Two facts about the receiver. Entries whose padding carries nothing arrive in
order whatever the schedule (`Delivered`). Flags, where the padding is a `false`
that counts, arrive shifted as soon as a part is shipped while the side list is
short: `InStep` is the invariant of the schedules on which they arrive in place,
up to a first output that was shipped before anything was recorded.
-/

set_option linter.unusedSectionVars false

namespace DraftOpd

variable {α β : Type*}

/-- `xs` with `pad` appended up to length `n`. -/
def padTo (pad : α) (n : ℕ) (xs : List α) : List α :=
  xs ++ List.replicate (n - xs.length) pad

/-- `xs` padded to `n`, then `c` more entries, the last of them `x`. -/
def recordAt (pad x : α) (n c : ℕ) (xs : List α) : List α :=
  let ys := padTo pad n xs ++ List.replicate c pad
  ys.set (ys.length - 1) x

theorem length_padTo (pad : α) (n : ℕ) (xs : List α) :
    (padTo pad n xs).length = max xs.length n := by
  simp only [padTo, List.length_append, List.length_replicate]
  omega

theorem padTo_of_length_ge {pad : α} {n : ℕ} {xs : List α} (h : n ≤ xs.length) :
    padTo pad n xs = xs := by
  simp [padTo, Nat.sub_eq_zero_of_le h]

theorem padTo_add (pad : α) {n : ℕ} (k : ℕ) {xs : List α} (h : xs.length ≤ n) :
    padTo pad (n + k) xs = padTo pad n xs ++ List.replicate k pad := by
  simp only [padTo, List.append_assoc, ← List.replicate_add]
  congr 2
  omega

theorem map_padTo (f : α → β) (pad : α) (n : ℕ) (xs : List α) :
    (padTo pad n xs).map f = padTo (f pad) n (xs.map f) := by
  simp [padTo]

/-- The recorded entry stands last, after the padding. -/
theorem recordAt_eq (pad x : α) (n : ℕ) {c : ℕ} (hc : 0 < c) (xs : List α) :
    recordAt pad x n c xs = padTo pad n xs ++ (List.replicate (c - 1) pad ++ [x]) := by
  obtain ⟨k, rfl⟩ : ∃ k, c = k + 1 := ⟨c - 1, by omega⟩
  simp only [recordAt, List.length_append, List.length_replicate, Nat.add_sub_cancel]
  rw [List.set_append, if_neg (by omega), List.replicate_succ', List.set_append,
    if_neg (by simp)]
  simp

theorem map_recordAt (f : α → β) (pad x : α) (n c : ℕ) (xs : List α) :
    (recordAt pad x n c xs).map f = recordAt (f pad) (f x) n c (xs.map f) := by
  simp [recordAt, List.map_set, map_padTo, length_padTo]

theorem length_recordAt (pad x : α) (n c : ℕ) (xs : List α) :
    (recordAt pad x n c xs).length = max xs.length n + c := by
  simp [recordAt, length_padTo]

theorem recordAt_ne_nil (pad x : α) (n : ℕ) {c : ℕ} (hc : 0 < c) (xs : List α) :
    recordAt pad x n c xs ≠ [] := by
  rw [recordAt_eq pad x n hc]
  simp

/-- The output length, its side list, and what was shipped of it. -/
structure SideStream (α : Type*) where
  /-- Outputs so far. -/
  len : ℕ
  /-- Entries of the outputs, possibly short of `len`. -/
  side : List α
  /-- Outputs shipped so far. -/
  offset : ℕ
  /-- The parts shipped so far, concatenated. -/
  got : List α

namespace SideStream

/-- Outputs without an entry. -/
def output (s : SideStream α) (n : ℕ) : SideStream α := { s with len := s.len + n }

/-- `c` outputs with the entry `x` for the last of them. -/
def record (s : SideStream α) (pad x : α) (c : ℕ) : SideStream α :=
  { s with len := s.len + c, side := recordAt pad x s.len c s.side }

/-- Ship the entries past the offset. -/
def send (s : SideStream α) : SideStream α :=
  { s with offset := s.len, got := s.got ++ s.side.drop s.offset }

/-! ## Entries that carry nothing when padded -/

/-- The receiver has what the entries of the shipped outputs carry, in order. -/
structure Delivered (view : α → List β) (s : SideStream α) : Prop where
  side_le : s.side.length ≤ s.len
  offset_le : s.offset ≤ s.len
  got_eq : s.got.flatMap view = (s.side.take s.offset).flatMap view

theorem flatMap_padTo {view : α → List β} {pad : α} (hpad : view pad = []) (n : ℕ)
    (xs : List α) : (padTo pad n xs).flatMap view = xs.flatMap view := by
  simp [padTo, hpad]

theorem flatMap_take_padTo {view : α → List β} {pad : α} (hpad : view pad = []) (k n : ℕ)
    (xs : List α) : ((padTo pad n xs).take k).flatMap view = (xs.take k).flatMap view := by
  rw [padTo, List.take_append, List.flatMap_append, List.take_replicate]
  simp only [List.flatMap_replicate, hpad, List.flatten_replicate_nil, List.append_nil]

/-- A record adds what its entry carries. -/
theorem flatMap_recordAt {view : α → List β} {pad : α} (hpad : view pad = []) (x : α) (n : ℕ)
    {c : ℕ} (hc : 0 < c) (xs : List α) :
    (recordAt pad x n c xs).flatMap view = xs.flatMap view ++ view x := by
  rw [recordAt_eq pad x n hc, List.flatMap_append, flatMap_padTo hpad]
  simp [hpad]

theorem Delivered.output {view : α → List β} {s : SideStream α} (h : Delivered view s) (n : ℕ) :
    Delivered view (s.output n) :=
  ⟨h.side_le.trans (Nat.le_add_right _ _), h.offset_le.trans (Nat.le_add_right _ _), h.got_eq⟩

theorem Delivered.record {view : α → List β} {pad : α} (hpad : view pad = []) {s : SideStream α}
    (h : Delivered view s) (x : α) {c : ℕ} (hc : 0 < c) : Delivered view (s.record pad x c) := by
  refine ⟨?_, h.offset_le.trans (Nat.le_add_right _ _), ?_⟩
  · have := h.side_le
    simp only [SideStream.record, length_recordAt]
    omega
  · have hlen : s.offset ≤ (padTo pad s.len s.side).length := by
      rw [length_padTo]
      exact h.offset_le.trans (le_max_right _ _)
    simp only [SideStream.record, recordAt_eq pad x s.len hc]
    rw [List.take_append_of_le_length hlen, flatMap_take_padTo hpad]
    exact h.got_eq

theorem Delivered.send {view : α → List β} {s : SideStream α} (h : Delivered view s) :
    Delivered view s.send := by
  refine ⟨h.side_le, le_refl _, ?_⟩
  simp only [SideStream.send, List.flatMap_append, h.got_eq]
  rw [List.take_of_length_le h.side_le, ← List.flatMap_append, List.take_append_drop]

/-- Once everything is shipped the receiver has what every entry carries. -/
theorem Delivered.got_of_offset_eq {view : α → List β} {s : SideStream α} (h : Delivered view s)
    (hoff : s.offset = s.len) : s.got.flatMap view = s.side.flatMap view := by
  rw [h.got_eq, hoff, List.take_of_length_le h.side_le]

/-! ## Flags -/

/-- The flags of the outputs, those past the side list being `false`. -/
def flags (s : SideStream Bool) : List Bool := padTo false s.len s.side

/-- The receiver holds the flags of the shipped outputs, or all of them but the
first, which is then `false`. Before the first record it holds nothing. -/
structure InStep (s : SideStream Bool) : Prop where
  side_le : s.side.length ≤ s.len
  offset_le : s.offset ≤ s.len
  got_nil : s.side = [] → s.got = []
  got_eq : s.side ≠ [] → ∃ d, d ≤ 1 ∧ d ≤ s.offset ∧ s.flags.take d = List.replicate d false ∧
    s.got = (s.flags.take s.offset).drop d

theorem length_flags {s : SideStream Bool} (h : s.side.length ≤ s.len) :
    s.flags.length = s.len := by
  rw [flags, length_padTo]
  omega

/-- Outputs without an entry have the flag `false`. -/
theorem flags_output {s : SideStream Bool} (h : s.side.length ≤ s.len) (n : ℕ) :
    (s.output n).flags = s.flags ++ List.replicate n false :=
  padTo_add false n h

/-- A record of `true` flags the last of its outputs. -/
theorem flags_record {s : SideStream Bool} (h : s.side.length ≤ s.len) {c : ℕ} (hc : 0 < c) :
    (s.record false true c).flags = s.flags ++ (List.replicate (c - 1) false ++ [true]) := by
  unfold flags SideStream.record
  rw [padTo_of_length_ge, recordAt_eq false true s.len hc]
  simp only [length_recordAt]
  omega

theorem flags_of_side_nil {s : SideStream Bool} (h : s.side = []) :
    s.flags = List.replicate s.len false := by
  simp [flags, padTo, h]

theorem InStep.output {s : SideStream Bool} (h : InStep s) (n : ℕ) : InStep (s.output n) := by
  have hflen := length_flags h.side_le
  have hoff := h.offset_le
  refine ⟨h.side_le.trans (Nat.le_add_right _ _), hoff.trans (Nat.le_add_right _ _),
    h.got_nil, fun hs => ?_⟩
  obtain ⟨d, hd1, hd, hfalse, hg⟩ := h.got_eq hs
  refine ⟨d, hd1, hd, ?_, ?_⟩
  · rw [flags_output h.side_le, List.take_append_of_le_length (by omega)]
    exact hfalse
  · rw [flags_output h.side_le]
    have htake : (s.flags ++ List.replicate n false).take s.offset = s.flags.take s.offset :=
      List.take_append_of_le_length (by omega)
    exact hg.trans (congrArg (List.drop d) htake.symm)

/-- A record keeps step unless two or more outputs were shipped before the first. -/
theorem InStep.record {s : SideStream Bool} (h : InStep s) {c : ℕ} (hc : 0 < c)
    (hfirst : s.side = [] → s.offset ≤ 1) : InStep (s.record false true c) := by
  have hflen := length_flags h.side_le
  have hoff := h.offset_le
  refine ⟨?_, hoff.trans (Nat.le_add_right _ _),
    fun ht => absurd ht (recordAt_ne_nil false true s.len hc s.side), fun _ => ?_⟩
  · have := h.side_le
    simp only [SideStream.record, length_recordAt]
    omega
  rw [flags_record h.side_le hc]
  by_cases hs : s.side = []
  · refine ⟨s.offset, hfirst hs, le_refl _, ?_, ?_⟩
    · rw [List.take_append_of_le_length (by omega), flags_of_side_nil hs, List.take_replicate,
        Nat.min_eq_left hoff]
    · simp [SideStream.record, h.got_nil hs]
  · obtain ⟨d, hd1, hd, hfalse, hg⟩ := h.got_eq hs
    refine ⟨d, hd1, hd, ?_, ?_⟩
    · rw [List.take_append_of_le_length (by omega)]
      exact hfalse
    · have htake : (s.flags ++ (List.replicate (c - 1) false ++ [true])).take s.offset =
          s.flags.take s.offset := List.take_append_of_le_length (by omega)
      exact hg.trans (congrArg (List.drop d) htake.symm)

/-- Shipping keeps step when the side list is not short, or still empty. -/
theorem InStep.send {s : SideStream Bool} (h : InStep s)
    (hfull : s.side.length = s.len ∨ s.side = []) : InStep s.send := by
  refine ⟨h.side_le, le_refl _, fun hs => ?_, fun hs => ?_⟩
  · have hs' : s.side = [] := hs
    simp [SideStream.send, hs', h.got_nil hs']
  · have hlen : s.side.length = s.len := hfull.resolve_right hs
    have hflags : s.flags = s.side := padTo_of_length_ge hlen.ge
    obtain ⟨d, hd1, hd, hfalse, hg⟩ := h.got_eq hs
    refine ⟨d, hd1, hd.trans h.offset_le, hfalse, ?_⟩
    have hsplit : s.side.drop d = (s.side.take s.offset).drop d ++ s.side.drop s.offset := by
      conv_lhs => rw [← List.take_append_drop s.offset s.side]
      refine List.drop_append_of_le_length ?_
      rw [List.length_take, hlen, Nat.min_eq_left h.offset_le]
      exact hd
    calc s.send.got = (s.side.take s.offset).drop d ++ s.side.drop s.offset := by
          rw [SideStream.send, hg, hflags]
      _ = s.side.drop d := hsplit.symm
      _ = (s.send.flags.take s.send.offset).drop d := by
          have hsend : s.send.flags = s.side := hflags
          rw [hsend, SideStream.send, ← hlen, List.take_length]

/-- The receiver holds nothing and no shipped output is flagged, or it holds the flags
of the shipped outputs, or all of them but a first `false`. -/
theorem InStep.got_cases {s : SideStream Bool} (h : InStep s) :
    (s.got = [] ∧ s.flags.take s.offset = List.replicate s.offset false) ∨
      s.got = s.flags.take s.offset ∨ (false :: s.got = s.flags.take s.offset) := by
  by_cases hs : s.side = []
  · refine Or.inl ⟨h.got_nil hs, ?_⟩
    rw [flags_of_side_nil hs, List.take_replicate, Nat.min_eq_left h.offset_le]
  · obtain ⟨d, hd1, hd, hfalse, hg⟩ := h.got_eq hs
    rcases Nat.le_one_iff_eq_zero_or_eq_one.mp hd1 with rfl | rfl
    · exact Or.inr (Or.inl (by rw [hg, List.drop_zero]))
    · refine Or.inr (Or.inr ?_)
      have htake : (s.flags.take s.offset).take 1 = [false] := by
        rw [List.take_take, Nat.min_eq_left hd]
        exact hfalse
      rw [hg]
      conv_rhs => rw [← List.take_append_drop 1 (s.flags.take s.offset), htake]
      rfl

end SideStream

/-! ## Marked positions -/

/-- The flags of `n` outputs of which those at the ends `stops` are set. -/
def marks (stops : List ℕ) (n : ℕ) : List Bool :=
  (List.range n).map fun i => decide (i + 1 ∈ stops)

@[simp] theorem length_marks (stops : List ℕ) (n : ℕ) : (marks stops n).length = n := by
  simp [marks]

theorem take_marks (stops : List ℕ) {k n : ℕ} (h : k ≤ n) :
    (marks stops n).take k = marks stops k := by
  rw [marks, ← List.map_take, List.take_range, Nat.min_eq_left h]
  rfl

theorem getElem?_marks (stops : List ℕ) {i n : ℕ} (h : i < n) :
    (marks stops n)[i]? = some (decide (i + 1 ∈ stops)) := by
  simp [marks, h]

theorem marks_add (stops : List ℕ) (n k : ℕ) :
    marks stops (n + k)
      = marks stops n ++ (List.range' n k).map fun i => decide (i + 1 ∈ stops) := by
  rw [marks, List.range_eq_range', List.range'_append_1.symm, List.map_append, Nat.zero_add,
    ← List.range_eq_range']
  rfl

/-- Outputs past every end are not marked. -/
theorem marks_output {stops : List ℕ} {n : ℕ} (h : ∀ x ∈ stops, x ≤ n) (k : ℕ) :
    marks stops (n + k) = marks stops n ++ List.replicate k false := by
  rw [marks_add]
  congr 1
  refine List.eq_replicate_iff.mpr ⟨by simp, fun b hb => ?_⟩
  obtain ⟨i, hi, rfl⟩ := List.mem_map.mp hb
  rw [List.mem_range'_1] at hi
  refine decide_eq_false fun hmem => ?_
  have := h _ hmem
  omega

/-- A new end marks the last of its outputs. -/
theorem marks_record {stops : List ℕ} {n : ℕ} (h : ∀ x ∈ stops, x ≤ n) {c : ℕ} (hc : 0 < c) :
    marks (stops ++ [n + c]) (n + c) =
      marks stops n ++ (List.replicate (c - 1) false ++ [true]) := by
  refine List.ext_getElem (by simp; omega) fun i hi hi' => ?_
  rw [List.getElem_append]
  simp only [marks, List.getElem_map, List.getElem_range, List.mem_append, List.mem_singleton,
    List.length_map, List.length_range]
  split_ifs with hlt
  · exact decide_eq_decide.mpr (or_iff_left (by omega))
  · have hnot : i + 1 ∉ stops := fun hmem => by have := h _ hmem; omega
    have hi : i < n + c := by simpa using hi
    rw [List.getElem_append]
    simp only [hnot, false_or, List.length_replicate]
    split_ifs with hlt'
    · simp
      omega
    · simp
      omega

end DraftOpd
