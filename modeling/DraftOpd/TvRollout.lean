import DraftOpd.VerifyRun
import DraftOpd.TvPlan

/-!
# TV blocks of a rollout

The trainer rebuilds the speculative blocks of a rollout from its reject indices and its
rejected drafts. `trainSample` is the sample it makes of a delivered response.

A verify step after the first gives the block at its current token, with every offset of the
block : its accepted offsets come from the segment between two reject indices, the others
from its rejected drafts. The first boundary is the one before the response, so the first
segment is anchored at the last prompt token, and the current token of the first step only
has a block when the step rejected a draft. `tvBlocks_of_verify_run` is the list of the
blocks of every run.
-/

namespace DraftOpd

variable {B : ℕ}

namespace Rollout

/-! ## What has been delivered -/

theorem Chain.le : ∀ {steps : List (StepRecord B)} {n m : ℕ}, Chain n steps m → n ≤ m
  | [], _, _, h => h.ge
  | r :: steps, n, m, ⟨hstart, hrest⟩ => by
    have := Chain.le hrest
    unfold StepRecord.stop at this
    omega

theorem Chain.append : ∀ {steps steps' : List (StepRecord B)} {n k m : ℕ}, Chain n steps k →
    Chain k steps' m → Chain n (steps ++ steps') m
  | [], _, _, _, _, h, h' => h ▸ h'
  | _ :: _, _, _, _, _, ⟨hstart, hrest⟩, h' => ⟨hstart, hrest.append h'⟩

/-- The steps of a chain lie between its ends. -/
theorem Chain.mem_range : ∀ {steps : List (StepRecord B)} {n m : ℕ}, Chain n steps m →
    ∀ r ∈ steps, n ≤ r.start ∧ r.stop ≤ m
  | r :: steps, n, m, ⟨hstart, hrest⟩, r', hr' => by
    have hle := hrest.le
    rcases List.mem_cons.mp hr' with rfl | hr'
    · exact ⟨hstart.ge, hle⟩
    · have := hrest.mem_range r' hr'
      unfold StepRecord.stop at this ⊢
      omega

/-- Steps of a chain that commit tokens start at different places. -/
theorem Chain.start_inj : ∀ {steps : List (StepRecord B)} {n m : ℕ}, Chain n steps m →
    (∀ r ∈ steps, 0 < r.committed) → ∀ r ∈ steps, ∀ r' ∈ steps, r.start = r'.start → r = r'
  | r₁ :: steps, n, m, ⟨hstart, hrest⟩, hpos, r, hr, r', hr', heq => by
    have hlt : ∀ q ∈ steps, r₁.start < q.start := fun q hq => by
      have := (hrest.mem_range q hq).1
      have := hpos r₁ List.mem_cons_self
      unfold StepRecord.stop at *
      omega
    rcases List.mem_cons.mp hr with hr | hr <;> rcases List.mem_cons.mp hr' with hr' | hr'
    · rw [hr, hr']
    · rw [hr] at heq
      exact absurd heq (hlt r' hr').ne
    · rw [hr'] at heq
      exact absurd heq (hlt r hr).ne'
    · exact hrest.start_inj (fun q hq => hpos q (List.mem_cons_of_mem _ hq)) r hr r' hr' heq

/-- The ends of the steps increase up to the end of the chain. -/
theorem Chain.pairwise_stop : ∀ {steps : List (StepRecord B)} {n m : ℕ}, Chain n steps m →
    (∀ r ∈ steps, 0 < r.committed) →
    (steps.map fun r => (r.stop : ℤ) - 1).Pairwise (· < ·)
  | [], _, _, _, _ => .nil
  | r :: steps, n, m, ⟨hstart, hrest⟩, hpos => by
    have hpos' := fun q hq => hpos q (List.mem_cons_of_mem _ hq)
    refine List.pairwise_cons.mpr ⟨fun i hi => ?_, hrest.pairwise_stop hpos'⟩
    obtain ⟨q, hq, rfl⟩ := List.mem_map.mp hi
    have hle := (hrest.mem_range q hq).1
    have hq' := hpos' q hq
    simp only [StepRecord.stop] at hle ⊢
    omega

theorem Chain.getLastD_stop : ∀ {steps : List (StepRecord B)} {n m : ℕ}, Chain n steps m →
    (steps.map fun r => (r.stop : ℤ) - 1).getLastD ((n : ℤ) - 1) = (m : ℤ) - 1
  | [], _, _, h => by rw [show _ = _ from h]; rfl
  | r :: steps, n, m, ⟨_, hrest⟩ => by
    rw [List.map_cons, List.getLastD_cons]
    exact hrest.getLastD_stop

/-- Between two ends lies a step. -/
theorem Chain.pairs_stop : ∀ {steps : List (StepRecord B)} {n m : ℕ}, Chain n steps m →
    pairs ((n : ℤ) - 1) (steps.map fun r => (r.stop : ℤ) - 1) =
      steps.map fun r => ((r.start : ℤ) - 1, (r.stop : ℤ) - 1)
  | [], _, _, _ => rfl
  | r :: steps, n, m, ⟨hstart, hrest⟩ => by
    rw [List.map_cons, List.map_cons, pairs_cons, hrest.pairs_stop, hstart]

/-- The steps that were sent cover the delivered response, those that were not come after
it. -/
def Delivers (s : Rollout B) : Prop :=
  ∃ rest n, s.log = s.sent ++ rest ∧ Chain 1 s.sent n ∧ Chain n rest s.response.length ∧
    (s.sent ≠ [] → s.client.outputIds.length = n)

/-- The stream sends everything or nothing. -/
theorem Tracks.stream_sent {s s' : Rollout B} (h : s.Tracks) {due : Bool}
    (hship : s.Emits due → s.MaskShippable) (hs : s.stream due = .ok s') :
    s'.sent = s.log ∧ s'.client.outputIds.length = s.response.length ∨
      s'.sent = s.sent ∧ s'.client = s.client := by
  by_cases he : s.Emits due
  · obtain ⟨client', hstream, hem⟩ := stream_of_emits he
    obtain rfl := Except.ok.inj (hstream.symm.trans hs)
    refine Or.inl ⟨rfl, ?_⟩
    have hclient := (h.emission hem (hship he)).client_eq
    have hoff : s.req.afterEmission.sendTokenOffset = s.response.length :=
      congrArg List.length (through_markFinishedOutput s.req)
    simp only [(streamed_afterEmission s client').response_eq, hoff, List.take_length] at hclient
    rw [hclient]
  · obtain rfl := Except.ok.inj ((stream_of_not_emits he).symm.trans hs)
    exact Or.inr ⟨rfl, rfl⟩

/-- A verify step keeps what was delivered in place. -/
theorem Delivers.verify_step {s s' : Rollout B} (hd : s.Delivers) (h : s.Tracks) (hin : s.InBatch)
    (row : VerifyRow B) (due : Bool) (hs : s.verify row due = .ok s') : s'.Delivers := by
  obtain ⟨out, -, -, hverify, htracks, hship, hlg⟩ := h.verified hin row
  rw [hverify due] at hs
  obtain ⟨s₁, hs₁, -, -, hstr⟩ := htracks.stream fun _ : Emits _ due => hship
  obtain rfl := Except.ok.inj (hs₁.symm.trans hs)
  obtain ⟨rest, n, hlog, hsent, hrest, hclient⟩ := hd
  have hresp := h.response_eq hin.unfinished
  have hlen : s₁.response.length = s.response.length + out.commitLen := by
    rw [hstr.response_eq]
    exact hlg.length_eq
  have hrest' : Chain n (rest ++ [⟨s.req.outputIds.length, out.commitLen, row⟩])
      s₁.response.length := by
    rw [hlen, hresp]
    rw [hresp] at hrest
    exact hrest.append ⟨rfl, rfl⟩
  have hlog' : s₁.log = s.sent ++ (rest ++ [⟨s.req.outputIds.length, out.commitLen, row⟩]) := by
    rw [hstr.log_eq, ← List.append_assoc, ← hlog]
    rfl
  rcases htracks.stream_sent (fun _ => hship) hs₁ with ⟨hsent₁, hclient₁⟩ | ⟨hsent₁, hclient₁⟩
  · have hall : s₁.sent = s₁.log := hsent₁.trans hstr.log_eq.symm
    refine ⟨[], _, by rw [hall, List.append_nil], ?_, rfl, fun _ => ?_⟩
    · rw [hall, hlog']
      exact hsent.append hrest'
    · rw [hclient₁, hstr.response_eq]
  · refine ⟨_, n, by rw [hsent₁]; exact hlog', by rw [hsent₁]; exact hsent, hrest', ?_⟩
    rw [hsent₁, hclient₁]
    exact hclient

/-- So do verify steps. -/
theorem Delivers.run_verify : ∀ (rows : List (VerifyRow B × Bool)) {s s' : Rollout B}, s.Tracks →
    s.req.isRetracted = false → s.req.outputIds ≠ [] → s.Delivers →
    s.run (rows.map fun x => .verify x.1 x.2) = .ok s' → s'.Delivers
  | [], _, _, _, _, _, hd, hs => by
    obtain rfl := Except.ok.inj hs
    exact hd
  | x :: rows, s, s', h, hret, hne, hd, hs => by
    by_cases hf : s.req.finished = true
    · have hnot : ¬s.InBatch := fun hin => absurd (hin.unfinished.symm.trans hf) (by simp)
      rw [run_verify_of_not_inBatch hnot (x :: rows)] at hs
      obtain rfl := Except.ok.inj hs
      exact hd
    · have hin : s.InBatch := ⟨Bool.eq_false_iff.mpr hf, hret, hne⟩
      obtain ⟨s₁, c, hs₁, h₁, -, hlg⟩ := h.verify_step hin x.1 x.2
      rw [List.map_cons, run, step, hs₁] at hs
      exact Delivers.run_verify rows h₁ (hlg.isRetracted_eq.trans hret) hlg.prefilled
        (hd.verify_step h hin x.1 x.2 hs₁) hs

/-- What a run has delivered. -/
theorem run_delivers {req : Req} (hfresh : req.Fresh) (tokenId : ℤ) (due : Bool)
    (rows : List (VerifyRow B × Bool)) : ∃ s : Rollout B,
    (init req).run (.prefill tokenId due :: rows.map fun x => .verify x.1 x.2) = .ok s ∧
      s.Tracks ∧ s.Settled ∧ (∀ r ∈ s.log, r.row ∈ rows.map Prod.fst) ∧
      (s.sent ≠ [] → s.Delivers) := by
  obtain ⟨s₁, hs₁, h₁, hset₁, hlog₁, hret₁, hlen₁, -⟩ :=
    prefill_step_init (B := B) hfresh tokenId due
  have hne₁ : s₁.req.outputIds ≠ [] := List.ne_nil_of_length_pos (by omega)
  have hsent₁ : s₁.sent = [] := List.eq_nil_iff_forall_not_mem.mpr fun r hr => by
    have hmem := (h₁.sent_stop r hr).1
    rw [hlog₁] at hmem
    exact absurd hmem List.not_mem_nil
  obtain ⟨s, hs, h, hset, steps, hlog, hrow, -⟩ := h₁.run_verify rows hset₁ hret₁ hne₁
  refine ⟨s, by rw [run, hs₁]; exact hs, h, hset, fun r hr => ?_, fun hsent => ?_⟩
  · rw [hlog, hlog₁, List.nil_append] at hr
    have hmem := List.mem_map_of_mem (f := StepRecord.row) hr
    rw [hrow] at hmem
    exact List.mem_of_mem_take hmem
  · by_cases hf : s₁.req.finished = true
    · have hnot : ¬s₁.InBatch := fun hin => absurd (hin.unfinished.symm.trans hf) (by simp)
      rw [← Except.ok.inj ((run_verify_of_not_inBatch hnot rows).symm.trans hs)] at hsent
      exact absurd hsent₁ hsent
    · refine Delivers.run_verify rows h₁ hret₁ hne₁ ⟨[], 1, by rw [hlog₁, hsent₁]; rfl,
        by rw [hsent₁]; rfl, ?_, fun hne => absurd hsent₁ hne⟩ hs
      rw [h₁.response_eq (Bool.eq_false_iff.mpr hf), hlen₁]
      rfl

end Rollout

/-! ## The sample of complete steps -/

/-- The cell of a rejected draft. -/
def RejectedEntry.cell (e : RejectedEntry) : RejectedCell :=
  ⟨e.anchor, e.offset, e.token, e.teacherLogprob, true⟩

/-- The step rejected a draft. -/
def StepRecord.Rejects (r : StepRecord B) : Prop := r.row.acceptLen < B - 1

/-- The metadata of a sample is that of complete verify steps. -/
structure OfSteps (x : Sample) (steps : List (StepRecord B)) : Prop where
  prompt : 1 ≤ x.promptLen
  valid : x.promptLen + x.responseLen ≤ x.validSeqLen
  chain : Rollout.Chain 1 steps x.responseLen
  complete : ∀ r ∈ steps, r.committed = r.row.acceptLen + 1
  rejects : ∀ i, i ∈ x.rejectTokenIndices ↔ ∃ r ∈ steps, i = (r.stop : ℤ) - 1
  even : x.Even
  cells : x.kept false = (steps.flatMap StepRecord.rejected).map RejectedEntry.cell
  token_nonneg : ∀ r ∈ steps, ∀ t ∈ r.row.candidates, 0 ≤ t

namespace OfSteps

variable {x : Sample} {steps : List (StepRecord B)} (h : OfSteps x steps)

include h

theorem stop_eq {r : StepRecord B} (hr : r ∈ steps) : r.stop = r.start + r.row.acceptLen + 1 := by
  rw [StepRecord.stop, h.complete r hr]
  omega

theorem range {r : StepRecord B} (hr : r ∈ steps) : 1 ≤ r.start ∧ r.stop ≤ x.responseLen :=
  h.chain.mem_range r hr

/-- The masked cells are the rejected drafts of the steps. -/
theorem mem_cells_iff (width : ℕ) {cell : RejectedCell} :
    (cell ∈ padRow width .pad (x.kept false) ∧ cell.mask = true) ↔
      ∃ r ∈ steps, ∃ o : ℕ, (r.row.acceptLen + 1 ≤ o ∧ o < B) ∧
        cell = ⟨(r.start : ℤ) - 1, o, r.row.candidates.getD o 0,
          r.row.targetLogprob (o - 1) (r.row.candidates.getD o 0), true⟩ := by
  rw [h.cells]
  constructor
  · rintro ⟨hcell, hmask⟩
    rcases List.mem_append.mp hcell with hcell | hcell
    · obtain ⟨e, he, rfl⟩ := List.mem_map.mp hcell
      obtain ⟨r, hr, he⟩ := List.mem_flatMap.mp he
      unfold StepRecord.rejected at he
      split_ifs at he
      · obtain ⟨o, ho, rfl⟩ := List.mem_map.mp he
        rw [List.mem_range'_1] at ho
        have hle := r.row.acceptLen_le
        exact ⟨r, hr, o, by omega, rfl⟩
      · exact absurd he List.not_mem_nil
    · rw [List.eq_of_mem_replicate hcell] at hmask
      cases hmask
  · rintro ⟨r, hr, o, ho, rfl⟩
    refine ⟨List.mem_append_left _ (List.mem_map.mpr ⟨⟨(r.start : ℤ) - 1, o, _, _⟩, ?_, rfl⟩), rfl⟩
    refine List.mem_flatMap.mpr ⟨r, hr, ?_⟩
    have hrec : r.row.records r.committed = true := by
      rw [h.complete r hr, VerifyRow.records, decide_eq_true_eq]
      omega
    rw [StepRecord.rejected, if_pos hrec]
    exact List.mem_map.mpr ⟨o, by rw [List.mem_range'_1]; omega, rfl⟩

theorem fullAnchor_eq {r : StepRecord B} (hr : r ∈ steps) :
    x.fullAnchor ((r.start : ℤ) - 1) = x.promptLen + ((r.start : ℤ) - 1) := by
  have := (h.range hr).1
  exact x.fullAnchor_eq (by omega)

/-- A rejected draft passes its checks. -/
theorem cellOk {width : ℕ} {cell : RejectedCell} (hcell : cell ∈ padRow width .pad (x.kept false))
    (hmask : cell.mask = true) : x.CellOk B cell := by
  obtain ⟨r, hr, o, ho, rfl⟩ := (h.mem_cells_iff width).mp ⟨hcell, hmask⟩
  have hrange := h.range hr
  have hstop := h.stop_eq hr
  have hfull := h.fullAnchor_eq hr
  have hvalid := h.valid
  refine ⟨?_, ?_, ?_, ?_, ?_⟩
  · dsimp only
    omega
  · dsimp only
    omega
  · dsimp only
    omega
  · dsimp only
    omega
  · dsimp only
    refine h.token_nonneg r hr _ ?_
    exact getD_mem (by rw [r.row.length_candidates]; omega) 0

theorem eq_of_anchor_eq {r r' : StepRecord B} (hr : r ∈ steps) (hr' : r' ∈ steps)
    (heq : (x.promptLen : ℤ) + ((r.start : ℤ) - 1) = x.promptLen + ((r'.start : ℤ) - 1)) :
    r = r' :=
  h.chain.start_inj (fun q hq => by rw [h.complete q hq]; omega) r hr r' hr' (by omega)

/-- The index of the rejected drafts is built. -/
theorem exists_index (batchIdx width : ℕ) : ∃ index,
    (padRow width .pad (x.kept false)).foldlM (x.indexCell batchIdx B) .empty = .ok index ∧
      x.Indexed index (padRow width .pad (x.kept false)) := by
  refine Sample.indexCells_ok x.indexed_empty (fun cell hcell hmask => h.cellOk hcell hmask) ?_
  intro c hc c' hc' hm hm' hanchor hoffset
  obtain ⟨r, hr, o, ho, rfl⟩ := (h.mem_cells_iff width).mp ⟨hc, hm⟩
  obtain ⟨r', hr', o', ho', rfl⟩ := (h.mem_cells_iff width).mp ⟨hc', hm'⟩
  dsimp only at hanchor hoffset ⊢
  rw [h.fullAnchor_eq hr, h.fullAnchor_eq hr'] at hanchor
  rw [h.eq_of_anchor_eq hr hr' hanchor, Int.ofNat.inj hoffset]

section Index

variable {width : ℕ} {index : RejectedIndex}
  (hindex : x.Indexed index (padRow width .pad (x.kept false)))

include hindex

/-- An anchor of the index is that of a step with a rejected draft. -/
theorem of_get?_index {a : ℤ} {byOffset : Dict ℤ ℤ} (hget : index.get? a = some byOffset) :
    ∃ r ∈ steps, r.Rejects ∧ a = x.promptLen + ((r.start : ℤ) - 1) ∧
      sortedOffsets byOffset = intRange (r.row.acceptLen + 1) B := by
  have hstep : ∀ o ∈ byOffset.keys, ∃ r ∈ steps, a = x.promptLen + ((r.start : ℤ) - 1) ∧
      (r.row.acceptLen : ℤ) + 1 ≤ o ∧ o < B := by
    intro o ho
    obtain ⟨t, ht⟩ := Option.ne_none_iff_exists'.mp (Dict.mem_keys_iff.mp ho)
    have hlook : Sample.lookup index a o = some t := by
      rw [Sample.lookup, hget, Option.bind_some, ht]
    obtain ⟨cell, hcell, hmask, hanchor, hoffset, -⟩ := hindex.stored a o t hlook
    obtain ⟨r, hr, o', ho', rfl⟩ := (h.mem_cells_iff width).mp ⟨hcell, hmask⟩
    dsimp only at hanchor hoffset
    exact ⟨r, hr, by rw [← hanchor, h.fullAnchor_eq hr], by omega, by omega⟩
  obtain ⟨o, ho⟩ := List.exists_mem_of_ne_nil _ (hindex.nonempty a byOffset hget)
  obtain ⟨r, hr, rfl, hlo, hhi⟩ := hstep o ho
  refine ⟨r, hr, by unfold StepRecord.Rejects; omega, rfl, ?_⟩
  refine sortedSet_eq (pairwise_intRange _ _) fun o' => ?_
  rw [mem_intRange]
  constructor
  · intro ho'
    obtain ⟨r', hr', heq, hlo', hhi'⟩ := hstep o' ho'
    rw [h.eq_of_anchor_eq hr hr' heq]
    exact ⟨hlo', hhi'⟩
  · intro ho'
    have hmem := (h.mem_cells_iff width).mpr
      ⟨r, hr, o'.toNat, by omega, rfl⟩
    have hfound := hindex.found _ hmem.1 hmem.2
    dsimp only at hfound
    rw [h.fullAnchor_eq hr, Int.toNat_of_nonneg (by omega), Sample.lookup, hget] at hfound
    exact Dict.mem_keys_iff.mpr hfound

theorem get?_index_of_rejects {r : StepRecord B} (hr : r ∈ steps) (hrej : r.Rejects) :
    ∃ byOffset, index.get? (x.promptLen + ((r.start : ℤ) - 1)) = some byOffset ∧
      sortedOffsets byOffset = intRange (r.row.acceptLen + 1) B := by
  unfold StepRecord.Rejects at hrej
  have hmem := (h.mem_cells_iff width).mpr
    ⟨r, hr, r.row.acceptLen + 1, by omega, rfl⟩
  have hfound := hindex.found _ hmem.1 hmem.2
  dsimp only at hfound
  rw [h.fullAnchor_eq hr] at hfound
  cases hget : index.get? (x.promptLen + ((r.start : ℤ) - 1)) with
  | none =>
    rw [Sample.lookup, hget] at hfound
    exact absurd rfl hfound
  | some byOffset =>
    obtain ⟨r', hr', -, heq, hsorted⟩ := h.of_get?_index hindex hget
    rw [← h.eq_of_anchor_eq hr hr' heq] at hsorted
    exact ⟨byOffset, rfl, hsorted⟩

theorem get?_index_of_accepts {r : StepRecord B} (hr : r ∈ steps) (hacc : ¬r.Rejects) :
    index.get? (x.promptLen + ((r.start : ℤ) - 1)) = none := by
  cases hget : index.get? (x.promptLen + ((r.start : ℤ) - 1)) with
  | none => rfl
  | some byOffset =>
    obtain ⟨r', hr', hrej, heq, -⟩ := h.of_get?_index hindex hget
    rw [← h.eq_of_anchor_eq hr hr' heq] at hrej
    exact absurd hrej hacc

/-- No rejected draft is anchored before the response. -/
theorem get?_index_before : index.get? (x.promptLen + -1) = none := by
  cases hget : index.get? (x.promptLen + -1) with
  | none => rfl
  | some byOffset =>
    obtain ⟨r, hr, -, heq, -⟩ := h.of_get?_index hindex hget
    have := (h.range hr).1
    omega

end Index

/-! ## The blocks of the steps -/

theorem committed_pos {r : StepRecord B} (hr : r ∈ steps) : 0 < r.committed := by
  rw [h.complete r hr]
  omega

theorem rejects_eq : x.rejects x.rejectTokenIndices = steps.map fun r => (r.stop : ℤ) - 1 := by
  refine sortedSet_eq (h.chain.pairwise_stop fun r hr => h.committed_pos hr) fun i => ?_
  simp only [List.mem_filter, decide_eq_true_eq, h.rejects, List.mem_map]
  constructor
  · rintro ⟨⟨r, hr, rfl⟩, -⟩
    exact ⟨r, hr, rfl⟩
  · rintro ⟨r, hr, rfl⟩
    have := h.range hr
    have := h.stop_eq hr
    exact ⟨⟨r, hr, rfl⟩, by omega⟩

omit h in
/-- The boundaries of the response are the ends of the steps. -/
theorem pairs_boundaries {r₁ : StepRecord B} {rs : List (StepRecord B)}
    (h : OfSteps x (r₁ :: rs)) :
    pairs (-1) (x.boundaries x.rejectTokenIndices) =
      (-1, (r₁.stop : ℤ) - 1) :: rs.map fun r => ((r.start : ℤ) - 1, (r.stop : ℤ) - 1) := by
  have hlast : ((r₁ :: rs).map fun r => (r.stop : ℤ) - 1).getLastD (-1) =
      (x.responseLen : ℤ) - 1 := by
    rw [List.map_cons, List.getLastD_cons]
    exact h.chain.2.getLastD_stop
  unfold Sample.boundaries
  simp only [h.rejects_eq]
  rw [if_neg (by simp), if_neg (by omega), List.map_cons, pairs_cons, h.chain.2.pairs_stop]

end OfSteps

/-- The block of a verify step : its anchor and every offset of the block. -/
def StepRecord.block (r : StepRecord B) (promptLen : ℕ) : ℤ × List ℤ :=
  (promptLen + ((r.start : ℤ) - 1), intRange 1 B)

/-- The anchor and the offsets of a block. -/
def TvBlock.shape (block : TvBlock) : ℤ × List ℤ :=
  (block.fullAnchor, block.positions.map TvPosition.offset)

/-- The anchor and the offsets an anchor of the plan gives. -/
def AnchorBlock.shape (index : RejectedIndex) (block : AnchorBlock) : ℤ × List ℤ :=
  (block.anchor, selectedOffsets (index.get? block.anchor) block.segmentLen false)

theorem shape_tvBlock (index : RejectedIndex) (draftBlockSize batchIdx blockIdx : ℕ)
    (block : AnchorBlock) :
    (tvBlock index draftBlockSize batchIdx blockIdx false block.cell).shape =
      block.shape index := by
  simp [TvBlock.shape, tvBlock, AnchorBlock.shape, AnchorBlock.cell, Function.comp_def]

/-- The blocks of a row of the plan whose anchors all have an offset. -/
theorem map_shape_tvBlocks {index : RejectedIndex} (draftBlockSize batchIdx planWidth : ℕ)
    {blocks : List AnchorBlock} (h : ∀ block ∈ blocks, (block.shape index).2 ≠ []) :
    (tvBlocks index draftBlockSize batchIdx false
      (padRow planWidth .pad (blocks.map AnchorBlock.cell))).map TvBlock.shape =
        blocks.map (AnchorBlock.shape index) := by
  have hall : ∀ b ∈ (blocks.map AnchorBlock.cell).zipIdx.map fun x =>
      tvBlock index draftBlockSize batchIdx x.2 false x.1, b.hasPosition = true := by
    intro b hb
    obtain ⟨x, hx, rfl⟩ := List.mem_map.mp hb
    obtain ⟨block, hmem, hcell⟩ := List.mem_map.mp (List.fst_mem_of_mem_zipIdx hx)
    have hne := h block hmem
    rw [← shape_tvBlock index draftBlockSize batchIdx x.2, hcell] at hne
    simpa [TvBlock.hasPosition, TvBlock.shape] using hne
  rw [tvBlocks, zipIdx_padRow, List.filter_eq_self.mpr hall, List.zipIdx_map, List.map_map,
    List.map_map]
  refine List.ext_getElem (by simp) fun i hi₁ hi₂ => ?_
  simp only [List.getElem_map, List.getElem_zipIdx, Function.comp_apply, Prod.map_apply, id]
  exact shape_tvBlock ..

theorem blockOk_tvBlock_iff {s : Sample} {index : RejectedIndex}
    {draftBlockSize batchIdx blockIdx : ℕ} {block : AnchorBlock} :
    s.BlockOk (tvBlock index draftBlockSize batchIdx blockIdx false block.cell) ↔
      ∀ o ∈ (block.shape index).2, isLaterReject (index.get? (block.shape index).1) o = false →
        (block.shape index).1 + o - 1 < (s.validSeqLen : ℤ) := by
  simp [Sample.BlockOk, tvBlock, AnchorBlock.shape, AnchorBlock.cell]

namespace OfSteps

variable {x : Sample} {steps : List (StepRecord B)} (h : OfSteps x steps) {width : ℕ}
  {index : RejectedIndex} (hindex : x.Indexed index (padRow width .pad (x.kept false)))

include h hindex

/-- The block of a step has every offset. -/
theorem selectedOffsets_step {r : StepRecord B} (hr : r ∈ steps) {segmentLen : ℤ}
    (hsegment : ¬r.Rejects → segmentLen = (B : ℤ) - 1) :
    selectedOffsets (index.get? (x.promptLen + ((r.start : ℤ) - 1))) segmentLen false =
      intRange 1 B := by
  by_cases hrej : r.Rejects
  · obtain ⟨byOffset, hget, hsorted⟩ := h.get?_index_of_rejects hindex hr hrej
    unfold StepRecord.Rejects at hrej
    simp only [hget, selectedOffsets, hsorted, Bool.false_eq_true, if_false]
    rw [intRange_eq_cons (by omega : (r.row.acceptLen : ℤ) + 1 < B), List.headD_cons,
      ← intRange_eq_cons (by omega), intRange_append (by omega) (by omega)]
  · rw [h.get?_index_of_accepts hindex hr hrej, hsegment hrej, selectedOffsets, sub_add_cancel]

/-- Its positions have a row of the target. -/
theorem row_lt_step {r : StepRecord B} (hr : r ∈ steps) {o : ℤ} (ho : o ∈ intRange 1 B)
    (hlater : isLaterReject (index.get? (x.promptLen + ((r.start : ℤ) - 1))) o = false) :
    (x.promptLen : ℤ) + ((r.start : ℤ) - 1) + o - 1 < (x.validSeqLen : ℤ) := by
  rw [mem_intRange] at ho
  have hrange := h.range hr
  have hstop := h.stop_eq hr
  have hvalid := h.valid
  have hle : o ≤ (r.row.acceptLen : ℤ) + 1 := by
    by_cases hrej : r.Rejects
    · obtain ⟨byOffset, hget, hsorted⟩ := h.get?_index_of_rejects hindex hr hrej
      unfold StepRecord.Rejects at hrej
      by_contra hgt
      have hmem : o ∈ byOffset.keys := by
        rw [← mem_sortedSet]
        change o ∈ sortedOffsets byOffset
        rw [hsorted, mem_intRange]
        omega
      have hhead : (sortedOffsets byOffset).headD 0 = (r.row.acceptLen : ℤ) + 1 := by
        rw [hsorted, intRange_eq_cons (by omega), List.headD_cons]
      simp only [hget, isLaterReject, Option.any_some, hhead, decide_eq_false_iff_not] at hlater
      exact hlater ⟨by omega, hmem⟩
    · unfold StepRecord.Rejects at hrej
      omega
  omega

/-- The offsets of an anchor are contiguous, and the first has a row. -/
theorem checkSuffix_ok (batchIdx : ℕ) {entry : ℤ × Dict ℤ ℤ} (hentry : entry ∈ index.entries) :
    x.checkSuffix batchIdx entry = .ok () := by
  obtain ⟨r, hr, hrej, hanchor, hsorted⟩ := h.of_get?_index hindex (Dict.mem_entries_iff.mp hentry)
  have hrange := h.range hr
  have hstop := h.stop_eq hr
  have hvalid := h.valid
  unfold StepRecord.Rejects at hrej
  have hlt : (r.row.acceptLen : ℤ) + 1 < B := by omega
  have hhead : (intRange (r.row.acceptLen + 1) B).headD 0 = (r.row.acceptLen : ℤ) + 1 := by
    rw [intRange_eq_cons hlt, List.headD_cons]
  have hlast : (intRange (r.row.acceptLen + 1) B).getLastD 0 = (B : ℤ) - 1 := by
    rw [intRange_eq_concat hlt, List.getLastD_concat]
  simp only [Sample.checkSuffix, hsorted, hhead, hlast, sub_add_cancel]
  rw [if_neg (not_not.mpr rfl), if_neg (by omega)]

end OfSteps

/-- The block of the segment up to the end of the first step, anchored before the response. -/
def StepRecord.openingBlock (r : StepRecord B) (promptLen : ℕ) : ℤ × List ℤ :=
  ((promptLen : ℤ) - 1, intRange 1 (min ((r.committed : ℤ) + 1) ((B : ℤ) - 1) + 1))

section Plan

variable {x : Sample} {r₁ : StepRecord B} {rs : List (StepRecord B)}
  (h : OfSteps x (r₁ :: rs)) {seqLen width : ℕ} {blocks : List AnchorBlock}

include h

/-- The blocks of the response are the opening one and those of the later steps. -/
theorem responseBlocks_steps : x.responseBlocks B x.rejectTokenIndices =
    ⟨x.promptLen + -1, min ((r₁.stop : ℤ) - 1 - -1) ((B : ℤ) - 1), x.promptLen + -1⟩ ::
      rs.map fun r => ⟨x.promptLen + ((r.start : ℤ) - 1),
        min ((r.stop : ℤ) - 1 - ((r.start : ℤ) - 1)) ((B : ℤ) - 1),
        x.promptLen + ((r.start : ℤ) - 1)⟩ := by
  rw [Sample.responseBlocks, h.pairs_boundaries, List.map_cons, List.map_map]
  rfl

/-- The rejected drafts add at most the block of the first step. -/
theorem added_steps (hseq : x.promptLen + x.responseLen ≤ seqLen)
    (hblocks : SampleBlocks { draftBlockSize := B } seqLen x (padRow width .pad (x.kept false))
      blocks) : ∃ added, blocks = x.responseBlocks B x.rejectTokenIndices ++ added ∧
      (blocks.map AnchorBlock.anchor).Nodup ∧ added.length ≤ 1 ∧
      (∀ block ∈ added, block.anchor = x.promptLen + ((r₁.start : ℤ) - 1) ∧ r₁.Rejects) ∧
      (r₁.Rejects → added ≠ []) ∧
      ∀ r ∈ r₁ :: rs, r.Rejects →
        (x.promptLen : ℤ) + ((r.start : ℤ) - 1) ∈ blocks.map AnchorBlock.anchor := by
  obtain ⟨response, hfold, hresponse⟩ := hblocks.from_response
  rw [hresponse le_rfl rfl h.prompt hseq] at hfold
  obtain ⟨added, heq, hnodup, hfrom, hcover⟩ := x.addRejectedAnchors_spec seqLen B
    (padRow width .pad (x.kept false)) (x.responseBlocks B x.rejectTokenIndices)
  rw [heq] at hfold
  have hnd := hnodup (x.nodup_responseBlocks B x.rejectTokenIndices)
  have hcovered : ∀ r ∈ r₁ :: rs, r.Rejects → (x.promptLen : ℤ) + ((r.start : ℤ) - 1) ∈
      (x.responseBlocks B x.rejectTokenIndices ++ added).map AnchorBlock.anchor := by
    intro r hr hrej
    have hmem := (h.mem_cells_iff width).mpr ⟨r, hr, r.row.acceptLen + 1,
      by unfold StepRecord.Rejects at hrej; omega, rfl⟩
    have hcell := h.cellOk hmem.1 hmem.2
    have hrange := h.range hr
    have hstop := h.stop_eq hr
    have hfull := h.fullAnchor_eq hr
    rw [← hfull]
    refine hcover _ hmem.1 ⟨hmem.2, ⟨hcell.offset_pos, hcell.offset_lt⟩, hcell.anchor_nonneg, ?_⟩
    dsimp only
    omega
  have hfirst : ∀ block ∈ added, block.anchor = x.promptLen + ((r₁.start : ℤ) - 1) ∧
      r₁.Rejects := by
    intro block hblock
    obtain ⟨-, cell, hcell, hadds, hanchor⟩ := hfrom block hblock
    obtain ⟨r, hr, o, ho, rfl⟩ := (h.mem_cells_iff width).mp ⟨hcell, hadds.1⟩
    rw [h.fullAnchor_eq hr] at hanchor
    rcases List.mem_cons.mp hr with rfl | hrs
    · exact ⟨hanchor.symm, by unfold StepRecord.Rejects; omega⟩
    · -- the anchor of a later step is in the plan already
      have hold : block.anchor ∈
          (x.responseBlocks B x.rejectTokenIndices).map AnchorBlock.anchor := by
        rw [responseBlocks_steps h, List.map_cons, List.map_map, ← hanchor]
        exact List.mem_cons_of_mem _ (List.mem_map.mpr ⟨r, hrs, rfl⟩)
      rw [List.map_append] at hnd
      exact absurd rfl ((List.nodup_append.mp hnd).2.2 _ hold _ (List.mem_map_of_mem hblock))
  refine ⟨added, hfold, by rw [hfold]; exact hnd, ?_, hfirst, fun hrej hnil => ?_,
    by rw [hfold]; exact hcovered⟩
  · rw [List.map_append] at hnd
    have hsame : added.map AnchorBlock.anchor =
        List.replicate added.length (x.promptLen + ((r₁.start : ℤ) - 1)) :=
      List.eq_replicate_iff.mpr ⟨List.length_map _, fun a ha => by
        obtain ⟨block, hblock, rfl⟩ := List.mem_map.mp ha
        exact (hfirst block hblock).1⟩
    have hnd' := (List.nodup_append.mp hnd).2.1
    rw [hsame] at hnd'
    exact List.nodup_replicate.mp hnd'
  · have hmem := hcovered r₁ List.mem_cons_self hrej
    rw [hnil, List.append_nil, responseBlocks_steps h, List.map_cons, List.map_map] at hmem
    have hstart : r₁.start = 1 := h.chain.1
    rcases List.mem_cons.mp hmem with hmem | hmem
    · dsimp only at hmem
      omega
    · obtain ⟨r, hr, heq⟩ := List.mem_map.mp hmem
      have hle := (h.chain.2.mem_range r hr).1
      have hpos := h.committed_pos List.mem_cons_self
      simp only [Function.comp_apply, StepRecord.stop] at heq hle
      omega

/-- The segment of a step that rejected nothing is a whole block. -/
theorem segment_of_accepts {r : StepRecord B} (hr : r ∈ r₁ :: rs) (hacc : ¬r.Rejects) :
    min ((r.stop : ℤ) - 1 - ((r.start : ℤ) - 1)) ((B : ℤ) - 1) = (B : ℤ) - 1 := by
  have hstop := h.stop_eq hr
  unfold StepRecord.Rejects at hacc
  omega

section Index

variable {index : RejectedIndex} (hindex : x.Indexed index (padRow width .pad (x.kept false)))

include hindex

/-- The response gives the opening block and those of the later steps. -/
theorem shape_responseBlocks :
    (x.responseBlocks B x.rejectTokenIndices).map (AnchorBlock.shape index) =
      r₁.openingBlock x.promptLen :: rs.map fun r => r.block x.promptLen := by
  have hstart : r₁.start = 1 := h.chain.1
  have hstop : (r₁.stop : ℤ) - 1 - -1 = (r₁.committed : ℤ) + 1 := by
    unfold StepRecord.stop
    omega
  rw [responseBlocks_steps h, List.map_cons, List.map_map]
  refine congrArg₂ List.cons ?_ (List.map_congr_left fun r hr => ?_)
  · rw [AnchorBlock.shape, h.get?_index_before hindex, hstop]
    rfl
  · have hr' := List.mem_cons_of_mem r₁ hr
    rw [StepRecord.block, ← h.selectedOffsets_step hindex hr' (segment_of_accepts h hr')]
    rfl

theorem shape_added {block : AnchorBlock}
    (hanchor : block.anchor = x.promptLen + ((r₁.start : ℤ) - 1)) (hrej : r₁.Rejects) :
    block.shape index = r₁.block x.promptLen := by
  rw [AnchorBlock.shape, hanchor, h.selectedOffsets_step hindex List.mem_cons_self
    fun hacc => absurd hrej hacc]
  rfl

/-- The positions of the blocks have a row of the target. -/
theorem row_lt_shape {shape : ℤ × List ℤ} (hshape : shape = r₁.openingBlock x.promptLen ∨
      ∃ r ∈ r₁ :: rs, shape = r.block x.promptLen) {o : ℤ} (ho : o ∈ shape.2)
    (hlater : isLaterReject (index.get? shape.1) o = false) :
    shape.1 + o - 1 < (x.validSeqLen : ℤ) := by
  rcases hshape with rfl | ⟨r, hr, rfl⟩
  · have hrange := h.range List.mem_cons_self
    have hvalid := h.valid
    simp only [StepRecord.openingBlock, mem_intRange] at ho ⊢
    simp only [StepRecord.stop] at hrange
    omega
  · exact h.row_lt_step hindex hr ho hlater

end Index

/-- Every block has an offset. -/
theorem shape_ne_nil (hB : 2 ≤ B) {shape : ℤ × List ℤ}
    (hshape : shape = r₁.openingBlock x.promptLen ∨
      ∃ r ∈ r₁ :: rs, shape = r.block x.promptLen) : shape.2 ≠ [] := by
  have hpos := h.committed_pos List.mem_cons_self
  have hmem : (1 : ℤ) ∈ shape.2 := by
    rcases hshape with rfl | ⟨r, -, rfl⟩
    · exact mem_intRange.mpr (by omega)
    · exact mem_intRange.mpr (by omega)
  exact List.ne_nil_of_mem hmem

/-- The checks of the plan pass, and its blocks are the opening one, those of the later steps,
and that of the first step if it rejected a draft. -/
theorem tvBlocks_steps (hB : 2 ≤ B) (hseq : x.promptLen + x.responseLen ≤ seqLen)
    (hblocks : SampleBlocks { draftBlockSize := B } seqLen x (padRow width .pad (x.kept false))
      blocks) (planWidth batchIdx : ℕ) : ∃ index tail,
      x.PlanOk B batchIdx false (padRow planWidth .pad (blocks.map AnchorBlock.cell))
        (padRow width .pad (x.kept false)) index ∧
      (tvBlocks index B batchIdx false
          (padRow planWidth .pad (blocks.map AnchorBlock.cell))).map TvBlock.shape =
        r₁.openingBlock x.promptLen :: (rs.map fun r => r.block x.promptLen) ++ tail ∧
      tail.Sublist [r₁.block x.promptLen] ∧ (r₁.Rejects → tail = [r₁.block x.promptLen]) := by
  obtain ⟨index, hfold, hindex⟩ := h.exists_index batchIdx width
  obtain ⟨added, heq, hnodup, hlen, hadded, hne, hcovered⟩ := added_steps h hseq hblocks
  have htail : added.map (AnchorBlock.shape index) =
      List.replicate added.length (r₁.block x.promptLen) :=
    List.eq_replicate_iff.mpr ⟨List.length_map _, fun y hy => by
      obtain ⟨block, hblock, rfl⟩ := List.mem_map.mp hy
      exact shape_added h hindex (hadded block hblock).1 (hadded block hblock).2⟩
  have hshapes : blocks.map (AnchorBlock.shape index) = r₁.openingBlock x.promptLen ::
      (rs.map fun r => r.block x.promptLen) ++
        List.replicate added.length (r₁.block x.promptLen) := by
    rw [heq, List.map_append, shape_responseBlocks h hindex, htail]
  have hcases : ∀ block ∈ blocks, block.shape index = r₁.openingBlock x.promptLen ∨
      ∃ r ∈ r₁ :: rs, block.shape index = r.block x.promptLen := by
    intro block hblock
    have hmem := List.mem_map_of_mem (f := AnchorBlock.shape index) hblock
    rw [hshapes, List.cons_append, List.mem_cons, List.mem_append] at hmem
    rcases hmem with hmem | hmem | hmem
    · exact Or.inl hmem
    · obtain ⟨r, hr, hmem⟩ := List.mem_map.mp hmem
      exact Or.inr ⟨r, List.mem_cons_of_mem _ hr, hmem.symm⟩
    · exact Or.inr ⟨r₁, List.mem_cons_self, List.eq_of_mem_replicate hmem⟩
  have htv := map_shape_tvBlocks B batchIdx planWidth fun block hblock =>
    shape_ne_nil h hB (hcases block hblock)
  refine ⟨index, _, ⟨hfold, fun entry hentry => h.checkSuffix_ok hindex batchIdx hentry, ?_, ?_,
    ?_⟩, htv.trans hshapes, (List.replicate_sublist_replicate _).mpr hlen, fun hrej => ?_⟩
  · rw [plannedAnchors_padRow]
    exact hnodup
  · intro y hy
    rw [zipIdx_padRow] at hy
    obtain ⟨block, hblock, hcell⟩ := List.mem_map.mp (List.fst_mem_of_mem_zipIdx hy)
    rw [← hcell, blockOk_tvBlock_iff]
    exact fun o ho hlater => row_lt_shape h hindex (hcases block hblock) ho hlater
  · intro a ha
    obtain ⟨byOffset, hget⟩ := Option.ne_none_iff_exists'.mp (Dict.mem_keys_iff.mp ha)
    obtain ⟨r, hr, hrej, rfl, -⟩ := h.of_get?_index hindex hget
    rw [plannedAnchors_padRow]
    exact hcovered r hr hrej
  · have hone : added.length = 1 := by
      have := List.length_pos_iff.mpr (hne hrej)
      omega
    rw [hone]
    rfl

end Plan

/-! ## The sample of a rollout -/

/-- `dflash_reject_token_indices` (`async_sglang_server.py:594-596`). -/
def rejectTokenIndices (alignedRejectTokenMask : List Bool) : List ℤ :=
  (alignedRejectTokenMask.zipIdx.filter fun x => x.1).map fun x => (x.2 : ℤ)

/-- `cast_fn` of the integer lists, whose values are integers. -/
def Value.asInt : Value → Option ℤ
  | .int i => some i
  | _ => Option.none

/-- `cast_fn` of the log-probabilities. -/
def Value.asFloat : Value → Option LogProb
  | .float v => some v
  | _ => Option.none

/-- What the trainer makes of a delivered response (`async_sglang_server.py:589-629`) : the
prompt it asked for, the response, and their metadata. -/
def Rollout.trainSample (promptIds : List ℤ) (s : Rollout B) : Sample where
  inputIds := promptIds ++ s.client.outputIds
  promptLen := promptIds.length
  responseLen := s.client.outputIds.length
  validSeqLen := promptIds.length + s.client.outputIds.length
  rejectTokenIndices := DraftOpd.rejectTokenIndices (alignDflashRejectTokenMask
    (s.client.customizedInfo.get? .dflashRejectTokenMask) s.client.outputIds.length)
  anchors := (keyList (some s.client.customizedInfo)
    .dflashRejectedDraftAnchorIndices).filterMap Value.asInt
  offsets := (keyList (some s.client.customizedInfo)
    .dflashRejectedDraftOffsets).filterMap Value.asInt
  tokenIds := (keyList (some s.client.customizedInfo)
    .dflashRejectedDraftTokenIds).filterMap Value.asInt
  teacherLogprobs := (keyList (some s.client.customizedInfo)
    .dflashRejectedDraftTeacherLogprobs).filterMap Value.asFloat

theorem mem_rejectTokenIndices_marks {stops : List ℕ} {n : ℕ} {i : ℤ} :
    i ∈ rejectTokenIndices (marks stops n) ↔ ∃ k ∈ stops, 0 < k ∧ k ≤ n ∧ i = (k : ℤ) - 1 := by
  simp only [rejectTokenIndices, List.mem_map, List.mem_filter]
  constructor
  · rintro ⟨⟨b, j⟩, ⟨hmem, hb⟩, rfl⟩
    have hget := List.mem_zipIdx_iff_getElem?.mp hmem
    have hj : j < n := by simpa using (List.getElem?_eq_some_iff.mp hget).1
    dsimp only at hb hget
    rw [getElem?_marks stops hj, hb] at hget
    have hstop := of_decide_eq_true (Option.some.inj hget)
    exact ⟨_, hstop, by omega, by omega, by push_cast; omega⟩
  · rintro ⟨k, hk, hpos, hle, rfl⟩
    refine ⟨(true, k - 1), ⟨List.mem_zipIdx_iff_getElem?.mpr ?_, rfl⟩, by dsimp only; omega⟩
    rw [getElem?_marks stops (by omega)]
    simpa [Nat.sub_add_cancel hpos] using hk

/-- The values of a delivered list are those of the entries that were sent. -/
theorem Rollout.Tracks.delivered_values {α : Type*} {s : Rollout B} (h : s.Tracks)
    (key : InfoKey) (hkey : key ∈ rejectedKeys) {cast : Value → Option α} {f : RejectedEntry → α}
    (hf : ∀ e : RejectedEntry, cast (e.value key) = some (f e)) :
    (keyList (some s.client.customizedInfo) key).filterMap cast =
      (s.sent.flatMap StepRecord.rejected).map f := by
  have hcast : (cast ∘ fun e : RejectedEntry => e.value key) = some ∘ f := funext hf
  rw [h.delivered_lists hkey, List.filterMap_map, hcast, List.filterMap_eq_map]

/-- The sample of a delivered response is that of the steps that were sent. -/
theorem ofSteps_trainSample {s : Rollout B} (h : s.Tracks) (hd : s.Delivers) (hsent : s.sent ≠ [])
    (hcomplete : ∀ r ∈ s.sent, r.committed = r.row.acceptLen + 1)
    (htokens : ∀ r ∈ s.sent, ∀ t ∈ r.row.candidates, 0 ≤ t) {promptIds : List ℤ}
    (hprompt : promptIds ≠ []) : OfSteps (s.trainSample promptIds) s.sent := by
  obtain ⟨rest, n, hlog, hchain, hrest, hclient⟩ := hd
  have hclient := hclient hsent
  have hanchors := h.delivered_values .dflashRejectedDraftAnchorIndices
    (by simp [rejectedKeys]) (fun e => (rfl : (e.value _).asInt = some e.anchor))
  have hoffsets := h.delivered_values .dflashRejectedDraftOffsets
    (by simp [rejectedKeys]) (fun e => (rfl : (e.value _).asInt = some (e.offset : ℤ)))
  have htokenIds := h.delivered_values .dflashRejectedDraftTokenIds
    (by simp [rejectedKeys]) (fun e => (rfl : (e.value _).asInt = some e.token))
  have hlogprobs := h.delivered_values .dflashRejectedDraftTeacherLogprobs
    (by simp [rejectedKeys]) (fun e => (rfl : (e.value _).asFloat = some e.teacherLogprob))
  refine ⟨List.length_pos_iff.mpr hprompt, le_rfl, ?_, hcomplete, fun i => ?_, ?_, ?_, htokens⟩
  · rw [← hclient] at hchain
    exact hchain
  · simp only [Rollout.trainSample, h.aligned_mask, mem_rejectTokenIndices_marks, List.mem_map]
    constructor
    · rintro ⟨k, ⟨r, hr, rfl⟩, -, hle, rfl⟩
      rw [hlog, List.mem_append] at hr
      rcases hr with hr | hr
      · exact ⟨r, hr, rfl⟩
      · -- a step that was not sent ends after the delivered response
        have hstart := (hrest.mem_range r hr).1
        have hpos := (h.steps r (hlog ▸ List.mem_append_right _ hr)).pos
        unfold StepRecord.stop at hle
        omega
    · rintro ⟨r, hr, rfl⟩
      have hin := h.steps r (h.sent_stop r hr).1
      have hpos := hin.pos
      have hstop := (hchain.mem_range r hr).2
      refine ⟨r.stop, ⟨r, hlog ▸ List.mem_append_left _ hr, rfl⟩, ?_, by omega, rfl⟩
      unfold StepRecord.stop
      omega
  · exact ⟨by simp only [Rollout.trainSample, hanchors, hoffsets, List.length_map],
      by simp only [Rollout.trainSample, htokenIds, hoffsets, List.length_map],
      by simp only [Rollout.trainSample, htokenIds, hlogprobs, List.length_map]⟩
  · simp only [Rollout.trainSample, Sample.kept, hanchors, hoffsets, htokenIds, hlogprobs,
      Bool.false_eq_true, if_false]
    rw [rejectedCells, List.zip_map', List.zip_map', List.zip_map', List.map_map]
    rfl

/-- The plan of a micro-batch of one sample of steps. -/
theorem tvPlan_steps {x : Sample} {r₁ : StepRecord B} {rs : List (StepRecord B)}
    (h : OfSteps x (r₁ :: rs)) (hB : 2 ≤ B) {seqLen : ℕ}
    (hseq : x.promptLen + x.responseLen ≤ seqLen) (rng : SeededRandom) : ∃ blocks tail,
      (⟨[x], seqLen⟩ : MicroBatch).tvPlan rng B false = .ok (flattenBlocks blocks) ∧
      blocks.map TvBlock.shape =
        r₁.openingBlock x.promptLen :: (rs.map fun r => r.block x.promptLen) ++ tail ∧
      tail.Sublist [r₁.block x.promptLen] ∧ (r₁.Rejects → tail = [r₁.block x.promptLen]) := by
  have heven : ∀ s ∈ (⟨[x], seqLen⟩ : MicroBatch).samples, s.Even := by
    simpa using h.even
  obtain ⟨width, planWidth, blocks, hplan, hblocks⟩ := MicroBatch.tvPlan_eq rng B false heven
  obtain ⟨index, tail, hok, hshapes, htail, hrejects⟩ := tvBlocks_steps h hB hseq
    (hblocks 0 Nat.one_pos) planWidth 0
  refine ⟨_, tail, ?_, hshapes, htail, hrejects⟩
  rw [hplan, buildTvPositionPlan, buildTvBlocks_ok fun _ => index]
  · refine congrArg (fun tv => Except.ok (flattenBlocks tv)) ?_
    exact List.append_nil _
  · intro i hi
    obtain rfl : i = 0 := Nat.lt_one_iff.mp hi
    exact hok

/-- The TV blocks of a spec-v1 rollout. After any run whose delivered steps are complete, under
any emission schedule, the plan of the delivered response has one block for each step after
the first, at its current token and with every offset, one block before the response with
the offsets up to the end of the first step, and the block of the first step if it rejected a
draft. There is no other block, except perhaps that of the first step. -/
theorem tvBlocks_of_verify_run {req : Req} (hfresh : req.Fresh) (hB : 2 ≤ B)
    (hprompt : req.originInputIds ≠ []) (tokenId : ℤ) (due : Bool)
    (rows : List (VerifyRow B × Bool)) (htokens : ∀ x ∈ rows, ∀ t ∈ x.1.candidates, 0 ≤ t)
    (rng : SeededRandom) : ∃ s : Rollout B,
    (Rollout.init req).run (.prefill tokenId due :: rows.map fun x => .verify x.1 x.2) = .ok s ∧
    (s.req.finished = true → s.sent = s.log) ∧
    ∀ r₁ rs, s.sent = r₁ :: rs → (∀ r ∈ s.sent, r.committed = r.row.acceptLen + 1) →
      Rollout.Chain 1 s.sent s.client.outputIds.length ∧
      ∀ seqLen, req.originInputIds.length + s.client.outputIds.length ≤ seqLen →
        ∃ blocks tail, (⟨[s.trainSample req.originInputIds], seqLen⟩ : MicroBatch).tvPlan rng B
            false = .ok (flattenBlocks blocks) ∧
          blocks.map TvBlock.shape = r₁.openingBlock req.originInputIds.length ::
            (rs.map fun r => r.block req.originInputIds.length) ++ tail ∧
          tail.Sublist [r₁.block req.originInputIds.length] ∧
          (r₁.Rejects → tail = [r₁.block req.originInputIds.length]) := by
  obtain ⟨s, hs, htracks, hset, hrow, hdelivers⟩ := Rollout.run_delivers hfresh tokenId due rows
  refine ⟨s, hs, fun hfin => (htracks.finish.all_sent (hset hfin)).2.1,
    fun r₁ rs hsent hcomplete => ?_⟩
  have hne : s.sent ≠ [] := by
    rw [hsent]
    exact List.cons_ne_nil _ _
  have htok : ∀ r ∈ s.sent, ∀ t ∈ r.row.candidates, 0 ≤ t := by
    intro r hr
    obtain ⟨x, hx, heq⟩ := List.mem_map.mp (hrow r (htracks.sent_stop r hr).1)
    rw [← heq]
    exact htokens x hx
  have hsteps := ofSteps_trainSample htracks (hdelivers hne) hne hcomplete htok hprompt
  refine ⟨hsteps.chain, fun seqLen hseq => ?_⟩
  rw [hsent] at hsteps
  exact tvPlan_steps hsteps hB hseq rng

/-- A row of block size two whose draft is rejected. -/
def rejectedRow : VerifyRow 2 :=
  ⟨[5, 6], [9, 7], fun _ _ => ⊥, Nat.two_pos, Rollout.acceptedRow.length_candidates, rfl⟩

/-- A row of block size two whose draft is accepted. -/
def agreedRow : VerifyRow 2 :=
  ⟨[9, 3], [3, 4], fun _ _ => ⊥, Nat.two_pos, Rollout.acceptedRow.length_candidates, rfl⟩

/-- The run of a request for four tokens : its first step rejects its draft, the second one accepts
and finishes. -/
def twoStepRun : Except RolloutError (Rollout 2) :=
  (Rollout.init (Req.new "r" [1] { maxNewTokens := 4 } none [] 100)).run
    [.prefill 5 true, .verify rejectedRow true, .verify agreedRow true]

theorem twoStepRun_sent {s : Rollout 2} (hs : twoStepRun = .ok s) :
    s.sent = [⟨1, 1, rejectedRow⟩, ⟨2, 2, agreedRow⟩] ∧ s.client.outputIds = [5, 9, 3, 4] := by
  obtain rfl := Except.ok.inj hs
  exact ⟨rfl, rfl⟩

/-- Its blocks are at the last prompt token, at the current token of the second step, and at the
first response token. -/
theorem tvBlocks_twoStepRun : ∃ s, twoStepRun = .ok s ∧ s.client.outputIds = [5, 9, 3, 4] ∧
    ∃ blocks, (⟨[s.trainSample [1]], 5⟩ : MicroBatch).tvPlan
        ⟨fun _ xs => xs, fun _ _ _ _ => []⟩ 2 false = .ok (flattenBlocks blocks) ∧
      blocks.map TvBlock.shape = [(0, [1]), (2, [1]), (1, [1])] := by
  obtain ⟨s, hs, -, hblocks⟩ := tvBlocks_of_verify_run
    (Req.fresh_new "r" [1] { maxNewTokens := 4 } none [] 100) (le_refl 2) (List.cons_ne_nil _ _) 5
    true [(rejectedRow, true), (agreedRow, true)] (by decide)
    ⟨fun _ xs => xs, fun _ _ _ _ => []⟩
  obtain ⟨hsent, hclient⟩ := twoStepRun_sent hs
  have hcomplete : ∀ r ∈ s.sent, r.committed = r.row.acceptLen + 1 := by
    rw [hsent]
    rintro r hr
    rcases List.mem_cons.mp hr with rfl | hr
    · rfl
    · rw [List.mem_singleton.mp hr]
      rfl
  obtain ⟨-, hplan⟩ := hblocks ⟨1, 1, rejectedRow⟩ [⟨2, 2, agreedRow⟩] hsent hcomplete
  obtain ⟨blocks, tail, heq, hshapes, -, htail⟩ := hplan 5 (by rw [hclient]; decide)
  refine ⟨s, hs, hclient, blocks, heq, hshapes.trans ?_⟩
  rw [htail (by unfold StepRecord.Rejects; decide)]
  rfl

/-- The run of a request for two tokens whose only step rejects its draft. -/
def rejectedRun : Except RolloutError (Rollout 2) :=
  (Rollout.init (Req.new "r" [1] { maxNewTokens := 2 } none [] 100)).run
    [.prefill 5 true, .verify rejectedRow true]

theorem rejectedRun_sent {s : Rollout 2} (hs : rejectedRun = .ok s) :
    s.sent = [⟨1, 1, rejectedRow⟩] ∧ s.req.finished = true ∧ s.client.outputIds = [5, 9] := by
  obtain rfl := Except.ok.inj hs
  exact ⟨rfl, rfl, rfl⟩

theorem complete_rejectedRow : ∀ r ∈ [(⟨1, 1, rejectedRow⟩ : StepRecord 2)],
    r.committed = r.row.acceptLen + 1 := by
  intro r hr
  rw [List.mem_singleton.mp hr]
  rfl

/-- The run has one step and the plan two blocks, of which one is at the last prompt token,
where no step starts. -/
theorem not_blocks_of_steps_rejectedRun : ∃ s, rejectedRun = .ok s ∧ s.req.finished = true ∧
    s.sent.length = 1 ∧ (∀ r ∈ s.sent, r.committed = r.row.acceptLen + 1) ∧
    ∃ blocks, (⟨[s.trainSample [1]], 3⟩ : MicroBatch).tvPlan
        ⟨fun _ xs => xs, fun _ _ _ _ => []⟩ 2 false = .ok (flattenBlocks blocks) ∧
      (flattenBlocks blocks).blockCount = 2 ∧
      ¬(blocks.map TvBlock.shape).Perm (s.sent.map fun r => r.block 1) := by
  obtain ⟨s, hs, htracks, -, -, hdelivers⟩ := Rollout.run_delivers
    (Req.fresh_new "r" [1] { maxNewTokens := 2 } none [] 100) 5 true [(rejectedRow, true)]
  obtain ⟨hsent, hfin, hclient⟩ := rejectedRun_sent hs
  have hne : s.sent ≠ [] := by
    rw [hsent]
    exact List.cons_ne_nil _ _
  have hcomplete : ∀ r ∈ s.sent, r.committed = r.row.acceptLen + 1 := by
    rw [hsent]
    exact complete_rejectedRow
  have hsteps := ofSteps_trainSample htracks (hdelivers hne) hne hcomplete
    (by rw [hsent]; decide) (List.cons_ne_nil 1 [])
  have hroom : (s.trainSample [1]).promptLen + (s.trainSample [1]).responseLen ≤ 3 := by
    simp [Rollout.trainSample, hclient]
  rw [hsent] at hsteps
  obtain ⟨blocks, tail, heq, hshapes, -, htail⟩ := tvPlan_steps hsteps (le_refl 2) hroom
    ⟨fun _ xs => xs, fun _ _ _ _ => []⟩
  rw [htail (by unfold StepRecord.Rejects; decide)] at hshapes
  have hlen : blocks.length = 2 := by
    rw [← List.length_map (f := TvBlock.shape), hshapes]
    rfl
  refine ⟨s, hs, hfin, by rw [hsent]; rfl, hcomplete, blocks, heq, hlen,
    fun hperm => ?_⟩
  have hcount := hperm.length_eq
  rw [List.length_map, hlen, hsent] at hcount
  cases hcount

end DraftOpd
