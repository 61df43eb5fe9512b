import DraftOpd.RadixEvict

/-!
# Runs of the radix cache

`RadixState` is the cache with what the callers have done with it : which nodes they hold, which KV
indices they have given it, and which it has given back. `step` is one call of a caller, and `Run`
is any number of calls, in any order, that the callers may make (`Allowed`).

* Every call that is allowed succeeds, and the numbers beside the tree stay right. Each KV index
  that was given to the cache is either in the tree or has been freed. Where the insertions bring
  indices that are not in the tree at that moment (`RadixState.FreshCalls`), freed ones again or
  not, the tree has no index twice, and what is freed leaves it (`RadixState.Run.ok`, `radix_run`).
* As long as a node is held, whatever else is called, it spells the same tokens with the same KV
  indices, and none of these is freed (`radix_run_held`).
-/

namespace DraftOpd

variable {κ ι : Type} {pageSize : ℕ}

/-- The indices a node spells are in the tree. -/
theorem RadixTree.Spells.subset_allValues {tree : RadixTree κ ι} {last : Option ℕ}
    {key : RadixKey κ} {indices : List ι} (h : tree.Spells last key indices) :
    indices ⊆ tree.allValues := by
  obtain ⟨path, hpath, hspelling, -⟩ := h
  obtain ⟨-, rfl⟩ := Prod.mk.inj hspelling
  cases last with
  | none =>
    obtain rfl := Option.some.inj hpath
    exact List.nil_subset _
  | some i =>
    intro index hindex
    obtain ⟨node, hnode, hmem⟩ := List.mem_flatMap.mp hindex
    exact List.mem_flatMap.mpr ⟨node, Forest.mem_nodes_of_path hpath hnode, hmem⟩

/-- The cache and its callers. -/
structure RadixState (κ ι : Type) where
  cache : RadixCache κ ι
  holders : List ℕ
  given : List ι
  freed : List ι

/-- A cache after `reset`. -/
def RadixState.init : RadixState κ ι := ⟨.empty, [], [], []⟩

/-- A call of the cache. -/
inductive RadixOp (κ ι : Type) where
  | matchPrefix (now : ℤ) (key : RadixKey κ)
  | insert (now : ℤ) (key : RadixKey κ) (value : List ι) (priority : ℤ) (chunked : Bool)
  | incLockRef (node : ℕ)
  | decLockRef (node : ℕ)
  | evict (policy : EvictionPolicy) (numTokens : ℕ)

namespace RadixState

/-- A call, `none` where it raises. The indices of an inserted prefix that was cached already are
the caller's to free. -/
def step [DecidableEq κ] (pageSize : ℕ) (s : RadixState κ ι) : RadixOp κ ι → Option (RadixState κ ι)
  | .matchPrefix now key =>
    (matchPrefix pageSize now s.cache key).toOption.map fun r => { s with cache := r.2.2 }
  | .insert now key value priority chunked =>
    (insertHelper pageSize now s.cache key value priority chunked).toOption.map fun r =>
      { s with cache := r.2, given := value.drop r.1 ++ s.given }
  | .incLockRef node =>
    (incLockRef s.cache (some node)).map fun r =>
      { s with cache := r.2, holders := node :: s.holders }
  | .decLockRef node =>
    (decLockRef s.cache (some node)).map fun r =>
      { s with cache := r.2, holders := s.holders.erase node }
  | .evict policy numTokens =>
    let (freed, cache) := evict policy s.cache numTokens
    some { s with cache := cache, freed := freed ++ s.freed }

/-- What a caller may call : it inserts whole pages, with an index for each token, locks a node of
the tree, and releases a node that it holds. -/
def Allowed (pageSize : ℕ) (s : RadixState κ ι) : RadixOp κ ι → Prop
  | .matchPrefix _ _ => True
  | .insert _ key value _ _ => pageSize ∣ key.length ∧ value.length = key.length
  | .incLockRef node => node ∈ s.cache.tree.ids
  | .decLockRef node => node ∈ s.holders
  | .evict _ _ => True

/-- The indices a call brings to the tree : of an inserted prefix, those past what is cached. -/
def newIndices [DecidableEq κ] (pageSize : ℕ) (s : RadixState κ ι) : RadixOp κ ι → List ι
  | .insert now key value priority chunked =>
    match insertHelper pageSize now s.cache key value priority chunked with
    | .ok (n, _) => value.drop n
    | .error _ => []
  | _ => []

/-- Each call brings indices that are not in the tree, as an allocator does that hands out the ones
nobody has. -/
def FreshCalls [DecidableEq κ] (pageSize : ℕ) : RadixState κ ι → List (RadixOp κ ι) → Prop
  | _, [] => True
  | s, op :: ops =>
    (s.newIndices pageSize op).Nodup ∧
      (∀ index ∈ s.newIndices pageSize op, index ∉ s.cache.tree.allValues) ∧
      ∀ s' ∈ s.step pageSize op, FreshCalls pageSize s' ops

instance decidableFreshCalls [DecidableEq κ] [DecidableEq ι] (pageSize : ℕ) :
    ∀ (s : RadixState κ ι) (ops : List (RadixOp κ ι)), Decidable (FreshCalls pageSize s ops)
  | _, [] => .isTrue trivial
  | s, op :: ops =>
    have _ s' := decidableFreshCalls pageSize s' ops
    inferInstanceAs (Decidable ((s.newIndices pageSize op).Nodup ∧
      (∀ index ∈ s.newIndices pageSize op, index ∉ s.cache.tree.allValues) ∧
      ∀ s' ∈ s.step pageSize op, FreshCalls pageSize s' ops))

/-- Calls one after the other. -/
inductive Run [DecidableEq κ] (pageSize : ℕ) :
    RadixState κ ι → List (RadixOp κ ι) → RadixState κ ι → Prop
  | nil (s : RadixState κ ι) : Run pageSize s [] s
  | cons {s s' s'' : RadixState κ ι} {op : RadixOp κ ι} {ops : List (RadixOp κ ι)}
      (hallowed : s.Allowed pageSize op) (hstep : s.step pageSize op = some s')
      (hrun : Run pageSize s' ops s'') : Run pageSize s (op :: ops) s''

/-- The numbers beside the tree are right, and no index is lost. -/
structure Ok (pageSize : ℕ) (s : RadixState κ ι) : Prop where
  treeOk : s.cache.TreeOk pageSize
  locksOk : s.cache.LocksOk s.holders
  given_perm : (s.freed ++ s.cache.tree.allValues).Perm s.given

theorem init_ok : (init : RadixState κ ι).Ok pageSize where
  treeOk := ⟨⟨List.nodup_nil, trivial⟩, List.nodup_nil, by simp [init, RadixCache.empty]⟩
  locksOk :=
    { mem_ids := by simp [init]
      locked := trivial
      evictableSize_eq := rfl
      protectedSize_eq := rfl
      leaves := ⟨List.nodup_nil, fun i _ =>
        iff_of_false List.not_mem_nil (RadixTree.not_freeLeaf (by simp [init, RadixCache.empty]))⟩ }
  given_perm := .refl _

/-- What a call keeps of what the nodes that are held spell. -/
def Keeps (s s' : RadixState κ ι) : Prop :=
  ∀ {node key indices}, node ∈ s'.holders → s.cache.tree.Spells (some node) key indices →
    s'.cache.tree.Spells (some node) key indices

/-- A call brings `new` indices to the tree and frees the ones in `freed`. -/
structure Moves (s s' : RadixState κ ι) (new freed : List ι) : Prop where
  given_eq : s'.given = new ++ s.given
  freed_eq : s'.freed = freed ++ s.freed
  perm : (freed ++ s'.cache.tree.allValues).Perm (new ++ s.cache.tree.allValues)

namespace Moves

variable {s s' : RadixState κ ι} {new freed : List ι}

/-- No index is lost. -/
theorem given_perm (h : Moves s s' new freed)
    (hgiven : (s.freed ++ s.cache.tree.allValues).Perm s.given) :
    (s'.freed ++ s'.cache.tree.allValues).Perm s'.given := by
  rw [h.given_eq, h.freed_eq]
  calc freed ++ s.freed ++ s'.cache.tree.allValues
    _ |>.Perm (s.freed ++ (freed ++ s'.cache.tree.allValues)) := by
      rw [← List.append_assoc]
      exact List.perm_append_comm.append_right _
    _ |>.Perm (s.freed ++ (new ++ s.cache.tree.allValues)) := h.perm.append_left _
    _ |>.Perm (new ++ (s.freed ++ s.cache.tree.allValues)) := by
      rw [← List.append_assoc, ← List.append_assoc]
      exact List.perm_append_comm.append_right _
    _ |>.Perm (new ++ s.given) := hgiven.append_left _

/-- What is freed leaves a tree that has no index twice. -/
theorem nodup (h : Moves s s' new freed) (hnodup : s.cache.tree.allValues.Nodup)
    (hnew : new.Nodup) (hfresh : ∀ index ∈ new, index ∉ s.cache.tree.allValues) :
    s'.cache.tree.allValues.Nodup ∧ freed.Disjoint s'.cache.tree.allValues :=
  (List.nodup_append'.mp
    (h.perm.nodup_iff.mpr (List.nodup_append'.mpr ⟨hnew, hnodup, fun _ h => hfresh _ h⟩))).2

end Moves

variable [DecidableEq κ]

/-- A call that is allowed succeeds. -/
theorem Ok.step (hpos : 0 < pageSize) {s : RadixState κ ι} (h : s.Ok pageSize) (op : RadixOp κ ι)
    (hallowed : s.Allowed pageSize op) :
    ∃ s' freed, s.step pageSize op = some s' ∧ s'.Ok pageSize ∧
      Moves s s' (s.newIndices pageSize op) freed ∧ Keeps s s' := by
  cases op with
  | matchPrefix now key =>
    obtain ⟨indices, last, n, split, tree, nextId, heq, hshape, hnext, -, -⟩ :=
      matchPrefix_reshaped hpos h.treeOk now key
    have hsame := RadixCache.SameContent.of_reshaped h.treeOk hshape hnext
    have hmoves : Moves s { s with cache := { s.cache with tree := tree, nextId := nextId } }
        [] [] := ⟨rfl, rfl, .of_eq hshape.allValues_eq⟩
    exact ⟨_, [], by rw [RadixState.step, heq]; rfl, ⟨hsame.treeOk,
      h.locksOk.reshaped h.treeOk hshape nextId, hmoves.given_perm h.given_perm⟩, hmoves,
      fun _ hspells => hsame.spells hspells⟩
  | insert now key value priority chunked =>
    obtain ⟨n, indices, cache', heq, hinserted⟩ := insertHelper_inserted hpos h.treeOk hallowed.1
      hallowed.2 now priority chunked
    have hmoves : Moves s { s with cache := cache', given := value.drop n ++ s.given }
        (value.drop n) [] :=
      ⟨rfl, rfl, hinserted.allValues_perm h.treeOk hallowed.2⟩
    refine ⟨{ s with cache := cache', given := value.drop n ++ s.given }, [],
      by rw [RadixState.step, heq]; rfl, ⟨hinserted.treeOk h.treeOk,
        h.locksOk.inserted h.treeOk hinserted, hmoves.given_perm h.given_perm⟩, ?_,
      fun _ hspells => hinserted.spells h.treeOk hspells⟩
    rw [newIndices, heq]
    exact hmoves
  | incLockRef node =>
    obtain ⟨delta, cache', heq, hsame, hlocks, -⟩ :=
      RadixCache.incLockRef_spec h.treeOk h.locksOk hallowed
    have hmoves : Moves s { s with cache := cache', holders := node :: s.holders } [] [] :=
      ⟨rfl, rfl, .of_eq hsame.allValues_eq⟩
    exact ⟨_, [], by rw [RadixState.step, heq]; rfl,
      ⟨hsame.treeOk, hlocks, hmoves.given_perm h.given_perm⟩, hmoves,
      fun _ hspells => hsame.spells hspells⟩
  | decLockRef node =>
    obtain ⟨delta, cache', heq, hsame, hlocks, -⟩ :=
      RadixCache.decLockRef_spec h.treeOk h.locksOk (List.perm_cons_erase hallowed)
    have hmoves : Moves s { s with cache := cache', holders := s.holders.erase node } [] [] :=
      ⟨rfl, rfl, .of_eq hsame.allValues_eq⟩
    exact ⟨_, [], by rw [RadixState.step, heq]; rfl,
      ⟨hsame.treeOk, hlocks, hmoves.given_perm h.given_perm⟩, hmoves,
      fun _ hspells => hsame.spells hspells⟩
  | evict policy numTokens =>
    obtain ⟨nodes, cache', heq, hevicts, -⟩ := evictLoop_spec policy numTokens [] h.treeOk h.locksOk
      (.of_locksOk h.locksOk) le_rfl
    have hspec := hevicts.spec h.treeOk h.locksOk
    have hvalues : (nodes.flatMap TreeNode.value ++ cache'.tree.allValues).Perm
        s.cache.tree.allValues := by
      rw [RadixTree.allValues, RadixTree.allValues, ← List.flatMap_append]
      exact (hspec.perm.flatMap_right _).symm
    have hmoves : Moves s
        { s with cache := cache', freed := nodes.flatMap TreeNode.value ++ s.freed } []
        (nodes.flatMap TreeNode.value) := ⟨rfl, rfl, hvalues⟩
    refine ⟨_, _, by rw [RadixState.step, evict, heq]; rfl, ⟨hspec.treeOk, hspec.locksOk,
      hmoves.given_perm h.given_perm⟩, hmoves,
      fun {node key indices} hnode hspells => hspec.spells hspells fun i hi => ?_⟩
    obtain rfl := Option.some.inj hi
    exact hspec.locksOk.mem_ids node hnode

theorem Run.ok (hpos : 0 < pageSize) {s s' : RadixState κ ι} {ops : List (RadixOp κ ι)}
    (hrun : Run pageSize s ops s') (h : s.Ok pageSize) : s'.Ok pageSize := by
  induction hrun with
  | nil => exact h
  | cons hallowed hstep hrun ih =>
    obtain ⟨next, -, heq, hok, -⟩ := h.step hpos _ hallowed
    obtain rfl := Option.some.inj (hstep.symm.trans heq)
    exact ih hok

theorem Run.nodup (hpos : 0 < pageSize) {s s' : RadixState κ ι} {ops : List (RadixOp κ ι)}
    (hrun : Run pageSize s ops s') :
    s.Ok pageSize → s.cache.tree.allValues.Nodup → FreshCalls pageSize s ops →
      s'.cache.tree.allValues.Nodup := by
  induction hrun with
  | nil => exact fun _ hnodup _ => hnodup
  | cons hallowed hstep hrun ih =>
    rintro h hnodup ⟨hnew, hfresh, hrest⟩
    obtain ⟨next, freed, heq, hok, hmoves, -⟩ := h.step hpos _ hallowed
    obtain rfl := Option.some.inj (hstep.symm.trans heq)
    exact ih hok (hmoves.nodup hnodup hnew hfresh).1 (hrest _ hstep)

/-- A holder stays one until it releases. -/
theorem mem_holders_step {s s' : RadixState κ ι} {op : RadixOp κ ι} {node : ℕ}
    (hstep : s.step pageSize op = some s') (hop : op ≠ .decLockRef node) (h : node ∈ s.holders) :
    node ∈ s'.holders := by
  cases op with
  | matchPrefix now key =>
    obtain ⟨r, -, rfl⟩ := Option.map_eq_some_iff.mp hstep
    exact h
  | insert now key value priority chunked =>
    obtain ⟨r, -, rfl⟩ := Option.map_eq_some_iff.mp hstep
    exact h
  | incLockRef other =>
    obtain ⟨r, -, rfl⟩ := Option.map_eq_some_iff.mp hstep
    exact List.mem_cons_of_mem _ h
  | decLockRef other =>
    obtain ⟨r, -, rfl⟩ := Option.map_eq_some_iff.mp hstep
    have hne : node ≠ other := fun heq => hop (by rw [heq])
    exact (List.mem_erase_of_ne hne).mpr h
  | evict policy numTokens =>
    obtain rfl := Option.some.inj hstep
    exact h

theorem Run.spells (hpos : 0 < pageSize) {s s' : RadixState κ ι} {ops : List (RadixOp κ ι)}
    {node : ℕ} {key : RadixKey κ} {indices : List ι} (hrun : Run pageSize s ops s') :
    s.Ok pageSize → node ∈ s.holders → .decLockRef node ∉ ops →
      s.cache.tree.Spells (some node) key indices →
        s'.cache.tree.Spells (some node) key indices ∧
          (s.cache.tree.allValues.Nodup → FreshCalls pageSize s ops →
            ∃ freed, s'.freed = freed ++ s.freed ∧ indices.Disjoint freed) := by
  induction hrun with
  | nil => exact fun _ _ _ hspells => ⟨hspells, fun _ _ => ⟨[], rfl, List.disjoint_nil_right _⟩⟩
  | cons hallowed hstep hrun ih =>
    intro h hheld hops hspells
    obtain ⟨hop, hops⟩ := not_or.mp (mt List.mem_cons.mpr hops)
    obtain ⟨next, freed, heq, hok, hmoves, hkeeps⟩ := h.step hpos _ hallowed
    obtain rfl := Option.some.inj (hstep.symm.trans heq)
    have hheld' := mem_holders_step hstep (Ne.symm hop) hheld
    have hspells' := hkeeps hheld' hspells
    obtain ⟨hlast, hlater⟩ := ih hok hheld' hops hspells'
    refine ⟨hlast, fun hnodup ⟨hnew, hfresh, hrest⟩ => ?_⟩
    -- what this call frees is no longer in the tree, where the node's indices still are
    obtain ⟨hnodup', hleft⟩ := hmoves.nodup hnodup hnew hfresh
    obtain ⟨freed', hfreed', hdisjoint⟩ := hlater hnodup' (hrest _ hstep)
    refine ⟨freed' ++ freed, by rw [hfreed', hmoves.freed_eq, List.append_assoc], ?_⟩
    exact List.disjoint_append_right.mpr
      ⟨hdisjoint, fun index hindex hmem => hleft hmem (hspells'.subset_allValues hindex)⟩

end RadixState

section Results

variable [DecidableEq κ] {ops : List (RadixOp κ ι)} {s : RadixState κ ι}

/-- After any calls that the callers may make, in any order : the lock counts are those of the
holders, the two sizes are those of the tokens without and with a lock, the evictable leaves are the
leaves without one, and an index that was given is in the tree or has been freed, and not both where
the callers gave different ones. Where they gave the freed ones again, an index is in the tree once,
and an eviction frees what leaves the tree. What the callers may call next succeeds. -/
theorem radix_run (hpos : 0 < pageSize) (hrun : RadixState.Run pageSize .init ops s) :
    s.cache.TreeOk pageSize ∧ s.cache.LocksOk s.holders ∧
      (s.freed ++ s.cache.tree.allValues).Perm s.given ∧
      (s.given.Nodup → s.freed.Disjoint s.cache.tree.allValues) ∧
      (RadixState.FreshCalls pageSize .init ops → s.cache.tree.allValues.Nodup ∧
        ∀ policy numTokens, (evict policy s.cache numTokens).1.Disjoint
          (evict policy s.cache numTokens).2.tree.allValues) ∧
      s.cache.evictableSize + s.cache.protectedSize = s.cache.tree.allValues.length ∧
      ∀ op, s.Allowed pageSize op → ∃ s', s.step pageSize op = some s' := by
  have h := hrun.ok hpos RadixState.init_ok
  refine ⟨h.treeOk, h.locksOk, h.given_perm, fun hnodup => ?_, fun hfresh => ?_,
    h.locksOk.size_eq h.treeOk, fun op hallowed => ?_⟩
  · exact (List.nodup_append'.mp (h.given_perm.nodup_iff.mpr hnodup)).2.2
  · have hnodup := hrun.nodup hpos RadixState.init_ok List.nodup_nil hfresh
    refine ⟨hnodup, fun policy numTokens => ?_⟩
    obtain ⟨s', freed, heq, -, hmoves, -⟩ := h.step hpos (.evict policy numTokens) trivial
    obtain rfl := Option.some.inj heq
    obtain rfl := List.append_cancel_right hmoves.freed_eq
    exact (hmoves.nodup hnodup List.nodup_nil (by simp [RadixState.newIndices])).2
  · obtain ⟨s', -, heq, -⟩ := h.step hpos op hallowed
    exact ⟨s', heq⟩

/-- Two pages that are held. -/
def heldPages : RadixState ℕ ℕ :=
  { cache :=
      { tree := .cons ⟨0, ⟨[1, 2, 3, 4], none⟩, [10, 11, 12, 13], 1, 5, 5, 1, 0⟩ .nil .nil
        evictableSize := 0
        protectedSize := 4
        evictableLeaves := []
        nextId := 1 }
    holders := [0]
    given := [10, 11, 12, 13]
    freed := [] }

theorem run_heldPages : RadixState.Run 2 .init
    [.insert 5 ⟨[1, 2, 3, 4], none⟩ [10, 11, 12, 13] 0 false, .incLockRef 0] heldPages :=
  .cons ⟨⟨2, rfl⟩, rfl⟩ rfl (.cons List.mem_cons_self rfl (.nil heldPages))

theorem radix_run_heldPages :
    heldPages.cache.TreeOk 2 ∧ heldPages.cache.LocksOk heldPages.holders ∧
      (heldPages.freed ++ heldPages.cache.tree.allValues).Perm heldPages.given ∧
      heldPages.freed.Disjoint heldPages.cache.tree.allValues ∧
      heldPages.cache.tree.allValues.Nodup ∧
      heldPages.cache.evictableSize + heldPages.cache.protectedSize
        = heldPages.cache.tree.allValues.length ∧
      ∀ op, heldPages.Allowed 2 op → ∃ s', heldPages.step 2 op = some s' :=
  have ⟨htree, hlocks, hperm, hdisjoint, hfresh, hsize, hnext⟩ :=
    radix_run Nat.two_pos run_heldPages
  ⟨htree, hlocks, hperm, hdisjoint (by decide), (hfresh (by decide)).1, hsize, hnext⟩

end Results

end DraftOpd
