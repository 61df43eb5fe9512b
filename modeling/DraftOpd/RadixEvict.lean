import DraftOpd.RadixLocks

/-!
# Eviction

`evict` takes leaves out of the tree one after the other : each is without a lock, and no other such
leaf comes before it in the order of the policy (`Evicts`). It stops as soon as enough indices are
freed, and otherwise when no node without a lock is left (`evict_spec`).
-/

namespace DraftOpd

variable {κ ι : Type} {pageSize : ℕ}

/-! ## The order -/

/-- The comparison is lexicographic. -/
theorem HeapEntry.lt_iff (a b : HeapEntry) : a.lt b = true ↔ a.priority.1 < b.priority.1 ∨
    a.priority.1 = b.priority.1 ∧ (a.priority.2 < b.priority.2 ∨
      a.priority.2 = b.priority.2 ∧ a.lastAccessTime < b.lastAccessTime) := by
  have hpriority : a.priority = b.priority ↔
      a.priority.1 = b.priority.1 ∧ a.priority.2 = b.priority.2 := Prod.ext_iff
  unfold lt
  split_ifs with h
  · rw [Ne, hpriority] at h
    simp only [Bool.or_eq_true, Bool.and_eq_true, decide_eq_true_eq, beq_iff_eq]
    omega
  · rw [not_not, hpriority] at h
    rw [decide_eq_true_eq]
    omega

theorem HeapEntry.lt_asymm (a b : HeapEntry) (h : a.lt b = true) : b.lt a = false := by
  rw [lt_iff] at h
  rw [Bool.eq_false_iff, Ne, lt_iff]
  omega

theorem HeapEntry.lt_trans (a b c : HeapEntry) (hab : b.lt a = false) (hbc : c.lt b = false) :
    c.lt a = false := by
  rw [Bool.eq_false_iff, Ne, lt_iff] at hab hbc ⊢
  omega

/-! ## A leaf less -/

namespace RadixTree

variable {tree : RadixTree κ ι} {i : ℕ}

theorem WellFormed.erase : ∀ {tree : RadixTree κ ι}, WellFormed pageSize tree →
    WellFormed pageSize (tree.erase TreeNode.id i)
  | .nil, h => h
  | .cons node children siblings, h => by
    obtain ⟨hnode, hchildren, hsiblings, hfirst⟩ := wellFormed_cons.mp h
    rw [Forest.erase]
    split_ifs
    · exact hsiblings
    · refine wellFormed_cons.mpr ⟨hnode, hchildren.erase, hsiblings.erase, fun hmem => hfirst ?_⟩
      exact ((Forest.top_erase_sublist siblings).map _).subset hmem

/-- Without a leaf, a tree caches less. -/
theorem cached_erase {extraKey : Option String} : ∀ {tree : RadixTree κ ι} {tokens : List κ}
    {indices : List ι}, Cached pageSize extraKey (tree.erase TreeNode.id i) tokens indices →
      Cached pageSize extraKey tree tokens indices
  | .nil, _, _, h => h
  | .cons node children siblings, tokens, indices, h => by
    rw [Forest.erase] at h
    split_ifs at h
    · exact .inr h
    · rcases h with ⟨hextra, h | ⟨_, _, rfl, rfl, h⟩⟩ | h
      · exact .inl ⟨hextra, .inl h⟩
      · exact .inl ⟨hextra, .inr ⟨_, _, rfl, rfl, cached_erase h⟩⟩
      · exact .inr (cached_erase h)

/-- A leaf less changes the statuses of the leaf and of its parent. -/
theorem freeLeaf_erase {node : TreeNode κ ι} (hnodup : tree.ids.Nodup)
    (hfind : tree.find TreeNode.id i = some (node, .nil)) {j : ℕ} (hj : j ≠ i)
    (hparent : ∀ parent, tree.parent TreeNode.id i = some parent → parent.id ≠ j) :
    FreeLeaf (tree.erase TreeNode.id i) j ↔ tree.FreeLeaf j := by
  unfold FreeLeaf
  rw [Forest.find_erase hj.symm hnodup hfind]
  cases hfind' : tree.find TreeNode.id j with
  | none => simp
  | some entry =>
    obtain ⟨other, children⟩ := entry
    have hnil : children.erase TreeNode.id i = .nil ↔ children = .nil := by
      refine ⟨fun h => ?_, fun h => by rw [h]; rfl⟩
      rcases Forest.erase_eq_nil h with h | ⟨child, below, rfl, hid⟩
      · exact h
      · have hmem : i ∈ (Forest.cons child below .nil).top.map TreeNode.id := by
          simp [Forest.top, hid]
        exact absurd (Forest.of_find hfind').1
          (hparent other (Forest.parent_of_find hnodup hfind' hmem))
    simp only [Option.map_some, Option.some.injEq, Prod.mk.injEq, hnil]

theorem Locked.erase {holders : List ℕ} {node : TreeNode κ ι} (h : tree.Locked holders)
    (hnodup : tree.ids.Nodup) (hfind : tree.find TreeNode.id i = some (node, .nil))
    (hi : i ∉ holders) : Locked holders (tree.erase TreeNode.id i) :=
  Forest.Forall.erase (fun other children hnodup' hfind' hcount => by
    rw [hcount]
    exact congrArg _ (holdersBelow_congr fun j hj => or_congr_right
      (Forest.mem_ids_erase (fun heq : i = j => hi (heq ▸ hj)) hnodup' hfind')).symm) hnodup hfind h

/-- A node without a lock has a leaf without a lock at it or below it. -/
theorem Locked.exists_freeLeaf {holders : List ℕ} : ∀ {tree : RadixTree κ ι},
    tree.Locked holders → tree.ids.Nodup → ∀ {node : TreeNode κ ι}, node ∈ tree.nodes →
      node.lockRef = 0 → ∃ i, tree.FreeLeaf i
  | .nil, _, _, _, h, _ => by cases h
  | .cons first children siblings, hlocked, hnodup, node, hmem, hzero => by
    obtain ⟨hfirst, hchildren, hsiblings⟩ := locked_cons.mp hlocked
    obtain ⟨⟨hid₁, hid₂⟩, hnodup₁, hnodup₂, hdisjoint⟩ := Forest.nodup_cons.mp hnodup
    have hbelow : (∃ i, FreeLeaf children i) → ∃ i, FreeLeaf (.cons first children siblings) i := by
      rintro ⟨i, hi⟩
      refine ⟨i, freeLeaf_cons.mpr ?_⟩
      have hne : first.id ≠ i := fun heq => not_freeLeaf (heq ▸ hid₁) hi
      rw [if_neg hne]
      exact .inl hi
    rw [Forest.nodes, List.mem_cons, List.mem_append] at hmem
    rcases hmem with rfl | hmem | hmem
    · cases children with
      | nil => exact ⟨node.id, freeLeaf_cons.mpr (by rw [if_pos rfl]; exact ⟨rfl, hzero⟩)⟩
      | cons child below others =>
        -- what holds the child holds the node
        have hle : holdersBelow holders child below
            ≤ holdersBelow holders node (.cons child below others) :=
          List.countP_mono_left fun i _ hi => by
            simp only [decide_eq_true_eq, ids_cons, List.mem_cons, List.mem_append] at hi ⊢
            tauto
        have hchild := (locked_cons.mp hchildren).1
        exact hbelow (hchildren.exists_freeLeaf hnodup₁ List.mem_cons_self (by omega))
    · exact hbelow (hchildren.exists_freeLeaf hnodup₁ hmem hzero)
    · obtain ⟨i, hi⟩ := hsiblings.exists_freeLeaf hnodup₂ hmem hzero
      have hin := hi.mem_ids
      have hne : first.id ≠ i := fun heq => hid₂ (heq ▸ hin)
      refine ⟨i, freeLeaf_cons.mpr ?_⟩
      rw [if_neg hne]
      exact .inr ⟨fun h => hdisjoint h hin, hi⟩

end RadixTree

namespace RadixCache

variable {cache : RadixCache κ ι} {holders : List ℕ} {node : TreeNode κ ι}

theorem TreeOk.deleteLeaf (h : cache.TreeOk pageSize)
    (hfind : cache.tree.find TreeNode.id node.id = some (node, .nil)) :
    (deleteLeaf cache node).TreeOk pageSize := by
  have hperm : cache.tree.ids.Perm
      (node.id :: RadixTree.ids (cache.tree.erase TreeNode.id node.id)) :=
    (Forest.nodes_erase_perm h.nodup hfind).map TreeNode.id
  exact ⟨h.wellFormed.erase, (List.nodup_cons.mp (hperm.nodup_iff.mp h.nodup)).2,
    fun i hi => h.lt_nextId i (hperm.mem_iff.mpr (List.mem_cons_of_mem _ hi))⟩

/-- What there is to know of the parent of a node. -/
theorem parent_spec (hnodup : cache.tree.ids.Nodup)
    (hfind : cache.tree.find TreeNode.id node.id = some (node, .nil)) {parent : TreeNode κ ι}
    (hparent : cache.tree.parent TreeNode.id node.id = some parent) :
    parent.id ≠ node.id ∧ parent.id ∈ RadixTree.ids (cache.tree.erase TreeNode.id node.id) ∧
      ¬cache.tree.FreeLeaf parent.id := by
  obtain ⟨children, hchildren, hmem⟩ := Forest.find_of_parent hnodup hparent
  have hne : parent.id ≠ node.id := fun heq => by
    rw [heq, hfind] at hchildren
    obtain ⟨-, rfl⟩ := Prod.mk.inj (Option.some.inj hchildren)
    exact absurd hmem List.not_mem_nil
  refine ⟨hne, (Forest.mem_ids_erase hne.symm hnodup hfind).mpr (Forest.mem_ids_of_find hchildren),
    ?_⟩
  rintro ⟨leaf, hleaf, -⟩
  rw [hchildren] at hleaf
  obtain ⟨-, rfl⟩ := Prod.mk.inj (Option.some.inj hleaf)
  exact absurd hmem List.not_mem_nil

theorem LocksOk.deleteLeaf (h : cache.LocksOk holders) (hcache : cache.TreeOk pageSize)
    (hfind : cache.tree.find TreeNode.id node.id = some (node, .nil)) (hzero : node.lockRef = 0) :
    (deleteLeaf cache node).LocksOk holders := by
  have hperm := Forest.nodes_erase_perm hcache.nodup hfind
  have hnot : node.id ∉ holders := fun hmem => by
    have hcount := h.locked.of_find hfind
    rw [hzero] at hcount
    have hpos : 0 < holdersBelow holders node (.nil : RadixTree κ ι) :=
      List.countP_pos_iff.mpr ⟨node.id, hmem, by simp⟩
    omega
  have hlocked := h.locked.erase hcache.nodup hfind hnot
  have hleaves : ∀ except : List ℕ, (∀ parent, cache.tree.parent TreeNode.id node.id = some parent →
      parent.id ∈ except) → LeavesOk (cache.tree.erase TreeNode.id node.id)
        (cache.evictableLeaves.erase node.id) except := fun except hparent =>
    ⟨h.leaves.nodup.erase _, fun i hi => by
      by_cases hne : i = node.id
      · have hgone : i ∉ RadixTree.ids (cache.tree.erase TreeNode.id node.id) := by
          rw [hne]
          exact (List.nodup_cons.mp ((hperm.map TreeNode.id).nodup_iff.mp hcache.nodup)).1
        rw [hne] at hgone ⊢
        exact iff_of_false h.leaves.nodup.not_mem_erase (RadixTree.not_freeLeaf hgone)
      · rw [List.mem_erase_of_ne hne, h.leaves.mem_iff i List.not_mem_nil]
        exact (RadixTree.freeLeaf_erase hcache.nodup hfind hne fun parent hp heq =>
          hi (heq ▸ hparent parent hp)).symm⟩
  refine ⟨fun i hi => ?_, hlocked, ?_, ?_, ?_⟩
  · exact (Forest.mem_ids_erase (fun heq : node.id = i => hnot (heq ▸ hi)) hcache.nodup hfind).mpr
      (h.mem_ids i hi)
  · change cache.evictableSize - _ = _
    rw [h.evictableSize_eq, sizeWhere_perm _ hperm, sizeWhere_cons, hzero]
    simp [DraftOpd.deleteLeaf]
  · change cache.protectedSize = _
    rw [h.protectedSize_eq, sizeWhere_perm _ hperm, sizeWhere_cons, hzero]
    simp [DraftOpd.deleteLeaf]
  · unfold DraftOpd.deleteLeaf
    dsimp only
    cases hparent : cache.tree.parent TreeNode.id node.id with
    | none => exact hleaves [] fun parent hp => by simp [hparent] at hp
    | some parent =>
      refine (hleaves [parent.id] fun other hp => ?_).updateLeafStatus
        (fun other => hlocked.lockRef_nonneg) (parent_spec hcache.nodup hfind hparent).2.1
      rw [hparent] at hp
      rw [Option.some.inj hp]
      exact List.mem_cons_self

end RadixCache

/-! ## The loop -/

/-- A leaf without a lock that no other such leaf comes before. -/
structure Evictable (policy : EvictionPolicy) (cache : RadixCache κ ι) (node : TreeNode κ ι) :
    Prop where
  find_eq : cache.tree.find TreeNode.id node.id = some (node, .nil)
  lockRef_eq : node.lockRef = 0
  least : ∀ {i other}, cache.tree.find TreeNode.id i = some (other, .nil) → other.lockRef = 0 →
    (heapEntry policy other).lt (heapEntry policy node) = false

/-- Nodes are taken out one after the other, each when its turn is. -/
inductive Evicts (policy : EvictionPolicy) :
    RadixCache κ ι → List (TreeNode κ ι) → RadixCache κ ι → Prop
  | nil (cache : RadixCache κ ι) : Evicts policy cache [] cache
  | cons {cache cache' : RadixCache κ ι} {node : TreeNode κ ι} {nodes : List (TreeNode κ ι)}
      (hnode : Evictable policy cache node)
      (h : Evicts policy (deleteLeaf cache node) nodes cache') :
      Evicts policy cache (node :: nodes) cache'

/-- What the evicted nodes leave. -/
structure EvictSpec (pageSize : ℕ) (holders : List ℕ) (cache : RadixCache κ ι)
    (nodes : List (TreeNode κ ι)) (cache' : RadixCache κ ι) : Prop where
  treeOk : cache'.TreeOk pageSize
  locksOk : cache'.LocksOk holders
  perm : cache.tree.nodes.Perm (nodes ++ cache'.tree.nodes)
  spells : ∀ {last key indices}, RadixTree.Spells cache.tree last key indices →
    (∀ i, last = some i → i ∈ cache'.tree.ids) → RadixTree.Spells cache'.tree last key indices
  cached : ∀ {extraKey tokens indices},
    RadixTree.Cached pageSize extraKey cache'.tree tokens indices →
    RadixTree.Cached pageSize extraKey cache.tree tokens indices

theorem Evicts.spec {policy : EvictionPolicy} {holders : List ℕ} {cache cache' : RadixCache κ ι}
    {nodes : List (TreeNode κ ι)} (h : Evicts policy cache nodes cache')
    (hcache : cache.TreeOk pageSize) (hlocks : cache.LocksOk holders) :
    EvictSpec pageSize holders cache nodes cache' := by
  induction h with
  | nil => exact ⟨hcache, hlocks, .refl _, fun hspells _ => hspells, id⟩
  | @cons cache cache' node nodes hnode h ih =>
    have hspec := ih (hcache.deleteLeaf hnode.find_eq)
      (hlocks.deleteLeaf hcache hnode.find_eq hnode.lockRef_eq)
    have hperm := Forest.nodes_erase_perm hcache.nodup hnode.find_eq
    refine ⟨hspec.treeOk, hspec.locksOk, hperm.trans (hspec.perm.cons node),
      fun {last key indices} hspells hin => hspec.spells ?_ hin,
      fun hcached => RadixTree.cached_erase (hspec.cached hcached)⟩
    cases last with
    | none => exact hspells
    | some i =>
      have hne : node.id ≠ i := fun heq => by
        have hgone := (List.nodup_cons.mp ((hperm.map TreeNode.id).nodup_iff.mp hcache.nodup)).1
        exact hgone (((hspec.perm.map TreeNode.id).mem_iff).mpr (by
          rw [List.map_append, List.mem_append]
          exact .inr (heq ▸ hin i rfl)))
      exact hspells.of_samePath fun path hpath =>
        ⟨path, (Forest.path_erase hne hcache.nodup hnode.find_eq).trans hpath, .refl path⟩

/-- The heap holds the leaves without a lock. -/
structure HeapOk (policy : EvictionPolicy) (tree : RadixTree κ ι) (heap : List HeapEntry)
    (except : List ℕ) : Prop where
  leaves : LeavesOk tree (heap.map HeapEntry.id) except
  entry : ∀ entry ∈ heap, ∃ node children,
    tree.find TreeNode.id entry.id = some (node, children) ∧ entry = heapEntry policy node

namespace HeapOk

variable {policy : EvictionPolicy} {cache : RadixCache κ ι} {holders : List ℕ}

theorem of_locksOk (h : cache.LocksOk holders) :
    HeapOk policy cache.tree (evictionHeap policy cache) [] := by
  have hentry : ∀ entry ∈ evictionHeap policy cache, ∃ node children,
      cache.tree.find TreeNode.id entry.id = some (node, children) ∧
        entry = heapEntry policy node := fun entry hentry => by
    obtain ⟨i, hi, heq⟩ := List.mem_filterMap.mp hentry
    obtain ⟨⟨node, children⟩, hfind, rfl⟩ := Option.map_eq_some_iff.mp heq
    refine ⟨node, children, ?_, rfl⟩
    rw [show (heapEntry policy node).id = i from (Forest.of_find hfind).1]
    exact hfind
  have hids : (evictionHeap policy cache).map HeapEntry.id = cache.evictableLeaves := by
    rw [evictionHeap, List.map_filterMap]
    conv_rhs => rw [← List.filterMap_some (l := cache.evictableLeaves)]
    refine List.filterMap_congr fun i hi => ?_
    obtain ⟨node, hfind, -⟩ := (h.leaves.mem_iff i List.not_mem_nil).mp hi
    rw [hfind, Option.map_some, Option.map_some]
    exact congrArg some (Forest.of_find hfind).1
  exact ⟨hids.symm ▸ h.leaves, hentry⟩

/-- What is popped is evictable. -/
theorem evictable {heap rest : List HeapEntry} {entry : HeapEntry}
    (h : HeapOk policy cache.tree heap []) (hpop : heappop HeapEntry.lt heap = some (entry, rest)) :
    ∃ node, cache.tree.find TreeNode.id entry.id = some (node, .nil) ∧ node.id = entry.id ∧
      Evictable policy cache node := by
  have hperm := heappop_perm hpop
  have hleast := heappop_least HeapEntry.lt_asymm HeapEntry.lt_trans hpop
  have hmem : entry ∈ heap := hperm.mem_iff.mp List.mem_cons_self
  obtain ⟨node, hfind, hzero⟩ := (h.leaves.mem_iff entry.id List.not_mem_nil).mp
    (List.mem_map_of_mem hmem)
  obtain ⟨node', children, hfind', hentry⟩ := h.entry entry hmem
  rw [hfind] at hfind'
  obtain ⟨rfl, rfl⟩ := Prod.mk.inj (Option.some.inj hfind')
  have hid := (Forest.of_find hfind).1
  refine ⟨node, hfind, hid, ⟨by rw [hid]; exact hfind, hzero, fun {i other} hother hlock => ?_⟩⟩
  obtain ⟨entry', hmem', rfl⟩ := List.mem_map.mp
    ((h.leaves.mem_iff i List.not_mem_nil).mpr ⟨other, hother, hlock⟩)
  obtain ⟨other', below, hfind', hentry'⟩ := h.entry entry' hmem'
  rw [hother] at hfind'
  obtain ⟨rfl, -⟩ := Prod.mk.inj (Option.some.inj hfind')
  rw [← hentry, ← hentry']
  rcases List.mem_cons.mp (hperm.mem_iff.mpr hmem') with rfl | hrest
  · by_contra htrue
    have htrue := Bool.eq_true_of_not_eq_false htrue
    exact absurd htrue (Bool.eq_false_iff.mp (HeapEntry.lt_asymm _ _ htrue))
  · exact hleast entry' hrest

/-- The heap without what was popped, and with the parent when it has become such a leaf. -/
theorem pushParent {heap rest : List HeapEntry} {entry : HeapEntry} {node : TreeNode κ ι}
    (h : HeapOk policy cache.tree heap []) (hpop : heappop HeapEntry.lt heap = some (entry, rest))
    (hid : node.id = entry.id) (hnode : Evictable policy cache node)
    (hnodup : cache.tree.ids.Nodup) :
    HeapOk policy (deleteLeaf cache node).tree
      (DraftOpd.pushParent policy (deleteLeaf cache node).tree rest
        (cache.tree.parent TreeNode.id node.id)) [] := by
  have hperm := (heappop_perm hpop).map HeapEntry.id
  rw [List.map_cons, ← hid] at hperm
  obtain ⟨hgone, hrestNodup⟩ := List.nodup_cons.mp (hperm.nodup_iff.mpr h.leaves.nodup)
  have hout : node.id ∉ RadixTree.ids (deleteLeaf cache node).tree :=
    (List.nodup_cons.mp (((Forest.nodes_erase_perm hnodup hnode.find_eq).map
      TreeNode.id).nodup_iff.mp hnodup)).1
  -- the entries that stay, and the leaves they are of
  have hentry : ∀ e ∈ rest, ∃ other children,
      (deleteLeaf cache node).tree.find TreeNode.id e.id = some (other, children) ∧
        e = heapEntry policy other := fun e he => by
    have hne : node.id ≠ e.id := fun heq => hgone (heq ▸ List.mem_map_of_mem he)
    obtain ⟨other, children, hfind, heq⟩ := h.entry e
      ((heappop_perm hpop).mem_iff.mp (List.mem_cons_of_mem _ he))
    have hfind' := Forest.find_erase hne hnodup hnode.find_eq
    rw [hfind, Option.map_some] at hfind'
    exact ⟨other, _, hfind', heq⟩
  have hleaf : ∀ i, (∀ parent, cache.tree.parent TreeNode.id node.id = some parent →
      parent.id ≠ i) → (i ∈ rest.map HeapEntry.id ↔ (deleteLeaf cache node).tree.FreeLeaf i) :=
    fun i hi => by
      by_cases hne : i = node.id
      · rw [hne]
        exact iff_of_false hgone (RadixTree.not_freeLeaf hout)
      · have hmem := (hperm.mem_iff (a := i)).trans (h.leaves.mem_iff i List.not_mem_nil)
        rw [List.mem_cons, or_iff_right hne] at hmem
        exact hmem.trans (RadixTree.freeLeaf_erase hnodup hnode.find_eq hne hi).symm
  cases hparent : cache.tree.parent TreeNode.id node.id with
  | none =>
    exact ⟨⟨hrestNodup, fun i _ => hleaf i fun parent hp => by simp [hparent] at hp⟩, hentry⟩
  | some parent =>
    obtain ⟨hne, hin, hnotLeaf⟩ := RadixCache.parent_spec hnodup hnode.find_eq hparent
    have hparentGone : parent.id ∉ rest.map HeapEntry.id := fun hmem => hnotLeaf
      ((h.leaves.mem_iff _ List.not_mem_nil).mp (hperm.mem_iff.mp (List.mem_cons_of_mem _ hmem)))
    have hother : ∀ i, i ≠ parent.id →
        (i ∈ rest.map HeapEntry.id ↔ (deleteLeaf cache node).tree.FreeLeaf i) := fun i hi =>
      hleaf i fun other hp => by
        rw [hparent] at hp
        exact Option.some.inj hp ▸ Ne.symm hi
    obtain ⟨found, children, hfind⟩ := Forest.exists_find hin
    -- the parent is what is found under its number
    have hfound : found = parent := by
      obtain ⟨below, hbelow, -⟩ := Forest.find_of_parent hnodup hparent
      have heq := (Forest.find_erase hne.symm hnodup hnode.find_eq).symm.trans hfind
      rw [hbelow] at heq
      exact (Prod.mk.inj (Option.some.inj heq)).1.symm
    subst hfound
    have hself : (deleteLeaf cache node).tree.FreeLeaf found.id ↔
        children = .nil ∧ found.lockRef = 0 := by
      constructor
      · rintro ⟨leaf, hleaf', hzero⟩
        obtain ⟨rfl, rfl⟩ := Prod.mk.inj (Option.some.inj (hfind.symm.trans hleaf'))
        exact ⟨rfl, hzero⟩
      · rintro ⟨rfl, hzero⟩
        exact ⟨found, hfind, hzero⟩
    have hkeep : ¬(children = .nil ∧ found.lockRef = 0) →
        HeapOk policy (deleteLeaf cache node).tree rest [] := fun hnot =>
      ⟨⟨hrestNodup, fun i _ => by
        by_cases hi : i = found.id
        · rw [hi]
          exact iff_of_false hparentGone (mt hself.mp hnot)
        · exact hother i hi⟩, hentry⟩
    unfold DraftOpd.pushParent
    dsimp only
    rw [show (deleteLeaf cache node).tree.find TreeNode.id found.id = some (found, children) from
      hfind]
    cases children with
    | cons first below siblings => exact hkeep fun hand => by cases hand.1
    | nil =>
      dsimp only
      split_ifs with hzero
      · refine ⟨⟨List.nodup_cons.mpr ⟨hparentGone, hrestNodup⟩, fun i _ => ?_⟩,
          List.forall_mem_cons.mpr ⟨⟨found, .nil, hfind, rfl⟩, hentry⟩⟩
        rw [heappush, List.map_cons, List.mem_cons]
        by_cases hi : i = found.id
        · rw [hi]
          exact iff_of_true (.inl rfl) (hself.mpr ⟨rfl, hzero⟩)
        · rw [← hother i hi]
          exact or_iff_right hi
      · exact hkeep fun hand => hzero hand.2

end HeapOk

/-- The loop takes out nodes in turn, until enough is freed or nothing is left to take out. -/
theorem evictLoop_spec (policy : EvictionPolicy) (numTokens : ℕ) {holders : List ℕ} :
    ∀ {fuel : ℕ} {cache : RadixCache κ ι} {heap : List HeapEntry} (freed : List ι),
      cache.TreeOk pageSize → cache.LocksOk holders → HeapOk policy cache.tree heap [] →
      cache.tree.nodes.length ≤ fuel →
      ∃ nodes cache', evictLoop policy numTokens fuel cache heap freed
          = (freed ++ nodes.flatMap TreeNode.value, cache') ∧
        Evicts policy cache nodes cache' ∧
        (numTokens ≤ (freed ++ nodes.flatMap TreeNode.value).length ∨
          ∀ node ∈ cache'.tree.nodes, node.lockRef ≠ 0) ∧
        ∀ pre node, nodes = pre ++ [node] →
          (freed ++ pre.flatMap TreeNode.value).length < numTokens
  | 0, cache, _, freed, _, _, _, hfuel => by
    have hnil := List.eq_nil_of_length_eq_zero (Nat.le_zero.mp hfuel)
    refine ⟨[], cache, by rw [evictLoop, List.flatMap_nil, List.append_nil], .nil cache,
      .inr (by simp [hnil]), by simp⟩
  | fuel + 1, cache, heap, freed, hcache, hlocks, hheap, hfuel => by
    unfold evictLoop
    by_cases hmore : freed.length < numTokens
    · rw [if_pos hmore]
      cases hpop : heappop HeapEntry.lt heap with
      | none =>
        refine ⟨[], cache, by rw [List.flatMap_nil, List.append_nil], .nil cache,
          .inr fun node hnode hzero => ?_, by simp⟩
        obtain ⟨i, hi⟩ := hlocks.locked.exists_freeLeaf hcache.nodup hnode hzero
        have hmem := (hheap.leaves.mem_iff i List.not_mem_nil).mpr hi
        rw [heappop_eq_none.mp hpop] at hmem
        exact absurd hmem List.not_mem_nil
      | some popped =>
        obtain ⟨entry, rest⟩ := popped
        obtain ⟨node, hfind, hid, hnode⟩ := hheap.evictable hpop
        have hcache' := hcache.deleteLeaf hnode.find_eq
        have hlocks' := hlocks.deleteLeaf hcache hnode.find_eq hnode.lockRef_eq
        have hheap' := hheap.pushParent hpop hid hnode hcache.nodup
        have hlength := (Forest.nodes_erase_perm hcache.nodup hnode.find_eq).length_eq
        rw [List.length_cons] at hlength
        have hfuel' : (deleteLeaf cache node).tree.nodes.length ≤ fuel := by
          change (cache.tree.erase TreeNode.id node.id).nodes.length ≤ fuel
          omega
        obtain ⟨nodes, cache', heq, hevicts, hstop, hlast⟩ :=
          evictLoop_spec policy numTokens (freed ++ node.value) hcache' hlocks' hheap' hfuel'
        dsimp only
        rw [hfind]
        dsimp only
        rw [heq, List.append_assoc]
        rw [List.append_assoc] at hstop
        refine ⟨node :: nodes, cache', rfl, .cons hnode hevicts, hstop, fun pre last hpre => ?_⟩
        cases pre with
        | nil => simpa using hmore
        | cons first pre =>
          obtain ⟨rfl, rfl⟩ := List.cons.inj hpre
          have := hlast pre last rfl
          rwa [List.append_assoc] at this
    · rw [if_neg hmore]
      exact ⟨[], cache, by rw [List.flatMap_nil, List.append_nil], .nil cache,
        .inl (by simpa using hmore), by simp⟩

/-- `evict` takes out leaves without a lock in the order of the policy, no more than it takes to
free `num_tokens` indices, and frees fewer only when all that is left is locked. -/
theorem evict_spec (policy : EvictionPolicy) {cache : RadixCache κ ι} {holders : List ℕ}
    (hcache : cache.TreeOk pageSize) (hlocks : cache.LocksOk holders) (numTokens : ℕ) :
    ∃ nodes cache', evict policy cache numTokens = (nodes.flatMap TreeNode.value, cache') ∧
      Evicts policy cache nodes cache' ∧ EvictSpec pageSize holders cache nodes cache' ∧
      (numTokens ≤ (nodes.flatMap TreeNode.value).length ∨ cache'.evictableSize = 0) ∧
      ∀ pre node, nodes = pre ++ [node] → (pre.flatMap TreeNode.value).length < numTokens := by
  obtain ⟨nodes, cache', heq, hevicts, hstop, hlast⟩ :=
    evictLoop_spec policy numTokens [] hcache hlocks (.of_locksOk hlocks) le_rfl
  have hspec := hevicts.spec hcache hlocks
  refine ⟨nodes, cache', heq, hevicts, hspec, hstop.imp_right fun hlocked => ?_, hlast⟩
  rw [hspec.locksOk.evictableSize_eq]
  exact List.sum_eq_zero fun w hw => by
    obtain ⟨node, hnode, rfl⟩ := List.mem_map.mp hw
    rw [if_neg (by simpa using hlocked node hnode)]

/-- A page that two others follow, one of which is held. -/
def sharedPage : RadixCache ℕ ℕ :=
  { tree := .cons ⟨0, ⟨[1, 2], none⟩, [10, 11], 1, 5, 5, 1, 0⟩
      (.cons ⟨1, ⟨[3, 4], none⟩, [12, 13], 1, 5, 5, 1, 0⟩ .nil
        (.cons ⟨2, ⟨[5, 6], none⟩, [14, 15], 0, 6, 6, 1, 0⟩ .nil .nil)) .nil
    evictableSize := 2
    protectedSize := 4
    evictableLeaves := [2]
    nextId := 3 }

theorem sharedPage_treeOk : sharedPage.TreeOk 2 where
  wellFormed := by
    have hnil : RadixTree.WellFormed 2 (.nil : RadixTree ℕ ℕ) := ⟨List.nodup_nil, trivial⟩
    refine wellFormed_cons.mpr ⟨⟨by decide, by decide, rfl⟩, wellFormed_cons.mpr
      ⟨⟨by decide, by decide, rfl⟩, hnil, ?_, by decide⟩, hnil, List.not_mem_nil⟩
    exact wellFormed_cons.mpr ⟨⟨by decide, by decide, rfl⟩, hnil, hnil, List.not_mem_nil⟩
  nodup := by decide
  lt_nextId := by decide

theorem sharedPage_locksOk : sharedPage.LocksOk [1] where
  mem_ids := by decide
  locked := ⟨by decide, ⟨by decide, trivial, by decide, trivial, trivial⟩, trivial⟩
  evictableSize_eq := by decide
  protectedSize_eq := by decide
  leaves := by
    refine ⟨List.nodup_singleton 2, fun i _ => ?_⟩
    simp only [sharedPage, RadixTree.freeLeaf_cons, List.mem_singleton]
    have hnil : ¬RadixTree.FreeLeaf (.nil : RadixTree ℕ ℕ) i := RadixTree.not_freeLeaf (by simp)
    split_ifs <;> simp_all <;> omega

theorem evict_spec_sharedPage :
    ∃ nodes cache', evict .lru sharedPage 4 = (nodes.flatMap TreeNode.value, cache') ∧
      Evicts .lru sharedPage nodes cache' ∧ EvictSpec 2 [1] sharedPage nodes cache' ∧
      (4 ≤ (nodes.flatMap TreeNode.value).length ∨ cache'.evictableSize = 0) ∧
      ∀ pre node, nodes = pre ++ [node] → (pre.flatMap TreeNode.value).length < 4 :=
  evict_spec .lru sharedPage_treeOk sharedPage_locksOk 4

example : (evict .lru sharedPage 4).1 = [14, 15] := by decide

end DraftOpd
