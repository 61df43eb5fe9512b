import DraftOpd.RadixInsert
import Mathlib.Algebra.BigOperators.Ring.List
import Mathlib.Tactic.Ring

/-!
# Locks in the radix tree

The requests hold nodes of the tree. A node's lock count is how many hold it or a node below it, the
sizes are those of the nodes without and with a lock, and the evictable leaves are the leaves
without one (`LocksOk`). Matching, inserting, locking and releasing keep this
(`LocksOk.reshaped`, `LocksOk.inserted`, `incLockRef_spec`, `decLockRef_spec`).
-/

namespace DraftOpd

variable {κ ι : Type} {pageSize : ℕ}

/-- How many of the holders are at a node or below it. -/
def holdersBelow (holders : List ℕ) (node : TreeNode κ ι) (children : RadixTree κ ι) : ℕ :=
  holders.countP fun i => i = node.id ∨ i ∈ children.ids

theorem holdersBelow_congr {holders : List ℕ} {node node' : TreeNode κ ι}
    {children children' : RadixTree κ ι}
    (h : ∀ i ∈ holders, (i = node'.id ∨ i ∈ children'.ids) ↔ (i = node.id ∨ i ∈ children.ids)) :
    holdersBelow holders node' children' = holdersBelow holders node children :=
  List.countP_congr fun i hi => by simpa using h i hi

/-- The lock counts are those of the holders. -/
def RadixTree.Locked (holders : List ℕ) (tree : RadixTree κ ι) : Prop :=
  tree.Forall fun node children => node.lockRef = holdersBelow holders node children

/-- A leaf without a lock. -/
def RadixTree.FreeLeaf (tree : RadixTree κ ι) (i : ℕ) : Prop :=
  ∃ node, tree.find TreeNode.id i = some (node, .nil) ∧ node.lockRef = 0

/-- The leaves without a lock are listed, as far as they are not excepted. -/
structure LeavesOk (tree : RadixTree κ ι) (leaves except : List ℕ) : Prop where
  nodup : leaves.Nodup
  mem_iff : ∀ i ∉ except, i ∈ leaves ↔ tree.FreeLeaf i

/-- The numbers beside the tree are right for its holders. -/
structure RadixCache.LocksOk (cache : RadixCache κ ι) (holders : List ℕ) : Prop where
  mem_ids : ∀ i ∈ holders, i ∈ cache.tree.ids
  locked : cache.tree.Locked holders
  evictableSize_eq :
    cache.evictableSize = sizeWhere (fun node => node.lockRef == 0) cache.tree.nodes
  protectedSize_eq :
    cache.protectedSize = sizeWhere (fun node => node.lockRef != 0) cache.tree.nodes
  leaves : LeavesOk cache.tree cache.evictableLeaves []

namespace RadixTree

variable {tree : RadixTree κ ι} {holders : List ℕ}

theorem locked_cons {node : TreeNode κ ι} {children siblings : RadixTree κ ι} :
    Locked holders (.cons node children siblings) ↔
      node.lockRef = holdersBelow holders node children ∧ children.Locked holders ∧
        siblings.Locked holders := Iff.rfl

theorem Locked.lockRef_nonneg (h : tree.Locked holders) {node : TreeNode κ ι}
    (hnode : node ∈ tree.nodes) : 0 ≤ node.lockRef := by
  obtain ⟨children, hcount⟩ := h.of_mem hnode
  rw [hcount]
  exact Int.natCast_nonneg _

theorem FreeLeaf.mem_ids {i : ℕ} : tree.FreeLeaf i → i ∈ tree.ids := fun ⟨_, hfind, _⟩ =>
  Forest.mem_ids_of_find hfind

theorem not_freeLeaf {i : ℕ} (h : i ∉ tree.ids) : ¬tree.FreeLeaf i := mt FreeLeaf.mem_ids h

theorem freeLeaf_cons {node : TreeNode κ ι} {children siblings : RadixTree κ ι} {i : ℕ} :
    FreeLeaf (.cons node children siblings) i ↔
      if node.id = i then children = .nil ∧ node.lockRef = 0
      else children.FreeLeaf i ∨ i ∉ children.ids ∧ siblings.FreeLeaf i := by
  unfold FreeLeaf
  rw [Forest.find]
  split_ifs with hid
  · constructor
    · rintro ⟨leaf, hfind, hlock⟩
      obtain ⟨rfl, rfl⟩ := Prod.mk.inj (Option.some.inj hfind)
      exact ⟨rfl, hlock⟩
    · rintro ⟨rfl, hlock⟩
      exact ⟨node, rfl, hlock⟩
  · simp only [Option.or_eq_some_iff, Forest.find_eq_none]
    constructor
    · rintro ⟨leaf, hfind | ⟨hnot, hfind⟩, hlock⟩
      · exact .inl ⟨leaf, hfind, hlock⟩
      · exact .inr ⟨hnot, leaf, hfind, hlock⟩
    · rintro (⟨leaf, hfind, hlock⟩ | ⟨hnot, leaf, hfind, hlock⟩)
      · exact ⟨leaf, .inl hfind, hlock⟩
      · exact ⟨leaf, .inr ⟨hnot, hfind⟩, hlock⟩

end RadixTree

/-! ## Leaf statuses -/

theorem LeavesOk.updateLeafStatus {tree : RadixTree κ ι} {leaves except : List ℕ} {i : ℕ}
    (h : LeavesOk tree leaves (i :: except)) (hlock : ∀ node ∈ tree.nodes, 0 ≤ node.lockRef)
    (hi : i ∈ tree.ids) : LeavesOk tree (updateLeafStatus tree leaves (some i)) except := by
  obtain ⟨node, children, hfind⟩ := Forest.exists_find hi
  have hnode := (Forest.of_find hfind).2.1
  have hother : ∀ j ∉ except, j ≠ i → (j ∈ leaves ↔ tree.FreeLeaf j) := fun j hj hne =>
    h.mem_iff j (by simp [hj, hne])
  have hself : tree.FreeLeaf i ↔ children = .nil ∧ node.lockRef = 0 := by
    unfold RadixTree.FreeLeaf
    rw [hfind]
    constructor
    · rintro ⟨leaf, heq, hzero⟩
      obtain ⟨rfl, rfl⟩ := Prod.mk.inj (Option.some.inj heq)
      exact ⟨rfl, hzero⟩
    · rintro ⟨rfl, hzero⟩
      exact ⟨node, rfl, hzero⟩
  -- the status of a node that is no free leaf, and of one that is
  have hout : ¬tree.FreeLeaf i → LeavesOk tree (leaves.erase i) except := fun hnot =>
    ⟨h.nodup.erase i, fun j hj => by
      by_cases hne : j = i
      · subst hne
        simp [h.nodup.not_mem_erase, hnot]
      · rw [List.mem_erase_of_ne hne]
        exact hother j hj hne⟩
  have hin : tree.FreeLeaf i → LeavesOk tree (if i ∈ leaves then leaves else i :: leaves) except :=
    fun hfree => by
      split_ifs with hmem
      · refine ⟨h.nodup, fun j hj => ?_⟩
        by_cases hne : j = i
        · subst hne
          simp [hmem, hfree]
        · exact hother j hj hne
      · refine ⟨List.nodup_cons.mpr ⟨hmem, h.nodup⟩, fun j hj => ?_⟩
        by_cases hne : j = i
        · subst hne
          simp [hfree]
        · rw [List.mem_cons, or_iff_right hne]
          exact hother j hj hne
  unfold DraftOpd.updateLeafStatus
  dsimp only
  rw [hfind]
  dsimp only
  have hnonneg := hlock node hnode
  by_cases hpos : 0 < node.lockRef
  · rw [if_pos hpos]
    exact hout fun hfree => by
      have := (hself.mp hfree).2
      omega
  · rw [if_neg hpos]
    cases children with
    | nil => exact hin (hself.mpr ⟨rfl, by omega⟩)
    | cons first below siblings => exact hout fun hfree => by cases (hself.mp hfree).1

theorem LeavesOk.foldl_updateLeafStatus {tree : RadixTree κ ι}
    (hlock : ∀ node ∈ tree.nodes, 0 ≤ node.lockRef) :
    ∀ (path : List (TreeNode κ ι)) (leaves : List ℕ), LeavesOk tree leaves (path.map TreeNode.id) →
      (∀ node ∈ path, node.id ∈ tree.ids) →
        LeavesOk tree (path.foldl (fun leaves node =>
          DraftOpd.updateLeafStatus tree leaves (some node.id)) leaves) []
  | [], _, h, _ => h
  | node :: path, _, h, hpath =>
    LeavesOk.foldl_updateLeafStatus hlock path _
      (h.updateLeafStatus hlock (hpath node List.mem_cons_self))
      fun n hn => hpath n (List.mem_cons_of_mem _ hn)

/-! ## Matching -/

namespace Reshaped

variable {newId : ℕ} {split : Bool} {tree tree' : RadixTree κ ι} {holders : List ℕ}

theorem locked (h : Reshaped pageSize newId split tree tree') (hnew : newId ∉ holders)
    (hlocked : tree.Locked holders) : tree'.Locked holders := by
  have hne : ∀ {i}, i ∈ holders → i ≠ newId := fun hi heq => hnew (heq ▸ hi)
  induction h with
  | refl => exact hlocked
  | down siblings hsame h ih =>
    obtain ⟨hnode, hchildren, hsiblings⟩ := RadixTree.locked_cons.mp hlocked
    refine RadixTree.locked_cons.mpr ⟨?_, ih hchildren, hsiblings⟩
    rw [hsame.lockRef_eq, hnode, holdersBelow_congr]
    intro i hi
    rw [hsame.id_eq, h.mem_ids_of_ne (hne hi)]
  | next node children h ih => exact ⟨hlocked.1, hlocked.2.1, ih hlocked.2.2⟩
  | @split node upper lower now n children siblings hn hpos hlt hupper hlower =>
    obtain ⟨hnode, hchildren, hsiblings⟩ := RadixTree.locked_cons.mp hlocked
    have hid : lower.id = node.id := hlower.id_eq
    have hcount : holdersBelow holders lower children = holdersBelow holders node children :=
      holdersBelow_congr fun i _ => by rw [hid]
    have hcount' : holdersBelow holders upper (.cons lower children .nil)
        = holdersBelow holders node children := holdersBelow_congr fun i hi => by
      have hupperId : i ≠ upper.id := hupper.id_eq ▸ hne hi
      rw [or_iff_right hupperId, RadixTree.ids_cons, List.mem_cons, hid]
      simp
    refine RadixTree.locked_cons.mpr
      ⟨?_, RadixTree.locked_cons.mpr ⟨?_, hchildren, trivial⟩, hsiblings⟩
    · rw [hupper.lockRef_eq, hcount']
      exact hnode
    · rw [hlower.lockRef_eq, hcount]
      exact hnode

theorem sizeWhere_eq (h : Reshaped pageSize newId split tree tree') (p : ℤ → Bool) :
    sizeWhere (fun node => p node.lockRef) tree'.nodes
      = sizeWhere (fun node => p node.lockRef) tree.nodes := by
  unfold sizeWhere
  induction h with
  | refl => rfl
  | down siblings hsame h ih =>
    simp only [Forest.nodes, List.map_cons, List.map_append, List.sum_cons, List.sum_append, ih,
      hsame.lockRef_eq, hsame.key_eq]
  | next node children h ih =>
    simp only [Forest.nodes, List.map_cons, List.map_append, List.sum_cons, List.sum_append, ih]
  | @split node upper lower now n children siblings hn hpos hlt hupper hlower =>
    have hlength : n ≤ node.key.tokenIds.length := hlt.le
    simp only [Forest.nodes, List.map_cons, List.map_append, List.sum_cons, List.sum_append,
      List.append_nil, hupper.lockRef_eq, hupper.key_eq, hlower.lockRef_eq, hlower.key_eq,
      splitNode, RadixKey.length, RadixKey.take, RadixKey.drop, List.length_take, List.length_drop]
    split_ifs <;> omega

theorem eq_nil_iff (h : Reshaped pageSize newId split tree tree') : tree' = .nil ↔ tree = .nil := by
  cases h <;> simp

theorem freeLeaf_iff (h : Reshaped pageSize newId split tree tree') (hnew : newId ∉ tree.ids)
    {i : ℕ} : tree'.FreeLeaf i ↔ tree.FreeLeaf i := by
  induction h with
  | refl => rfl
  | @down split node node' children children' siblings hsame h ih =>
    rw [RadixTree.ids_cons, List.mem_cons, List.mem_append, not_or, not_or] at hnew
    rw [RadixTree.freeLeaf_cons, RadixTree.freeLeaf_cons, hsame.id_eq, hsame.lockRef_eq,
      h.eq_nil_iff, ih hnew.2.1]
    by_cases hi : i = newId
    · have hsibling : ¬RadixTree.FreeLeaf siblings i := hi ▸ RadixTree.not_freeLeaf hnew.2.2
      simp [hsibling]
    · rw [h.mem_ids_of_ne hi]
  | next node children h ih =>
    rw [RadixTree.ids_cons, List.mem_cons, List.mem_append, not_or, not_or] at hnew
    rw [RadixTree.freeLeaf_cons, RadixTree.freeLeaf_cons, ih hnew.2.2]
  | @split node upper lower now n children siblings hn hpos hlt hupper hlower =>
    rw [RadixTree.ids_cons, List.mem_cons, List.mem_append, not_or, not_or] at hnew
    have hid : upper.id = newId := hupper.id_eq
    have hid' : lower.id = node.id := hlower.id_eq
    have hlock : lower.lockRef = node.lockRef := hlower.lockRef_eq
    have hnil : ¬RadixTree.FreeLeaf (.nil : RadixTree κ ι) i := RadixTree.not_freeLeaf (by simp)
    rw [RadixTree.freeLeaf_cons, RadixTree.freeLeaf_cons, RadixTree.freeLeaf_cons, hid, hid', hlock]
    by_cases hi : newId = i
    · have hchild : ¬RadixTree.FreeLeaf children i := hi ▸ RadixTree.not_freeLeaf hnew.2.1
      have hsibling : ¬RadixTree.FreeLeaf siblings i := hi ▸ RadixTree.not_freeLeaf hnew.2.2
      rw [if_pos hi, if_neg (hi ▸ Ne.symm hnew.1)]
      simp [hchild, hsibling]
    · rw [if_neg hi, RadixTree.ids_cons, List.mem_cons, hid']
      split_ifs with hnode
      · simp [hnode]
      · simp [hnil, Ne.symm hnode]

end Reshaped

namespace RadixCache.LocksOk

variable {cache : RadixCache κ ι} {holders : List ℕ}

theorem reshaped (h : cache.LocksOk holders) (hcache : cache.TreeOk pageSize) {split : Bool}
    {tree : RadixTree κ ι} (hshape : Reshaped pageSize cache.nextId split cache.tree tree)
    (nextId : ℕ) : RadixCache.LocksOk { cache with tree := tree, nextId := nextId } holders where
  mem_ids := fun i hi => hshape.mem_ids.mpr (.inl (h.mem_ids i hi))
  locked := hshape.locked (fun hmem => hcache.fresh (h.mem_ids _ hmem)) h.locked
  evictableSize_eq := h.evictableSize_eq.trans (hshape.sizeWhere_eq (· == 0)).symm
  protectedSize_eq := h.protectedSize_eq.trans (hshape.sizeWhere_eq (· != 0)).symm
  leaves := ⟨h.leaves.nodup, fun i hi =>
    (h.leaves.mem_iff i hi).trans (hshape.freeLeaf_iff hcache.fresh).symm⟩

end RadixCache.LocksOk

/-! ## Inserting -/

theorem sizeWhere_cons (p : TreeNode κ ι → Bool) (node : TreeNode κ ι)
    (nodes : List (TreeNode κ ι)) :
    sizeWhere p (node :: nodes)
      = (if p node then (node.key.length : ℤ) else 0) + sizeWhere p nodes :=
  rfl

theorem sizeWhere_perm (p : TreeNode κ ι → Bool) {nodes nodes' : List (TreeNode κ ι)}
    (h : nodes.Perm nodes') : sizeWhere p nodes = sizeWhere p nodes' :=
  (h.map _).sum_eq

/-- The nodes for which `p` holds and those for which it does not hold all indices. -/
theorem sizeWhere_add (p : TreeNode κ ι → Bool) : ∀ {nodes : List (TreeNode κ ι)},
    (∀ node ∈ nodes, node.value.length = node.key.length) →
      sizeWhere p nodes + sizeWhere (fun node => !p node) nodes
        = (nodes.flatMap TreeNode.value).length
  | [], _ => rfl
  | node :: nodes, h => by
    obtain ⟨hnode, hnodes⟩ := List.forall_mem_cons.mp h
    have ih := sizeWhere_add p hnodes
    rw [sizeWhere_cons, sizeWhere_cons, List.flatMap_cons, List.length_append, hnode,
      Int.natCast_add, ← ih]
    cases p node <;> simp only [Bool.not_true, Bool.not_false, if_true, if_false,
      Bool.false_eq_true] <;> ring

/-- A leaf more changes the statuses of the leaf and of the node it goes below. -/
theorem RadixTree.freeLeaf_addChild {tree : RadixTree κ ι} {new : TreeNode κ ι} {last : Option ℕ}
    {i : ℕ} (hnodup : tree.ids.Nodup) (hi : new.id ≠ i) (hlast : last ≠ some i) :
    RadixTree.FreeLeaf (tree.addChild TreeNode.id new last) i ↔ tree.FreeLeaf i := by
  unfold FreeLeaf
  cases last with
  | none =>
    change (∃ node, (tree.addSibling new).find TreeNode.id i = _ ∧ _) ↔ _
    rw [Forest.find_addSibling_of_ne hi]
  | some j =>
    have hne : i ≠ j := fun h => hlast (congrArg some h.symm)
    change (∃ node, (tree.addBelow TreeNode.id new j).find TreeNode.id i = _ ∧ _) ↔ _
    rw [Forest.find_addBelow hi hnodup]
    cases hfind : tree.find TreeNode.id i with
    | none => simp
    | some entry =>
      obtain ⟨hid, -⟩ := Forest.of_find hfind
      rw [Option.map_some, if_neg fun h => hne (hid.symm.trans h)]
      simp [Prod.ext_iff, Forest.addBelow_eq_nil]

namespace RadixCache.LocksOk

variable {cache : RadixCache κ ι} {holders : List ℕ}

theorem size_eq (h : cache.LocksOk holders) (hcache : cache.TreeOk pageSize) :
    cache.evictableSize + cache.protectedSize = cache.tree.allValues.length := by
  rw [h.evictableSize_eq, h.protectedSize_eq]
  exact sizeWhere_add _ fun node hnode => by
    obtain ⟨children, hwf, -⟩ := hcache.wellFormed.2.of_mem hnode
    exact hwf.length_value

theorem addLeaf (h : cache.LocksOk holders) (hcache : cache.TreeOk pageSize) {key : RadixKey κ}
    {value : List ι} {n : ℕ} {indices : List ι} {new : TreeNode κ ι} {last : Option ℕ}
    {path : List (TreeNode κ ι)} {children : RadixTree κ ι}
    (hleaf : NewLeaf pageSize cache key value n indices new last path children) :
    (cache.addLeaf new last).LocksOk holders := by
  have hfresh : new.id ∉ cache.tree.ids := hleaf.id_eq ▸ hcache.fresh
  have hnew : new.id ∉ holders := fun hmem => hfresh (h.mem_ids _ hmem)
  have hperm := Forest.nodes_addChild_perm new hcache.nodup hleaf.mem_ids
  have hids : ∀ {i}, i ∈ RadixTree.ids (cache.tree.addChild TreeNode.id new last) ↔
      i = new.id ∨ i ∈ cache.tree.ids := fun {i} =>
    (RadixTree.ids_addChild_perm hcache.nodup hleaf.mem_ids).mem_iff.trans List.mem_cons
  have hlocked : RadixTree.Locked holders (cache.tree.addChild TreeNode.id new last) := by
    refine Forest.Forall.addChild ?_ (fun node below below' hids hcount => ?_) h.locked last
    · have hzero : holdersBelow holders new (.nil : RadixTree κ ι) = 0 :=
        List.countP_eq_zero.mpr fun i hi => by
          simp [show i ≠ new.id from fun heq => hnew (heq ▸ hi)]
      rw [hleaf.lockRef_eq, hzero]
      rfl
    · have hbelow : holdersBelow holders node below' = holdersBelow holders node below :=
        holdersBelow_congr fun i hi => or_congr_right (hids i fun heq => hnew (heq ▸ hi))
      rw [hcount, hbelow]
  have hleaves : ∀ except : List ℕ, new.id ∈ except → (∀ i, last = some i → i ∈ except) →
      LeavesOk (cache.tree.addChild TreeNode.id new last) cache.evictableLeaves except :=
    fun except hnewId hlast => ⟨h.leaves.nodup, fun i hi =>
      (h.leaves.mem_iff i List.not_mem_nil).trans (RadixTree.freeLeaf_addChild hcache.nodup
        (fun heq : new.id = i => hi (heq ▸ hnewId)) fun heq => hi (hlast i heq)).symm⟩
  have hnonneg : ∀ node ∈ (cache.tree.addChild TreeNode.id new last).nodes, 0 ≤ node.lockRef :=
    fun node => hlocked.lockRef_nonneg
  refine ⟨fun i hi => hids.mpr (.inr (h.mem_ids i hi)), hlocked, ?_, ?_, ?_⟩
  · change cache.evictableSize + _ = _
    rw [RadixCache.addLeaf, sizeWhere_perm _ hperm, sizeWhere_cons, h.evictableSize_eq,
      hleaf.lockRef_eq, add_comm]
    rfl
  · change cache.protectedSize = _
    rw [RadixCache.addLeaf, sizeWhere_perm _ hperm, sizeWhere_cons, h.protectedSize_eq,
      hleaf.lockRef_eq]
    exact (zero_add _).symm
  · refine LeavesOk.updateLeafStatus ?_ hnonneg (hids.mpr (.inl rfl))
    cases last with
    | none => exact hleaves _ List.mem_cons_self fun i hi => by cases hi
    | some j =>
      exact (hleaves [j, new.id] (by simp) (by simp)).updateLeafStatus hnonneg
        (hids.mpr (.inr (hleaf.mem_ids j rfl)))

theorem inserted (h : cache.LocksOk holders) (hcache : cache.TreeOk pageSize) {key : RadixKey κ}
    {value : List ι} {n : ℕ} {indices : List ι} {cache' : RadixCache κ ι}
    (hinserted : Inserted pageSize cache key value n indices cache') : cache'.LocksOk holders := by
  cases hinserted with
  | found hshape hnext hlongest => exact h.reshaped hcache hshape _
  | added hshape hnext hlongest hleaf =>
    exact (h.reshaped hcache hshape _).addLeaf (hcache.reshaped hshape hnext) hleaf

end RadixCache.LocksOk

/-! ## Locking and releasing -/

/-- A node with its lock count changed. -/
def TreeNode.relock (change : ℤ) (node : TreeNode κ ι) : TreeNode κ ι :=
  { node with lockRef := node.lockRef + change }

@[simp] theorem TreeNode.relock_id (change : ℤ) (node : TreeNode κ ι) :
    (node.relock change).id = node.id := rfl

@[simp] theorem TreeNode.relock_key (change : ℤ) (node : TreeNode κ ι) :
    (node.relock change).key = node.key := rfl

@[simp] theorem TreeNode.relock_value (change : ℤ) (node : TreeNode κ ι) :
    (node.relock change).value = node.value := rfl

namespace RadixTree

variable {tree : RadixTree κ ι} {change : ℤ} {i : ℕ}

theorem childKeys_relock (tree : RadixTree κ ι) :
    childKeys pageSize (tree.mapPath TreeNode.id (TreeNode.relock change) i)
      = childKeys pageSize tree := by
  unfold childKeys
  exact Forest.map_top_mapPath (fun node => by rw [TreeNode.relock_key]) tree

theorem WellFormed.relock : ∀ {tree : RadixTree κ ι}, WellFormed pageSize tree →
    WellFormed pageSize (tree.mapPath TreeNode.id (TreeNode.relock change) i)
  | .nil, h => h
  | .cons node children siblings, h => by
    obtain ⟨hnode, hchildren, hsiblings, hfirst⟩ := wellFormed_cons.mp h
    have hnode' : (node.relock change).WellFormed pageSize :=
      ⟨hnode.pos, hnode.dvd, hnode.length_value⟩
    rw [Forest.mapPath]
    split_ifs
    · exact wellFormed_cons.mpr ⟨hnode', hchildren, hsiblings, hfirst⟩
    · exact wellFormed_cons.mpr ⟨hnode', hchildren.relock, hsiblings, hfirst⟩
    · refine wellFormed_cons.mpr ⟨hnode, hchildren, hsiblings.relock, ?_⟩
      rw [childKeys_relock]
      exact hfirst

theorem cached_relock {extraKey : Option String} : ∀ {tree : RadixTree κ ι} {tokens : List κ}
    {indices : List ι},
      Cached pageSize extraKey (tree.mapPath TreeNode.id (TreeNode.relock change) i) tokens
          indices ↔
        Cached pageSize extraKey tree tokens indices
  | .nil, _, _ => Iff.rfl
  | .cons node children siblings, tokens, indices => by
    rw [Forest.mapPath]
    split_ifs
    · exact Iff.rfl
    · simp only [Cached, cached_relock, TreeNode.relock_key, TreeNode.relock_value]
    · simp only [Cached, cached_relock]

theorem spells_relock {last : Option ℕ} {key : RadixKey κ} {indices : List ι}
    (h : Spells tree last key indices) :
    Spells (tree.mapPath TreeNode.id (TreeNode.relock change) i) last key indices := by
  cases last with
  | none => exact h
  | some j =>
    refine h.of_samePath fun path hpath => ?_
    have hmap : ((tree.mapPath TreeNode.id (TreeNode.relock change) i).path TreeNode.id j).map
          (·.map fun node => (node.key, node.value))
        = (tree.path TreeNode.id j).map (·.map fun node => (node.key, node.value)) :=
      Forest.map_path_mapPath (TreeNode.relock_id change) (fun node => by simp) tree
    rw [hpath] at hmap
    obtain ⟨path', hpath', hcontent⟩ := Option.map_eq_some_iff.mp hmap
    dsimp only at hcontent
    -- a spelling is read off the keys and values of a path
    have hspelling : ∀ path : List (TreeNode κ ι), spelling path
        = ((path.map fun node => (node.key, node.value)).flatMap fun c => c.1.tokenIds,
          (path.map fun node => (node.key, node.value)).flatMap Prod.snd) := fun path => by
      simp only [spelling, List.flatMap_map]
    refine ⟨path', hpath', by rw [hspelling, hspelling, hcontent],
      fun extraKey hall node hnode => ?_⟩
    have hmem : (node.key, node.value) ∈ path.map fun node => (node.key, node.value) := by
      rw [← hcontent]
      exact List.mem_map_of_mem hnode
    obtain ⟨node', hnode', heq⟩ := List.mem_map.mp hmem
    rw [← (Prod.mk.inj heq).1]
    exact hall node' hnode'

theorem Locked.relock {holders holders' : List ℕ} (h : tree.Locked holders)
    (hnodup : tree.ids.Nodup) (hi : i ∈ tree.ids)
    (hcount : ∀ (node : TreeNode κ ι) (children : RadixTree κ ι),
      (holdersBelow holders' node children : ℤ) = holdersBelow holders node children +
        if i = node.id ∨ i ∈ children.ids then change else 0) :
    RadixTree.Locked holders' (tree.mapPath TreeNode.id (TreeNode.relock change) i) := by
  refine Forest.Forall.mapPath (TreeNode.relock_id change)
    (fun node children children' hon hids hlock => ?_) (fun node children hne hnot hlock => ?_)
    hnodup hi h
  · have hbelow : holdersBelow holders' (node.relock change) children'
        = holdersBelow holders' node children := holdersBelow_congr fun j _ => by
      rw [show RadixTree.ids children' = RadixTree.ids children from hids]
      rfl
    rw [hbelow, hcount, if_pos (hon.imp_left Eq.symm), ← hlock]
    rfl
  · rw [hcount, if_neg (not_or.mpr ⟨Ne.symm hne, hnot⟩), add_zero, hlock]

end RadixTree

/-- The tokens of the nodes whose lock count is counted by `q`, after a change along a path. -/
theorem sizeWhere_relock {tree : RadixTree κ ι} {path : List (TreeNode κ ι)} {i : ℕ} {change c : ℤ}
    {q : ℤ → Bool} {moved : TreeNode κ ι → Bool} (hpath : tree.path TreeNode.id i = some path)
    (hmoved : ∀ node ∈ path, ∀ w : ℤ, (if q (node.lockRef + change) then w else 0)
      = (if q node.lockRef then w else 0) + c * if moved node then w else 0) :
    sizeWhere (fun node => q node.lockRef)
        (tree.mapPath TreeNode.id (TreeNode.relock change) i).nodes
      = sizeWhere (fun node => q node.lockRef) tree.nodes + c * sizeWhere moved path := by
  have hsum : sizeWhere (fun node => q node.lockRef)
        (tree.mapPath TreeNode.id (TreeNode.relock change) i).nodes
      + sizeWhere (fun node => q node.lockRef) path
      = sizeWhere (fun node => q node.lockRef) tree.nodes + (path.map fun node =>
        if q (node.lockRef + change) then (node.key.length : ℤ) else 0).sum :=
    Forest.sum_nodes_mapPath _ hpath
  have hchange : (path.map fun node =>
        if q (node.lockRef + change) then (node.key.length : ℤ) else 0).sum
      = sizeWhere (fun node => q node.lockRef) path + c * sizeWhere moved path := by
    rw [List.map_congr_left fun node hnode => hmoved node hnode node.key.length, List.sum_map_add,
      List.sum_map_mul_left]
    rfl
  linarith

namespace RadixCache

variable {cache : RadixCache κ ι} {holders holders' : List ℕ} {i : ℕ}

/-- The cache with the lock counts up to the root changed, for holders that make them so. -/
theorem LocksOk.changeLockRef (h : cache.LocksOk holders) (hcache : cache.TreeOk pageSize)
    (hi : i ∈ cache.tree.ids) {change : ℤ} {moved : TreeNode κ ι → Bool}
    (hsub : ∀ j ∈ holders', j ∈ cache.tree.ids)
    (hcount : ∀ (node : TreeNode κ ι) (children : RadixTree κ ι),
      (holdersBelow holders' node children : ℤ) = holdersBelow holders node children +
        if i = node.id ∨ i ∈ children.ids then change else 0)
    (hmoved : ∀ node : TreeNode κ ι, 0 ≤ node.lockRef → 0 ≤ node.lockRef + change → ∀ w : ℤ,
      (if node.lockRef + change == 0 then w else 0)
        = (if node.lockRef == 0 then w else 0) + -change * if moved node then w else 0) :
    ∃ delta cache', DraftOpd.changeLockRef change moved cache (some i) = some (delta, cache') ∧
      cache'.tree = cache.tree.mapPath TreeNode.id (TreeNode.relock change) i ∧
      cache'.nextId = cache.nextId ∧ cache'.LocksOk holders' ∧
      delta = cache'.evictableSize - cache.evictableSize := by
  obtain ⟨path, hpath⟩ := Option.isSome_iff_exists.mp (Forest.path_isSome.mpr hi)
  have hlocked : RadixTree.Locked holders'
      (cache.tree.mapPath TreeNode.id (TreeNode.relock change) i) :=
    h.locked.relock hcache.nodup hi hcount
  have hids : RadixTree.ids (cache.tree.mapPath TreeNode.id (TreeNode.relock change) i)
      = cache.tree.ids := Forest.ids_mapPath (TreeNode.relock_id change) cache.tree
  -- on the path the counts are nonnegative before and after
  have hbounds : ∀ node ∈ path, 0 ≤ node.lockRef ∧ 0 ≤ node.lockRef + change := fun node hnode => by
    obtain ⟨children, hcount', hon⟩ := h.locked.of_mem_path hpath hnode
    have hnew := hcount node children
    rw [if_pos (hon.imp_left Eq.symm), ← hcount'] at hnew
    exact ⟨hcount' ▸ Int.natCast_nonneg _, hnew ▸ Int.natCast_nonneg _⟩
  have hleaves : LeavesOk (cache.tree.mapPath TreeNode.id (TreeNode.relock change) i)
      cache.evictableLeaves (path.reverse.map TreeNode.id) := ⟨h.leaves.nodup, fun j hj => by
    have hout : j ∉ path.map TreeNode.id := fun hmem => hj (by
      rw [List.map_reverse, List.mem_reverse]
      exact hmem)
    rw [h.leaves.mem_iff j List.not_mem_nil, RadixTree.FreeLeaf, RadixTree.FreeLeaf,
      Forest.find_mapPath_of_notMem (TreeNode.relock_id change) hcache.nodup hpath hout]⟩
  have hmem : ∀ node ∈ path.reverse,
      node.id ∈ RadixTree.ids (cache.tree.mapPath TreeNode.id (TreeNode.relock change) i) :=
    fun node hnode => hids ▸ List.mem_map_of_mem
      (Forest.mem_nodes_of_path hpath (List.mem_reverse.mp hnode))
  have hevictable := @sizeWhere_relock κ ι _ path i change (-change) (· == 0) moved hpath
    fun node hnode w => hmoved node (hbounds node hnode).1 (hbounds node hnode).2 w
  have hprotected := @sizeWhere_relock κ ι _ path i change change (· != 0) moved hpath
    fun node hnode w => by
      have hw := hmoved node (hbounds node hnode).1 (hbounds node hnode).2 w
      have hne : ∀ l : ℤ, (if l != 0 then w else 0) = w - if l == 0 then w else 0 := fun l => by
        by_cases hl : l = 0 <;> simp [hl]
      rw [hne, hne, hw]
      ring
  unfold DraftOpd.changeLockRef
  dsimp only
  rw [hpath]
  refine ⟨_, _, rfl, rfl, rfl, ⟨fun j hj => ?_, hlocked, ?_, ?_, ?_⟩, ?_⟩
  · exact hids.symm ▸ hsub j hj
  · rw [h.evictableSize_eq]
    exact hevictable.symm
  · rw [h.protectedSize_eq]
    refine Eq.trans ?_ hprotected.symm
    ring
  · exact LeavesOk.foldl_updateLeafStatus (fun node => hlocked.lockRef_nonneg) _ _ hleaves hmem
  · ring

theorem SameContent.of_relock {cache' : RadixCache κ ι} (hcache : cache.TreeOk pageSize)
    {change : ℤ} (htree : cache'.tree = cache.tree.mapPath TreeNode.id (TreeNode.relock change) i)
    (hnext : cache'.nextId = cache.nextId) : cache.SameContent pageSize cache' := by
  have hids : cache'.tree.ids = cache.tree.ids := by
    rw [htree]
    exact Forest.ids_mapPath (TreeNode.relock_id change) cache.tree
  refine ⟨⟨?_, ?_, ?_⟩, ?_, fun hspells => ?_, ?_, fun i hi => hids ▸ hi⟩
  · rw [htree]
    exact hcache.wellFormed.relock
  · rw [hids]
    exact hcache.nodup
  · rw [hids, hnext]
    exact hcache.lt_nextId
  · rw [htree]
    exact RadixTree.cached_relock
  · rw [htree]
    exact RadixTree.spells_relock hspells
  · rw [htree, RadixTree.allValues, RadixTree.allValues, List.flatMap_def, List.flatMap_def,
      Forest.map_nodes_mapPath (TreeNode.relock_value change)]

theorem incLockRef_spec (hcache : cache.TreeOk pageSize) (h : cache.LocksOk holders)
    (hi : i ∈ cache.tree.ids) :
    ∃ delta cache', incLockRef cache (some i) = some (delta, cache') ∧
      cache.SameContent pageSize cache' ∧ cache'.LocksOk (i :: holders) ∧
      delta = cache'.evictableSize - cache.evictableSize := by
  obtain ⟨delta, cache', heq, htree, hnext, hlocks, hdelta⟩ :=
    @LocksOk.changeLockRef κ ι pageSize cache holders (i :: holders) i h hcache hi 1
      (fun node => node.lockRef == 0)
      (fun j hj => (List.mem_cons.mp hj).elim (fun heq => heq ▸ hi) (h.mem_ids j))
      (fun node children => by simp [holdersBelow, List.countP_cons])
      (fun node hnonneg _ w => by
        rw [if_neg (by simp; omega)]
        ring)
  exact ⟨delta, cache', heq, .of_relock hcache htree hnext, hlocks, hdelta⟩

theorem decLockRef_spec (hcache : cache.TreeOk pageSize) (h : cache.LocksOk holders)
    (hperm : holders.Perm (i :: holders')) :
    ∃ delta cache', decLockRef cache (some i) = some (delta, cache') ∧
      cache.SameContent pageSize cache' ∧ cache'.LocksOk holders' ∧
      delta = cache'.evictableSize - cache.evictableSize := by
  obtain ⟨delta, cache', heq, htree, hnext, hlocks, hdelta⟩ :=
    @LocksOk.changeLockRef κ ι pageSize cache holders holders' i h hcache
      (h.mem_ids i (hperm.mem_iff.mpr List.mem_cons_self)) (-1) (fun node => node.lockRef == 1)
      (fun j hj => h.mem_ids j (hperm.mem_iff.mpr (List.mem_cons_of_mem _ hj)))
      (fun node children => by
        rw [holdersBelow, holdersBelow, hperm.countP_eq, List.countP_cons]
        push_cast
        split_ifs <;> simp_all)
      (fun node _ hpos w => by
        rw [if_neg (show ¬(node.lockRef == 0) = true by simp; omega)]
        by_cases hone : node.lockRef = 1 <;> simp [hone]
        omega)
  exact ⟨delta, cache', heq, .of_relock hcache htree hnext, hlocks, hdelta⟩

end RadixCache

end DraftOpd
