import DraftOpd.Forest
import DraftOpd.Heapq
import DraftOpd.StopFold
import Mathlib.Data.List.TakeDrop
import Mathlib.Tactic.Linarith

/-!
# The radix tree of the KV cache

`RadixCache` keeps the KV indices of token sequences in a tree whose nodes hold a part of a sequence
each, in whole pages (`radix_cache.py`). A request matches its tokens against the tree, locks the
node it ended at, and inserts its tokens when it is done ; what is not locked is evicted from the
leaves up, in the order of the eviction policy.

A node is known by its number, the root by `none`. The children of a node are in the order of its
dictionary, whose keys are the children's own first pages (`getChildKey`).
-/

namespace DraftOpd

variable {κ ι : Type}

/-! ## Keys -/

/-- Tokens, or bigrams of them, and the namespace they belong to. -/
structure RadixKey (κ : Type) where
  tokenIds : List κ
  extraKey : Option String
deriving DecidableEq, Repr

namespace RadixKey

/-- `key[:n]`. -/
def take (key : RadixKey κ) (n : ℕ) : RadixKey κ := ⟨key.tokenIds.take n, key.extraKey⟩

/-- `key[n:]`. -/
def drop (key : RadixKey κ) (n : ℕ) : RadixKey κ := ⟨key.tokenIds.drop n, key.extraKey⟩

/-- `len(key)`. -/
def length (key : RadixKey κ) : ℕ := key.tokenIds.length

@[simp] theorem take_tokenIds (key : RadixKey κ) (n : ℕ) :
    (key.take n).tokenIds = key.tokenIds.take n := rfl

@[simp] theorem take_extraKey (key : RadixKey κ) (n : ℕ) :
    (key.take n).extraKey = key.extraKey := rfl

@[simp] theorem drop_tokenIds (key : RadixKey κ) (n : ℕ) :
    (key.drop n).tokenIds = key.tokenIds.drop n := rfl

@[simp] theorem drop_extraKey (key : RadixKey κ) (n : ℕ) :
    (key.drop n).extraKey = key.extraKey := rfl

end RadixKey

/-- What `_check_extra_key` raises, with the two extra keys of its message. -/
inductive RadixError where
  | keyMatch (extraKey0 extraKey1 : Option String)
deriving DecidableEq, Repr

/-- `_key_match_page_size1`. -/
def keyMatchPageSize1 [DecidableEq κ] : List κ → List κ → ℕ
  | k0 :: key0, k1 :: key1 => if k0 = k1 then keyMatchPageSize1 key0 key1 + 1 else 0
  | _, _ => 0

/-- The loop of `_key_match_paged` from `i` on, for at most `fuel` pages. -/
def keyMatchPaged [DecidableEq κ] (pageSize : ℕ) (key0 key1 : List κ) : ℕ → ℕ → ℕ
  | 0, i => i
  | fuel + 1, i =>
    if i < min key0.length key1.length then
      if (key0.drop i).take pageSize = (key1.drop i).take pageSize then
        keyMatchPaged pageSize key0 key1 fuel (i + pageSize)
      else i
    else i

/-- `key_match_fn`. -/
def keyMatch [DecidableEq κ] (pageSize : ℕ) (key0 key1 : RadixKey κ) : Except RadixError ℕ :=
  if key0.extraKey ≠ key1.extraKey then .error (.keyMatch key0.extraKey key1.extraKey)
  else if pageSize = 1 then .ok (keyMatchPageSize1 key0.tokenIds key1.tokenIds)
  else .ok (keyMatchPaged pageSize key0.tokenIds key1.tokenIds (min key0.length key1.length) 0)

/-- `get_child_key` : the first page, in its namespace. -/
def getChildKey (pageSize : ℕ) (key : RadixKey κ) : Option String × List κ :=
  (key.extraKey, key.tokenIds.take pageSize)

/-! ## Nodes -/

/-- `TreeNode`, without its links. -/
structure TreeNode (κ ι : Type) where
  id : ℕ
  key : RadixKey κ
  value : List ι
  lockRef : ℤ := 0
  lastAccessTime : ℤ
  creationTime : ℤ
  hitCount : ℕ := 0
  priority : ℤ := 0
deriving DecidableEq, Repr

/-- The nodes of a tree below its root. -/
abbrev RadixTree (κ ι : Type) := Forest (TreeNode κ ι)

/-- The numbers of the nodes. -/
abbrev RadixTree.ids (tree : RadixTree κ ι) : List ℕ := Forest.ids TreeNode.id tree

/-- `all_values_flatten`. -/
def RadixTree.allValues (tree : RadixTree κ ι) : List ι := tree.nodes.flatMap TreeNode.value

@[simp] theorem RadixTree.ids_cons (node : TreeNode κ ι) (children siblings : RadixTree κ ι) :
    RadixTree.ids (.cons node children siblings)
      = node.id :: (RadixTree.ids children ++ RadixTree.ids siblings) :=
  Forest.ids_cons node children siblings

/-- `_split_node` : the new node, with the front of the child's key, and the child under it. -/
def splitNode (now : ℤ) (newId : ℕ) (child : TreeNode κ ι) (splitLen : ℕ) :
    TreeNode κ ι × TreeNode κ ι :=
  ({ id := newId
     key := child.key.take splitLen
     value := child.value.take splitLen
     lockRef := child.lockRef
     lastAccessTime := now
     creationTime := now
     hitCount := child.hitCount
     priority := child.priority },
   { child with key := child.key.drop splitLen, value := child.value.drop splitLen })

/-- What a walk along a key found, and the tree it leaves. -/
structure PrefixWalk (κ ι : Type) where
  value : List ι
  prefixLen : ℕ
  lastNode : Option ℕ
  tree : RadixTree κ ι
  nextId : ℕ

/-- The walk from the children of a node along a key, to the node where the key and the tree part.
It is the loop of `_match_prefix_helper` and of `_insert_helper`, which differ in how they `mark`
the nodes they pass : after a split the keys part at a page, and both loops end. -/
def walkPrefix [DecidableEq κ] (pageSize : ℕ) (now : ℤ) (mark : TreeNode κ ι → TreeNode κ ι)
    (nextId : ℕ) : RadixTree κ ι → RadixKey κ → Except RadixError (PrefixWalk κ ι)
  | .nil, _ => .ok ⟨[], 0, none, .nil, nextId⟩
  | .cons child children siblings, key =>
    if getChildKey pageSize child.key = getChildKey pageSize key then do
      let child := { child with lastAccessTime := now }
      let prefixLen ← keyMatch pageSize child.key key
      if prefixLen < child.key.length then
        let (newNode, child) := splitNode now nextId child prefixLen
        .ok ⟨newNode.value, prefixLen, some newNode.id,
          .cons (mark newNode) (.cons child children .nil) siblings, nextId + 1⟩
      else if (key.drop prefixLen).length = 0 then
        .ok ⟨child.value, prefixLen, some child.id, .cons (mark child) children siblings, nextId⟩
      else do
        let w ← walkPrefix pageSize now mark nextId children (key.drop prefixLen)
        .ok ⟨child.value ++ w.value, prefixLen + w.prefixLen, some (w.lastNode.getD child.id),
          .cons (mark child) w.tree siblings, w.nextId⟩
    else do
      let w ← walkPrefix pageSize now mark nextId siblings key
      .ok { w with tree := .cons child children w.tree }

/-! ## The cache -/

/-- The tree with the numbers that are kept beside it. -/
structure RadixCache (κ ι : Type) where
  tree : RadixTree κ ι
  evictableSize : ℤ
  protectedSize : ℤ
  evictableLeaves : List ℕ
  nextId : ℕ

/-- `reset`. -/
def RadixCache.empty : RadixCache κ ι := ⟨.nil, 0, 0, [], 0⟩

/-- `_update_leaf_status`. The root is locked, and never among the evictable leaves. -/
def updateLeafStatus (tree : RadixTree κ ι) (leaves : List ℕ) : Option ℕ → List ℕ
  | none => leaves
  | some i =>
    match tree.find TreeNode.id i with
    | none => leaves
    | some (node, children) =>
      if 0 < node.lockRef then leaves.erase i
      else match children with
        | .cons _ _ _ => leaves.erase i
        | .nil => if i ∈ leaves then leaves else i :: leaves

/-- `match_prefix` : the indices of the longest cached prefix, and the node it ends at. -/
def matchPrefix [DecidableEq κ] (pageSize : ℕ) (now : ℤ) (cache : RadixCache κ ι)
    (key : RadixKey κ) : Except RadixError (List ι × Option ℕ × RadixCache κ ι) :=
  let key := if pageSize ≠ 1 then key.take (key.length / pageSize * pageSize) else key
  if key.length = 0 then .ok ([], none, cache)
  else do
    let w ← walkPrefix pageSize now id cache.nextId cache.tree key
    .ok (w.value, w.lastNode, { cache with tree := w.tree, nextId := w.nextId })

/-- How `_insert_helper` marks a node. -/
def markInserted (priority : ℤ) (chunked : Bool) (node : TreeNode κ ι) : TreeNode κ ι :=
  { node with
    priority := max node.priority priority
    hitCount := if chunked then node.hitCount else node.hitCount + 1 }

/-- `_insert_helper` : the length of the prefix that was in the tree, and the tree with the rest. -/
def insertHelper [DecidableEq κ] (pageSize : ℕ) (now : ℤ) (cache : RadixCache κ ι)
    (key : RadixKey κ) (value : List ι) (priority : ℤ) (chunked : Bool) :
    Except RadixError (ℕ × RadixCache κ ι) :=
  if key.length = 0 then .ok (0, cache)
  else do
    let w ← walkPrefix pageSize now (markInserted priority chunked) cache.nextId cache.tree key
    if (key.drop w.prefixLen).length = 0 then
      .ok (w.prefixLen, { cache with tree := w.tree, nextId := w.nextId })
    else
      let newNode : TreeNode κ ι :=
        { id := w.nextId
          key := key.drop w.prefixLen
          value := value.drop w.prefixLen
          lastAccessTime := now
          creationTime := now
          hitCount := if chunked then 0 else 1
          priority := priority }
      let tree := w.tree.addChild TreeNode.id newNode w.lastNode
      .ok (w.prefixLen,
        { cache with
          tree := tree
          evictableSize := cache.evictableSize + newNode.key.length
          evictableLeaves := updateLeafStatus tree
            (updateLeafStatus tree cache.evictableLeaves w.lastNode) (some newNode.id)
          nextId := w.nextId + 1 })

/-- The tokens of the nodes for which `p` holds. -/
def sizeWhere (p : TreeNode κ ι → Bool) (nodes : List (TreeNode κ ι)) : ℤ :=
  (nodes.map fun node => if p node then (node.key.length : ℤ) else 0).sum

/-- The loop of `inc_lock_ref` and `dec_lock_ref` from a node up to the root : the change of the
lock counts, and of the sizes by the nodes for which `moved` holds. `none` for a node that is not in
the tree. -/
def changeLockRef (change : ℤ) (moved : TreeNode κ ι → Bool) (cache : RadixCache κ ι) :
    Option ℕ → Option (ℤ × RadixCache κ ι)
  | none => some (0, cache)
  | some i => do
    let path ← cache.tree.path TreeNode.id i
    let tree := cache.tree.mapPath TreeNode.id
      (fun node => { node with lockRef := node.lockRef + change }) i
    let delta := -change * sizeWhere moved path
    some (delta,
      { cache with
        tree := tree
        evictableSize := cache.evictableSize + delta
        protectedSize := cache.protectedSize - delta
        evictableLeaves := path.reverse.foldl (fun leaves node =>
          updateLeafStatus tree leaves (some node.id)) cache.evictableLeaves })

/-- `inc_lock_ref`. -/
def incLockRef (cache : RadixCache κ ι) (node : Option ℕ) : Option (ℤ × RadixCache κ ι) :=
  changeLockRef 1 (fun node => node.lockRef == 0) cache node

/-- `dec_lock_ref`. -/
def decLockRef (cache : RadixCache κ ι) (node : Option ℕ) : Option (ℤ × RadixCache κ ι) :=
  changeLockRef (-1) (fun node => node.lockRef == 1) cache node

/-! ## Eviction -/

/-- The policies of `evict_policy.py`, with `protected_threshold` of `SLRUStrategy`. -/
inductive EvictionPolicy where
  | lru
  | lfu
  | fifo
  | mru
  | filo
  | priority
  | slru (protectedThreshold : ℕ)
deriving DecidableEq, Repr

/-- `get_priority`. A number counts as a pair with zero. -/
def EvictionPolicy.getPriority (policy : EvictionPolicy) (node : TreeNode κ ι) : ℤ × ℤ :=
  match policy with
  | .lru => (node.lastAccessTime, 0)
  | .lfu => (node.hitCount, node.lastAccessTime)
  | .fifo => (node.creationTime, 0)
  | .mru => (-node.lastAccessTime, 0)
  | .filo => (-node.creationTime, 0)
  | .priority => (node.priority, node.lastAccessTime)
  | .slru protectedThreshold =>
    (if protectedThreshold ≤ node.hitCount then 1 else 0, node.lastAccessTime)

/-- An entry of the eviction heap : the priority, and what of the node is compared after it. -/
structure HeapEntry where
  priority : ℤ × ℤ
  lastAccessTime : ℤ
  id : ℕ

/-- The comparison of `(priority, node)` tuples, with `TreeNode.__lt__`. -/
def HeapEntry.lt (a b : HeapEntry) : Bool :=
  if a.priority ≠ b.priority then
    a.priority.1 < b.priority.1 || (a.priority.1 == b.priority.1 && a.priority.2 < b.priority.2)
  else a.lastAccessTime < b.lastAccessTime

/-- `(get_priority(node), node)`. -/
def heapEntry (policy : EvictionPolicy) (node : TreeNode κ ι) : HeapEntry :=
  ⟨policy.getPriority node, node.lastAccessTime, node.id⟩

/-- `_delete_leaf`. -/
def deleteLeaf (cache : RadixCache κ ι) (node : TreeNode κ ι) : RadixCache κ ι :=
  let tree := cache.tree.erase TreeNode.id node.id
  { cache with
    tree := tree
    evictableSize := cache.evictableSize - node.key.length
    evictableLeaves := updateLeafStatus tree (cache.evictableLeaves.erase node.id)
      ((cache.tree.parent TreeNode.id node.id).map TreeNode.id) }

/-- The heap after a node is deleted : its parent is pushed when it has become a leaf that is not
locked. -/
def pushParent (policy : EvictionPolicy) (tree : RadixTree κ ι) (heap : List HeapEntry) :
    Option (TreeNode κ ι) → List HeapEntry
  | none => heap
  | some parent =>
    match tree.find TreeNode.id parent.id with
    | some (_, .nil) =>
      if parent.lockRef = 0 then heappush heap (heapEntry policy parent) else heap
    | _ => heap

/-- The loop of `evict` : what is freed, and the cache after it. A node is deleted in each turn, so
that `fuel` for every node is enough. -/
def evictLoop (policy : EvictionPolicy) (numTokens : ℕ) :
    ℕ → RadixCache κ ι → List HeapEntry → List ι → List ι × RadixCache κ ι
  | 0, cache, _, freed => (freed, cache)
  | fuel + 1, cache, heap, freed =>
    if freed.length < numTokens then
      match heappop HeapEntry.lt heap with
      | none => (freed, cache)
      | some (entry, heap) =>
        match cache.tree.find TreeNode.id entry.id with
        | none => (freed, cache)
        | some (node, _) =>
          let parent := cache.tree.parent TreeNode.id node.id
          let cache := deleteLeaf cache node
          evictLoop policy numTokens fuel cache (pushParent policy cache.tree heap parent)
            (freed ++ node.value)
    else (freed, cache)

/-- The entries of the evictable leaves. -/
def evictionHeap (policy : EvictionPolicy) (cache : RadixCache κ ι) : List HeapEntry :=
  cache.evictableLeaves.filterMap fun i =>
    (cache.tree.find TreeNode.id i).map fun entry => heapEntry policy entry.1

/-- `evict` : the indices that were freed, whose number it returns, and the cache after it. -/
def evict (policy : EvictionPolicy) (cache : RadixCache κ ι) (numTokens : ℕ) :
    List ι × RadixCache κ ι :=
  evictLoop policy numTokens cache.tree.nodes.length cache (evictionHeap policy cache) []

end DraftOpd
