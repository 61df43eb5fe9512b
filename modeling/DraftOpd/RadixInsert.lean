import DraftOpd.RadixPrefix

/-!
# Matching and inserting

* `match_prefix` returns the indices of the longest cached prefix of a key, in whole pages, and a
  node that spells it. The tree caches the same sequences as before, and every node spells the
  sequence it spelled (`matchPrefix_spec`).
* `insert` returns the length of the longest cached prefix. After it the tree also caches the
  prefixes of the key, with the cached indices as far as there were any, and the new ones from there
  on (`insertHelper_spec`).
-/

namespace DraftOpd

variable {κ ι : Type} {pageSize : ℕ}

/-- A tree of well-formed nodes that are told apart by their numbers, all of them given out. -/
structure RadixCache.TreeOk (pageSize : ℕ) (cache : RadixCache κ ι) : Prop where
  wellFormed : cache.tree.WellFormed pageSize
  nodup : cache.tree.ids.Nodup
  lt_nextId : ∀ i ∈ cache.tree.ids, i < cache.nextId

theorem RadixCache.TreeOk.fresh {cache : RadixCache κ ι} (h : cache.TreeOk pageSize) :
    cache.nextId ∉ cache.tree.ids := fun hmem => lt_irrefl _ (h.lt_nextId _ hmem)

/-- After a walk that marks and splits, the tree is still fine. -/
theorem RadixCache.TreeOk.reshaped {cache : RadixCache κ ι} (h : cache.TreeOk pageSize)
    {split : Bool} {tree : RadixTree κ ι} {nextId : ℕ}
    (hshape : Reshaped pageSize cache.nextId split cache.tree tree)
    (hnext : nextId = if split then cache.nextId + 1 else cache.nextId) :
    RadixCache.TreeOk pageSize { cache with tree := tree, nextId := nextId } where
  wellFormed := hshape.wellFormed h.wellFormed
  nodup := hshape.nodup h.nodup h.fresh
  lt_nextId := by
    intro i hi
    dsimp only at hi ⊢
    rcases hshape.mem_ids.mp hi with hi | ⟨hsplit, rfl⟩
    · have := h.lt_nextId i hi
      split_ifs at hnext <;> omega
    · rw [if_pos hsplit] at hnext
      omega

/-- The cache holds what it held, and every node spells what it spelled. -/
structure RadixCache.SameContent (pageSize : ℕ) (cache cache' : RadixCache κ ι) : Prop where
  treeOk : cache'.TreeOk pageSize
  cached_iff : ∀ {extraKey tokens indices},
    RadixTree.Cached pageSize extraKey cache'.tree tokens indices ↔
      RadixTree.Cached pageSize extraKey cache.tree tokens indices
  spells : ∀ {last key indices}, RadixTree.Spells cache.tree last key indices →
    RadixTree.Spells cache'.tree last key indices
  allValues_eq : cache'.tree.allValues = cache.tree.allValues
  mem_ids : ∀ i ∈ cache.tree.ids, i ∈ cache'.tree.ids

theorem RadixCache.SameContent.of_reshaped {cache : RadixCache κ ι} (h : cache.TreeOk pageSize)
    {split : Bool} {tree : RadixTree κ ι} {nextId : ℕ}
    (hshape : Reshaped pageSize cache.nextId split cache.tree tree)
    (hnext : nextId = if split then cache.nextId + 1 else cache.nextId) :
    RadixCache.SameContent pageSize cache { cache with tree := tree, nextId := nextId } :=
  ⟨h.reshaped hshape hnext, hshape.cached_iff _, hshape.spells h.fresh, hshape.allValues_eq,
    fun _ hi => hshape.mem_ids.mpr (.inl hi)⟩

/-! ## Matching -/

theorem RadixKey.take_take (key : RadixKey κ) (n m : ℕ) :
    (key.take n).take m = key.take (min m n) := by
  simp only [take, List.take_take]

theorem RadixKey.take_length (key : RadixKey κ) : key.take key.length = key := by
  rw [take, length, List.take_length]

/-- The longest cached prefix is one of the whole pages of a key. -/
theorem RadixTree.Longest.of_aligned {tree : RadixTree κ ι} {key : RadixKey κ} {n : ℕ}
    {indices : List ι}
    (h : Longest pageSize tree (key.take (key.length / pageSize * pageSize)) n indices) :
    Longest pageSize tree key n indices := by
  have hle : key.length / pageSize * pageSize ≤ key.length := Nat.div_mul_le_self _ _
  have hlen : (key.take (key.length / pageSize * pageSize)).length
      = key.length / pageSize * pageSize := List.length_take_of_le hle
  have htake : ∀ m, m ≤ key.length / pageSize * pageSize →
      (key.take (key.length / pageSize * pageSize)).tokenIds.take m = key.tokenIds.take m :=
    fun m hm => by rw [RadixKey.take, List.take_take, Nat.min_eq_left hm]
  have hn := hlen ▸ h.le
  refine ⟨h.dvd, hn.trans hle, htake n hn ▸ h.cached, fun {m indices'} hm hmle hcached => ?_⟩
  have hm' : m ≤ key.length / pageSize * pageSize := by
    obtain ⟨d, rfl⟩ := hm
    rw [Nat.mul_comm pageSize d]
    rcases Nat.eq_zero_or_pos pageSize with rfl | hpos
    · simp
    · exact Nat.mul_le_mul_right _ ((Nat.le_div_iff_mul_le hpos).mpr (Nat.mul_comm _ _ ▸ hmle))
  exact h.longest hm (hlen.symm ▸ hm') (by rw [htake m hm']; exact hcached)

theorem RadixTree.longest_of_empty {tree : RadixTree κ ι} {key : RadixKey κ}
    (h : key.length = 0) : Longest pageSize tree key 0 [] where
  dvd := Nat.dvd_zero _
  le := Nat.zero_le _
  cached := cached_nil tree
  longest := fun _ hle _ => h ▸ hle

/-- Matching is a walk. -/
theorem matchPrefix_reshaped [DecidableEq κ] (hpos : 0 < pageSize) {cache : RadixCache κ ι}
    (hcache : cache.TreeOk pageSize) (now : ℤ) (key : RadixKey κ) :
    ∃ indices last n split tree nextId,
      matchPrefix pageSize now cache key
        = .ok (indices, last, { cache with tree := tree, nextId := nextId }) ∧
      Reshaped pageSize cache.nextId split cache.tree tree ∧
      nextId = (if split then cache.nextId + 1 else cache.nextId) ∧
      RadixTree.Longest pageSize cache.tree key n indices ∧
      tree.Spells last (key.take n) indices := by
  have haligned : (if pageSize ≠ 1 then key.take (key.length / pageSize * pageSize) else key)
      = key.take (key.length / pageSize * pageSize) := by
    split_ifs with hone
    · rfl
    · rw [not_not.mp hone, Nat.div_one, Nat.mul_one, RadixKey.take_length]
  have hlen : (key.take (key.length / pageSize * pageSize)).length
      = key.length / pageSize * pageSize := List.length_take_of_le (Nat.div_mul_le_self _ _)
  unfold matchPrefix
  dsimp only
  rw [haligned]
  split_ifs with hempty
  · exact ⟨_, _, 0, false, cache.tree, cache.nextId, rfl, .refl _, rfl,
      (RadixTree.longest_of_empty hempty).of_aligned, RadixTree.spells_root _ _⟩
  · obtain ⟨w, split, hw, hspec⟩ := @walkPrefix_spec κ ι pageSize _ id now cache.nextId hpos
      (fun _ => ⟨rfl, rfl, rfl, rfl⟩) cache.tree (key.take (key.length / pageSize * pageSize))
      hcache.wellFormed (by rw [hlen]; exact Nat.dvd_mul_left _ _) (Nat.pos_of_ne_zero hempty)
    have hspells := hspec.spells hcache.fresh hcache.nodup
    have hle := hlen ▸ hspec.longest.le
    rw [RadixKey.take_take, Nat.min_eq_left hle] at hspells
    rw [hw]
    exact ⟨_, _, w.prefixLen, split, w.tree, w.nextId, rfl, hspec.reshaped, hspec.nextId_eq,
      hspec.longest.of_aligned, hspells⟩

theorem matchPrefix_spec [DecidableEq κ] (hpos : 0 < pageSize) {cache : RadixCache κ ι}
    (hcache : cache.TreeOk pageSize) (now : ℤ) (key : RadixKey κ) :
    ∃ indices last cache' n, matchPrefix pageSize now cache key = .ok (indices, last, cache') ∧
      RadixTree.Longest pageSize cache.tree key n indices ∧
      cache'.tree.Spells last (key.take n) indices ∧ cache.SameContent pageSize cache' := by
  obtain ⟨indices, last, n, split, tree, nextId, heq, hshape, hnext, hlongest, hspells⟩ :=
    matchPrefix_reshaped hpos hcache now key
  exact ⟨indices, last, _, n, heq, hlongest, hspells, .of_reshaped hcache hshape hnext⟩

/-- Two pages of two tokens in one node. -/
def twoPages : RadixCache ℕ ℕ :=
  { tree := .cons ⟨0, ⟨[1, 2, 3, 4], none⟩, [10, 11, 12, 13], 0, 5, 5, 1, 0⟩ .nil .nil
    evictableSize := 4
    protectedSize := 0
    evictableLeaves := [0]
    nextId := 1 }

theorem twoPages_treeOk : twoPages.TreeOk 2 where
  wellFormed := by
    have hnil : RadixTree.WellFormed 2 (.nil : RadixTree ℕ ℕ) := ⟨List.nodup_nil, trivial⟩
    exact wellFormed_cons.mpr ⟨⟨by decide, by decide, rfl⟩, hnil, hnil, List.not_mem_nil⟩
  nodup := List.nodup_singleton 0
  lt_nextId := by decide

theorem matchPrefix_spec_twoPages :
    ∃ indices last cache' n, matchPrefix 2 7 twoPages ⟨[1, 2, 3, 5, 6], none⟩
        = .ok (indices, last, cache') ∧
      RadixTree.Longest 2 twoPages.tree ⟨[1, 2, 3, 5, 6], none⟩ n indices ∧
      cache'.tree.Spells last (RadixKey.take ⟨[1, 2, 3, 5, 6], none⟩ n) indices ∧
      twoPages.SameContent 2 cache' :=
  matchPrefix_spec Nat.two_pos twoPages_treeOk 7 ⟨[1, 2, 3, 5, 6], none⟩

example : (matchPrefix 2 7 twoPages ⟨[1, 2, 3, 5, 6], none⟩).map (fun r => (r.1, r.2.1))
    = .ok ([10, 11], some 1) := by decide

/-! ## Inserting -/

namespace RadixTree

variable {extraKey : Option String} {new : TreeNode κ ι}

/-- What a new leaf under the tokens and indices of `s` makes cached. -/
def NewlyCached (pageSize : ℕ) (extraKey : Option String) (s : List κ × List ι)
    (new : TreeNode κ ι) (tokens : List κ) (indices : List ι) : Prop :=
  new.key.extraKey = extraKey ∧ ∃ m, pageSize ∣ m ∧ m ≤ new.key.length ∧
    tokens = s.1 ++ new.key.tokenIds.take m ∧ indices = s.2 ++ new.value.take m

theorem newlyCached_onto {node : TreeNode κ ι} {s : List κ × List ι} {tokens : List κ}
    {indices : List ι} : NewlyCached pageSize extraKey (onto node s) new tokens indices ↔
      ∃ tokens' indices', tokens = node.key.tokenIds ++ tokens' ∧
        indices = node.value ++ indices' ∧
          NewlyCached pageSize extraKey s new tokens' indices' := by
  constructor
  · rintro ⟨hextra, m, hm, hle, rfl, rfl⟩
    exact ⟨_, _, List.append_assoc _ _ _, List.append_assoc _ _ _, hextra, m, hm, hle, rfl, rfl⟩
  · rintro ⟨tokens', indices', rfl, rfl, hextra, m, hm, hle, rfl, rfl⟩
    exact ⟨hextra, m, hm, hle, (List.append_assoc _ _ _).symm, (List.append_assoc _ _ _).symm⟩

theorem cached_addSibling (hnew : new.WellFormed pageSize) :
    ∀ {tree : RadixTree κ ι} {tokens : List κ} {indices : List ι},
      Cached pageSize extraKey (tree.addSibling new) tokens indices ↔
        Cached pageSize extraKey tree tokens indices ∨
          NewlyCached pageSize extraKey ([], []) new tokens indices
  | .nil, tokens, indices => by
    constructor
    · rintro (⟨hextra, ⟨m, hm, hle, rfl, rfl⟩ | ⟨_, _, rfl, rfl, rfl, rfl⟩⟩ | h)
      · exact .inr ⟨hextra, m, hm, hle, rfl, rfl⟩
      · refine .inr ⟨hextra, new.key.length, hnew.dvd, le_rfl, ?_, ?_⟩
        · rw [List.append_nil, List.nil_append]
          exact List.take_length.symm
        · rw [List.append_nil, List.nil_append, ← hnew.length_value, List.take_length]
      · exact .inl h
    · rintro (h | ⟨hextra, m, hm, hle, rfl, rfl⟩)
      · exact .inr h
      · exact .inl ⟨hextra, .inl ⟨m, hm, hle, rfl, rfl⟩⟩
  | .cons node children siblings, tokens, indices => by
    unfold Forest.addSibling Cached
    rw [cached_addSibling hnew, or_assoc]

/-- With a new leaf a tree caches what it cached, and what the leaf makes cached. -/
theorem cached_addChild (hnew : new.WellFormed pageSize) :
    ∀ {tree : RadixTree κ ι} {last : Option ℕ} {path : List (TreeNode κ ι)},
      tree.ids.Nodup → tree.pathOf last = some path →
        (∀ node ∈ path, node.key.extraKey = new.key.extraKey) →
          ∀ {tokens : List κ} {indices : List ι},
            Cached pageSize extraKey (tree.addChild TreeNode.id new last) tokens indices ↔
              Cached pageSize extraKey tree tokens indices ∨
                NewlyCached pageSize extraKey (spelling path) new tokens indices
  | tree, none, path, _, hpath, _, tokens, indices => by
    obtain rfl := Option.some.inj hpath
    exact cached_addSibling hnew
  | .nil, some i, path, _, hpath, _, _, _ => by cases hpath
  | .cons node children siblings, some i, path, hnodup, hpath, hextra, tokens, indices => by
    obtain ⟨⟨hid₁, hid₂⟩, hnodup₁, hnodup₂, hdisjoint⟩ := Forest.nodup_cons.mp hnodup
    -- in the branch with the new leaf, what it makes cached is below its first node
    have hbranch : ∀ {children' : RadixTree κ ι} {s : List κ × List ι},
        node.key.extraKey = new.key.extraKey →
        (∀ {tokens indices}, Cached pageSize extraKey children' tokens indices ↔
          Cached pageSize extraKey children tokens indices ∨
            NewlyCached pageSize extraKey s new tokens indices) →
        (Cached pageSize extraKey (.cons node children' siblings) tokens indices ↔
          Cached pageSize extraKey (.cons node children siblings) tokens indices ∨
            NewlyCached pageSize extraKey (onto node s) new tokens indices) := by
      intro children' s hnode hchildren
      rw [newlyCached_onto]
      simp only [Cached, hchildren]
      constructor
      · rintro (⟨he, h | ⟨_, _, rfl, rfl, h | h⟩⟩ | h)
        · exact .inl (.inl ⟨he, .inl h⟩)
        · exact .inl (.inl ⟨he, .inr ⟨_, _, rfl, rfl, h⟩⟩)
        · exact .inr ⟨_, _, rfl, rfl, h⟩
        · exact .inl (.inr h)
      · rintro ((⟨he, h | ⟨_, _, rfl, rfl, h⟩⟩ | h) | ⟨_, _, rfl, rfl, h⟩)
        · exact .inl ⟨he, .inl h⟩
        · exact .inl ⟨he, .inr ⟨_, _, rfl, rfl, .inl h⟩⟩
        · exact .inr h
        · exact .inl ⟨hnode.trans h.1, .inr ⟨_, _, rfl, rfl, .inr h⟩⟩
    rw [pathOf, Forest.path] at hpath
    change Cached pageSize extraKey (Forest.addBelow TreeNode.id new i
      (.cons node children siblings)) tokens indices ↔ _
    rw [Forest.addBelow]
    split_ifs at hpath ⊢ with hid
    · obtain rfl := Option.some.inj hpath
      rw [spelling_cons]
      exact hbranch (hextra node List.mem_cons_self) (cached_addSibling hnew)
    · rcases Option.or_eq_some_iff.mp hpath with hpath | ⟨hnone, hpath⟩
      · obtain ⟨below, hbelow, rfl⟩ := Option.map_eq_some_iff.mp hpath
        have hmem : i ∈ ids children := Forest.path_isSome.mp (by rw [hbelow]; rfl)
        rw [Forest.addBelow_of_notMem new fun h => hdisjoint hmem h, spelling_cons]
        exact hbranch (hextra node List.mem_cons_self)
          (@cached_addChild hnew children (some i) below hnodup₁ hbelow
            fun n hn => hextra n (List.mem_cons_of_mem _ hn))
      · have hnot : i ∉ ids children := Forest.path_eq_none.mp (Option.map_eq_none_iff.mp hnone)
        have ih := @cached_addChild hnew siblings (some i) path hnodup₂ hpath hextra tokens indices
        rw [Forest.addBelow_of_notMem new hnot]
        simp only [Cached, or_assoc]
        exact or_congr Iff.rfl ih

/-- The children of a node, or of the root. -/
def childrenOf (tree : RadixTree κ ι) : Option ℕ → Option (RadixTree κ ι)
  | none => some tree
  | some i => (tree.find TreeNode.id i).map Prod.snd

/-- What is cached below a node is cached after what the node spells. -/
theorem cached_below : ∀ {tree : RadixTree κ ι} {last : Option ℕ} {path : List (TreeNode κ ι)}
    {children : RadixTree κ ι}, tree.ids.Nodup → tree.pathOf last = some path →
      tree.childrenOf last = some children → (∀ node ∈ path, node.key.extraKey = extraKey) →
        ∀ {tokens : List κ} {indices : List ι},
          Cached pageSize extraKey children tokens indices →
            Cached pageSize extraKey tree ((spelling path).1 ++ tokens)
              ((spelling path).2 ++ indices)
  | tree, none, path, children, _, hpath, hchildren, _, tokens, indices, h => by
    obtain rfl := Option.some.inj hpath
    obtain rfl := Option.some.inj hchildren
    exact h
  | .nil, some i, path, _, _, hpath, _, _, _, _, _ => by cases hpath
  | .cons node below siblings, some i, path, children, hnodup, hpath, hchildren, hextra, tokens,
      indices, h => by
    obtain ⟨⟨hid₁, hid₂⟩, hnodup₁, hnodup₂, hdisjoint⟩ := Forest.nodup_cons.mp hnodup
    have honto : ∀ s : List κ × List ι, node.key.extraKey = extraKey →
        Cached pageSize extraKey below (s.1 ++ tokens) (s.2 ++ indices) →
          Cached pageSize extraKey (.cons node below siblings) ((onto node s).1 ++ tokens)
            ((onto node s).2 ++ indices) := fun s he hs =>
      .inl ⟨he, .inr ⟨_, _, List.append_assoc _ _ _, List.append_assoc _ _ _, hs⟩⟩
    rw [pathOf, Forest.path] at hpath
    rw [childrenOf, Forest.find] at hchildren
    split_ifs at hpath hchildren with hid
    · obtain rfl := Option.some.inj hpath
      obtain rfl := Option.some.inj hchildren
      exact honto ([], []) (hextra node List.mem_cons_self) h
    · rcases Option.or_eq_some_iff.mp hpath with hpath | ⟨hnone, hpath⟩
      · obtain ⟨path', hpath', rfl⟩ := Option.map_eq_some_iff.mp hpath
        have hmem : i ∈ ids below := Forest.path_isSome.mp (by rw [hpath']; rfl)
        obtain ⟨x, kids, hfind⟩ := Forest.exists_find hmem
        rw [hfind, Option.some_or] at hchildren
        obtain rfl := Option.some.inj hchildren
        rw [spelling_cons]
        exact honto _ (hextra node List.mem_cons_self)
          (@cached_below below (some i) path' kids hnodup₁ hpath'
            (by rw [childrenOf, hfind]; rfl)
            (fun n hn => hextra n (List.mem_cons_of_mem _ hn)) _ _ h)
      · have hnot : i ∉ ids below := Forest.path_eq_none.mp (Option.map_eq_none_iff.mp hnone)
        rw [Forest.find_eq_none.mpr hnot, Option.none_or] at hchildren
        exact .inr
          (@cached_below siblings (some i) path children hnodup₂ hpath hchildren hextra _ _ h)

theorem cached_top {node : TreeNode κ ι} (hpage : pageSize ≤ node.key.length) :
    ∀ {tree : RadixTree κ ι}, node ∈ tree.top →
      Cached pageSize node.key.extraKey tree (node.key.tokenIds.take pageSize)
        (node.value.take pageSize)
  | .cons first children siblings, h => by
    rcases List.mem_cons.mp h with rfl | h
    · exact .inl ⟨rfl, .inl ⟨pageSize, Nat.dvd_refl _, hpage, rfl, rfl⟩⟩
    · exact .inr (cached_top hpage h)

theorem WellFormed.of_mem_top : ∀ {tree : RadixTree κ ι} {node : TreeNode κ ι},
    WellFormed pageSize tree → node ∈ tree.top → node.WellFormed pageSize
  | .cons first children siblings, node, hwf, h => by
    obtain ⟨hfirst, -, hsiblings, -⟩ := wellFormed_cons.mp hwf
    rcases List.mem_cons.mp h with rfl | h
    · exact hfirst
    · exact hsiblings.of_mem_top h

theorem WellFormed.of_childrenOf : ∀ {tree : RadixTree κ ι} {last : Option ℕ}
    {children : RadixTree κ ι}, WellFormed pageSize tree → tree.childrenOf last = some children →
      WellFormed pageSize children
  | tree, none, children, hwf, h => by
    obtain rfl := Option.some.inj h
    exact hwf
  | .nil, some i, _, _, h => by cases h
  | .cons node below siblings, some i, children, hwf, h => by
    obtain ⟨-, hbelow, hsiblings, -⟩ := wellFormed_cons.mp hwf
    rw [childrenOf, Forest.find] at h
    split_ifs at h
    · obtain rfl := Option.some.inj h
      exact hbelow
    · rw [Option.map_or] at h
      rcases Option.or_eq_some_iff.mp h with h | ⟨-, h⟩
      · exact @WellFormed.of_childrenOf below (some i) children hbelow h
      · exact @WellFormed.of_childrenOf siblings (some i) children hsiblings h

theorem WellFormed.addSibling (hnew : new.WellFormed pageSize) : ∀ {tree : RadixTree κ ι},
    WellFormed pageSize tree → getChildKey pageSize new.key ∉ childKeys pageSize tree →
      WellFormed pageSize (tree.addSibling new)
  | .nil, hwf, _ => wellFormed_cons.mpr ⟨hnew, hwf, hwf, by simp [childKeys, Forest.top]⟩
  | .cons node children siblings, hwf, hfresh => by
    obtain ⟨hnode, hchildren, hsiblings, hfirst⟩ := wellFormed_cons.mp hwf
    obtain ⟨hne, hfresh⟩ := not_or.mp (mt List.mem_cons.mpr hfresh)
    refine wellFormed_cons.mpr ⟨hnode, hchildren, hsiblings.addSibling hnew hfresh, ?_⟩
    rw [childKeys, Forest.top_addSibling, List.map_append, List.mem_append, not_or]
    exact ⟨hfirst, fun h => hne (List.mem_singleton.mp h).symm⟩

theorem WellFormed.addChild (hnew : new.WellFormed pageSize) : ∀ {tree : RadixTree κ ι}
    {last : Option ℕ} {children : RadixTree κ ι}, WellFormed pageSize tree → tree.ids.Nodup →
      tree.childrenOf last = some children →
        getChildKey pageSize new.key ∉ childKeys pageSize children →
          WellFormed pageSize (tree.addChild TreeNode.id new last)
  | tree, none, children, hwf, _, h, hfresh => by
    obtain rfl := Option.some.inj h
    exact hwf.addSibling hnew hfresh
  | .nil, some i, _, _, _, h, _ => by cases h
  | .cons node below siblings, some i, children, hwf, hnodup, h, hfresh => by
    obtain ⟨hnode, hbelow, hsiblings, hfirst⟩ := wellFormed_cons.mp hwf
    obtain ⟨-, hnodup₁, hnodup₂, hdisjoint⟩ := Forest.nodup_cons.mp hnodup
    change WellFormed pageSize (Forest.addBelow TreeNode.id new i (.cons node below siblings))
    rw [childrenOf, Forest.find] at h
    rw [Forest.addBelow]
    split_ifs at h ⊢
    · obtain rfl := Option.some.inj h
      exact wellFormed_cons.mpr ⟨hnode, hbelow.addSibling hnew hfresh, hsiblings, hfirst⟩
    · rw [Option.map_or] at h
      rcases Option.or_eq_some_iff.mp h with h | ⟨hnone, h⟩
      · obtain ⟨entry, hfind, -⟩ := Option.map_eq_some_iff.mp h
        rw [Forest.addBelow_of_notMem new fun h' => hdisjoint (Forest.mem_ids_of_find hfind) h']
        exact wellFormed_cons.mpr
          ⟨hnode, @WellFormed.addChild hnew below (some i) children hbelow hnodup₁ h hfresh,
            hsiblings, hfirst⟩
      · rw [Forest.addBelow_of_notMem new
          (Forest.find_eq_none.mp (Option.map_eq_none_iff.mp hnone))]
        refine wellFormed_cons.mpr ⟨hnode, hbelow,
          @WellFormed.addChild hnew siblings (some i) children hsiblings hnodup₂ h hfresh, ?_⟩
        change _ ∉ ((Forest.addBelow TreeNode.id new i siblings).top.map _)
        rw [Forest.top_addBelow]
        exact hfirst

/-- A prefix in whole pages of what is cached is cached. -/
theorem Cached.take : ∀ {tree : RadixTree κ ι} {tokens : List κ} {indices : List ι} {m : ℕ},
    WellFormed pageSize tree → Cached pageSize extraKey tree tokens indices → pageSize ∣ m →
      m ≤ tokens.length → Cached pageSize extraKey tree (tokens.take m) (indices.take m)
  | .nil, tokens, indices, m, _, h, _, _ => by
    obtain ⟨rfl, rfl⟩ := h
    exact ⟨List.take_nil, List.take_nil⟩
  | .cons node children siblings, tokens, indices, m, hwf, h, hm, hle => by
    obtain ⟨hnode, hchildren, hsiblings, -⟩ := wellFormed_cons.mp hwf
    rcases h with ⟨hextra, ⟨n, -, hn, rfl, rfl⟩ | ⟨tokens', indices', rfl, rfl, h⟩⟩ | h
    · rw [List.length_take_of_le hn] at hle
      refine .inl ⟨hextra, .inl ⟨m, hm, hle.trans hn, ?_, ?_⟩⟩ <;>
        rw [List.take_take, Nat.min_eq_left hle]
    · have hlen : node.key.tokenIds.length = node.key.length := rfl
      have hvalue := hnode.length_value
      rcases Nat.le_total m node.key.length with hmn | hmn
      · refine .inl ⟨hextra, .inl ⟨m, hm, hmn, ?_, ?_⟩⟩ <;>
          rw [List.take_append_of_le_length (by omega)]
      · obtain ⟨d, rfl⟩ := Nat.exists_eq_add_of_le hmn
        rw [List.length_append] at hle
        refine .inl ⟨hextra, .inr ⟨_, _, ?_, ?_,
          h.take hchildren ((Nat.dvd_add_right hnode.dvd).mp hm) (by omega)⟩⟩
        · rw [← hlen, List.take_length_add_append]
        · rw [← hvalue, List.take_length_add_append]
    · exact .inr (h.take hsiblings hm hle)

theorem ids_addChild_perm {tree : RadixTree κ ι} {last : Option ℕ} (hnodup : tree.ids.Nodup)
    (hlast : ∀ i, last = some i → i ∈ tree.ids) :
    (ids (tree.addChild TreeNode.id new last)).Perm (new.id :: tree.ids) :=
  (Forest.nodes_addChild_perm new hnodup hlast).map TreeNode.id

theorem spells_addChild {tree : RadixTree κ ι} (last : Option ℕ) (hnew : new.id ∉ tree.ids)
    {node : Option ℕ} {key : RadixKey κ} {indices : List ι} (h : Spells tree node key indices) :
    Spells (tree.addChild TreeNode.id new last) node key indices := by
  cases node with
  | none => exact h
  | some i =>
    refine h.of_samePath fun path hpath => ⟨path, ?_, .refl path⟩
    have hi : new.id ≠ i := fun heq => hnew (heq ▸ Forest.path_isSome.mp (by rw [hpath]; rfl))
    cases last with
    | none => exact (Forest.path_addSibling_of_ne hi tree).trans hpath
    | some j => exact (Forest.path_addBelow_of_ne hi tree).trans hpath

end RadixTree

/-- A new leaf for the rest of a key does not share a first page with the children it goes among,
where the cached prefix was the longest. -/
theorem RadixTree.Longest.notMem_childKeys {tree tree' : RadixTree κ ι} {key : RadixKey κ} {n : ℕ}
    {indices : List ι} {last : Option ℕ} {path : List (TreeNode κ ι)} {children : RadixTree κ ι}
    (h : Longest pageSize tree key n indices) (hpos : 0 < pageSize) (hkey : pageSize ∣ key.length)
    (hlt : n < key.length) (hwf : tree'.WellFormed pageSize) (hnodup : tree'.ids.Nodup)
    (hcached : ∀ {extraKey tokens indices}, Cached pageSize extraKey tree' tokens indices →
      Cached pageSize extraKey tree tokens indices)
    (hpath : tree'.pathOf last = some path) (hspelling : (spelling path).1 = key.tokenIds.take n)
    (hextra : ∀ node ∈ path, node.key.extraKey = key.extraKey)
    (hchildren : tree'.childrenOf last = some children) :
    getChildKey pageSize (key.drop n) ∉ childKeys pageSize children := by
  intro hmem
  obtain ⟨node, hnode, hchild⟩ := List.mem_map.mp hmem
  obtain ⟨hextra', hpage⟩ := Prod.mk.inj hchild
  have hnodeWf := (hwf.of_childrenOf hchildren).of_mem_top hnode
  have hpage' : pageSize ≤ node.key.length := Nat.le_of_dvd hnodeWf.pos hnodeWf.dvd
  have hfirst := cached_top hpage' hnode
  rw [show node.key.extraKey = key.extraKey from hextra', show node.key.tokenIds.take pageSize
    = (key.tokenIds.drop n).take pageSize from hpage] at hfirst
  have hfurther := hcached (cached_below hnodup hpath hchildren hextra hfirst)
  rw [hspelling, ← List.take_add] at hfurther
  have hroom : pageSize ≤ key.length - n := Nat.le_of_dvd (by omega) (Nat.dvd_sub hkey h.dvd)
  have := h.longest (Nat.dvd_add h.dvd (Nat.dvd_refl _)) (by omega) hfurther
  omega

/-- The cache with a new leaf. -/
def RadixCache.addLeaf (cache : RadixCache κ ι) (new : TreeNode κ ι) (last : Option ℕ) :
    RadixCache κ ι :=
  let tree := cache.tree.addChild TreeNode.id new last
  { cache with
    tree := tree
    evictableSize := cache.evictableSize + new.key.length
    evictableLeaves := updateLeafStatus tree (updateLeafStatus tree cache.evictableLeaves last)
      (some new.id)
    nextId := cache.nextId + 1 }

/-- A leaf for the rest of a key, and the node it goes below, which spells the cached prefix. -/
structure NewLeaf (pageSize : ℕ) (cache : RadixCache κ ι) (key : RadixKey κ) (value : List ι)
    (n : ℕ) (indices : List ι) (new : TreeNode κ ι) (last : Option ℕ)
    (path : List (TreeNode κ ι)) (children : RadixTree κ ι) : Prop where
  wellFormed : new.WellFormed pageSize
  id_eq : new.id = cache.nextId
  key_eq : new.key = key.drop n
  value_eq : new.value = value.drop n
  lockRef_eq : new.lockRef = 0
  path_eq : cache.tree.pathOf last = some path
  spelling_eq : RadixTree.spelling path = (key.tokenIds.take n, indices)
  extraKey_eq : ∀ node ∈ path, node.key.extraKey = key.extraKey
  children_eq : cache.tree.childrenOf last = some children
  fresh : getChildKey pageSize new.key ∉ childKeys pageSize children

theorem NewLeaf.mem_ids {cache : RadixCache κ ι} {key : RadixKey κ} {value : List ι} {n : ℕ}
    {indices : List ι} {new : TreeNode κ ι} {last : Option ℕ} {path : List (TreeNode κ ι)}
    {children : RadixTree κ ι}
    (h : NewLeaf pageSize cache key value n indices new last path children) (i : ℕ)
    (hi : last = some i) : i ∈ cache.tree.ids := by
  have hpath := h.path_eq
  rw [hi] at hpath
  exact Forest.path_isSome.mp (Option.isSome_iff_exists.mpr ⟨_, hpath⟩)

/-- What `insert` does : a walk, and a new leaf unless it went along the whole key. -/
inductive Inserted (pageSize : ℕ) (cache : RadixCache κ ι) (key : RadixKey κ) (value : List ι) :
    ℕ → List ι → RadixCache κ ι → Prop
  | found {split : Bool} {tree : RadixTree κ ι} {nextId : ℕ} {indices : List ι}
      (hshape : Reshaped pageSize cache.nextId split cache.tree tree)
      (hnext : nextId = if split then cache.nextId + 1 else cache.nextId)
      (hlongest : RadixTree.Longest pageSize cache.tree key key.length indices) :
      Inserted pageSize cache key value key.length indices
        { cache with tree := tree, nextId := nextId }
  | added {split : Bool} {tree : RadixTree κ ι} {nextId n : ℕ} {indices : List ι}
      {new : TreeNode κ ι} {last : Option ℕ} {path : List (TreeNode κ ι)}
      {children : RadixTree κ ι}
      (hshape : Reshaped pageSize cache.nextId split cache.tree tree)
      (hnext : nextId = if split then cache.nextId + 1 else cache.nextId)
      (hlongest : RadixTree.Longest pageSize cache.tree key n indices)
      (hleaf : NewLeaf pageSize { cache with tree := tree, nextId := nextId } key value n indices
        new last path children) :
      Inserted pageSize cache key value n indices
        (RadixCache.addLeaf { cache with tree := tree, nextId := nextId } new last)

theorem RadixTree.exists_childrenOf {tree : RadixTree κ ι} {last : Option ℕ}
    {path : List (TreeNode κ ι)} (h : tree.pathOf last = some path) :
    ∃ children, tree.childrenOf last = some children := by
  cases last with
  | none => exact ⟨tree, rfl⟩
  | some i =>
    rw [pathOf] at h
    obtain ⟨node, children, hfind⟩ := Forest.exists_find (Forest.path_isSome.mp (by rw [h]; rfl))
    exact ⟨children, by rw [childrenOf, hfind]; rfl⟩

theorem insertHelper_inserted [DecidableEq κ] (hpos : 0 < pageSize) {cache : RadixCache κ ι}
    (hcache : cache.TreeOk pageSize) {key : RadixKey κ} {value : List ι}
    (hkey : pageSize ∣ key.length) (hvalue : value.length = key.length) (now priority : ℤ)
    (chunked : Bool) :
    ∃ n indices cache',
      insertHelper pageSize now cache key value priority chunked = .ok (n, cache') ∧
      Inserted pageSize cache key value n indices cache' := by
  unfold insertHelper
  by_cases hempty : key.length = 0
  · rw [if_pos hempty]
    have hlongest : RadixTree.Longest pageSize cache.tree key key.length [] := by
      rw [hempty]
      exact RadixTree.longest_of_empty hempty
    exact ⟨_, _, cache, by rw [← hempty], .found (.refl _) rfl hlongest⟩
  rw [if_neg hempty]
  obtain ⟨w, split, hw, hspec⟩ := @walkPrefix_spec κ ι pageSize _
    (markInserted priority chunked) now cache.nextId hpos (fun _ => ⟨rfl, rfl, rfl, rfl⟩) cache.tree
    key hcache.wellFormed hkey (Nat.pos_of_ne_zero hempty)
  obtain ⟨path, hpath, hspelling, hextra⟩ := hspec.spells hcache.fresh hcache.nodup
  obtain ⟨children, hchildren⟩ := RadixTree.exists_childrenOf hpath
  have hok := hcache.reshaped hspec.reshaped hspec.nextId_eq
  have hdrop : (key.drop w.prefixLen).length = key.length - w.prefixLen := by
    simp [RadixKey.drop, RadixKey.length]
  have hle := hspec.longest.le
  rw [hw]
  dsimp only [bind, Except.bind]
  by_cases hrest : (key.drop w.prefixLen).length = 0
  · obtain hwhole : w.prefixLen = key.length := by omega
    have hlongest := hspec.longest
    rw [hwhole] at hlongest
    rw [if_pos hrest, hwhole]
    exact ⟨_, _, _, rfl, .found hspec.reshaped hspec.nextId_eq hlongest⟩
  · rw [if_neg hrest]
    refine ⟨_, _, _, rfl, .added hspec.reshaped hspec.nextId_eq hspec.longest
      ⟨⟨?_, ?_, ?_⟩, rfl, rfl, rfl, rfl, hpath, hspelling, hextra, hchildren, ?_⟩⟩
    · exact Nat.pos_of_ne_zero hrest
    · exact hdrop ▸ Nat.dvd_sub hkey hspec.longest.dvd
    · simp [RadixKey.drop, RadixKey.length] at hvalue ⊢
      omega
    · exact hspec.longest.notMem_childKeys hpos hkey (by omega) hok.wellFormed hok.nodup
        (hspec.reshaped.cached_iff _).mp hpath (by rw [hspelling]; rfl) hextra hchildren

namespace Inserted

variable {cache cache' : RadixCache κ ι} {key : RadixKey κ} {value : List ι} {n : ℕ}
  {indices : List ι}

theorem longest (h : Inserted pageSize cache key value n indices cache') :
    RadixTree.Longest pageSize cache.tree key n indices := by
  cases h with
  | found hshape hnext hlongest => exact hlongest
  | added hshape hnext hlongest hleaf => exact hlongest

theorem treeOk (h : Inserted pageSize cache key value n indices cache')
    (hcache : cache.TreeOk pageSize) : cache'.TreeOk pageSize := by
  cases h with
  | found hshape hnext hlongest => exact hcache.reshaped hshape hnext
  | @added split tree nextId _ _ new last path children hshape hnext hlongest hleaf =>
    have hok := hcache.reshaped hshape hnext
    have hperm : (RadixTree.ids (tree.addChild TreeNode.id new last)).Perm (new.id :: tree.ids) :=
      RadixTree.ids_addChild_perm hok.nodup hleaf.mem_ids
    refine ⟨hok.wellFormed.addChild hleaf.wellFormed hok.nodup hleaf.children_eq hleaf.fresh,
      ?_, ?_⟩
    · refine hperm.nodup_iff.mpr (List.nodup_cons.mpr ⟨?_, hok.nodup⟩)
      rw [hleaf.id_eq]
      exact hok.fresh
    · intro i hi
      change i < nextId + 1
      rcases List.mem_cons.mp (hperm.mem_iff.mp hi) with rfl | hi
      · rw [hleaf.id_eq]
        exact Nat.lt_succ_self _
      · exact Nat.lt_succ_of_lt (hok.lt_nextId i hi)

theorem spells (h : Inserted pageSize cache key value n indices cache')
    (hcache : cache.TreeOk pageSize) {last : Option ℕ} {key' : RadixKey κ} {indices' : List ι}
    (hspells : RadixTree.Spells cache.tree last key' indices') :
    RadixTree.Spells cache'.tree last key' indices' := by
  cases h with
  | found hshape hnext hlongest => exact hshape.spells hcache.fresh hspells
  | added hshape hnext hlongest hleaf =>
    refine RadixTree.spells_addChild _ ?_ (hshape.spells hcache.fresh hspells)
    rw [hleaf.id_eq]
    exact (hcache.reshaped hshape hnext).fresh

/-- The indices past the cached prefix are stored. -/
theorem allValues_perm (h : Inserted pageSize cache key value n indices cache')
    (hcache : cache.TreeOk pageSize) (hvalue : value.length = key.length) :
    cache'.tree.allValues.Perm (value.drop n ++ cache.tree.allValues) := by
  cases h with
  | found hshape hnext hlongest =>
    rw [List.drop_of_length_le hvalue.le, List.nil_append]
    exact .of_eq hshape.allValues_eq
  | @added split tree nextId _ _ new last path children hshape hnext hlongest hleaf =>
    have hok := hcache.reshaped hshape hnext
    have hperm : (RadixTree.allValues (tree.addChild TreeNode.id new last)).Perm
        (new.value ++ tree.allValues) :=
      (Forest.nodes_addChild_perm new hok.nodup hleaf.mem_ids).flatMap_right TreeNode.value
    rw [hleaf.value_eq, hshape.allValues_eq] at hperm
    exact hperm

/-- The cached prefix with the new indices behind it, cut at a page. -/
theorem cached_iff (h : Inserted pageSize cache key value n indices cache')
    (hcache : cache.TreeOk pageSize) {extraKey : Option String} {tokens : List κ}
    {indices' : List ι} :
    RadixTree.Cached pageSize extraKey cache'.tree tokens indices' ↔
      RadixTree.Cached pageSize extraKey cache.tree tokens indices' ∨
        (extraKey = key.extraKey ∧ ∃ m, pageSize ∣ m ∧ m ≤ key.length ∧
          tokens = key.tokenIds.take m ∧ indices' = (indices ++ value.drop n).take m) := by
  have hlen : (key.tokenIds.take n).length = n := List.length_take_of_le h.longest.le
  have hindices : indices.length = n := (h.longest.cached.length_eq hcache.wellFormed).2.trans hlen
  have hshort : ∀ {m}, pageSize ∣ m → m ≤ n → RadixTree.Cached pageSize key.extraKey cache.tree
      (key.tokenIds.take m) ((indices ++ value.drop n).take m) := fun {m} hm hle => by
    have htake := h.longest.cached.take hcache.wellFormed hm (hlen.symm ▸ hle)
    rw [List.take_take, Nat.min_eq_left hle] at htake
    rwa [List.take_append_of_le_length (by omega)]
  cases h with
  | found hshape hnext hlongest =>
    dsimp only
    rw [hshape.cached_iff]
    refine ⟨.inl, ?_⟩
    rintro (h | ⟨rfl, m, hm, hmle, rfl, rfl⟩)
    · exact h
    · exact hshort hm hmle
  | @added split tree nextId _ _ new last path children hshape hnext hlongest hleaf =>
    have hok := hcache.reshaped hshape hnext
    have hle := hlongest.le
    have hnew : new.key.extraKey = key.extraKey := by rw [hleaf.key_eq]; rfl
    have hnewlen : new.key.length = key.length - n := by
      rw [hleaf.key_eq]
      simp [RadixKey.drop, RadixKey.length]
    refine (RadixTree.cached_addChild hleaf.wellFormed hok.nodup hleaf.path_eq fun node hnode =>
      (hleaf.extraKey_eq node hnode).trans hnew.symm).trans ?_
    rw [hshape.cached_iff, RadixTree.NewlyCached, hleaf.spelling_eq, hnew, hleaf.key_eq,
      hleaf.value_eq]
    constructor
    · rintro (h | ⟨rfl, m, hm, hmle, rfl, rfl⟩)
      · exact .inl h
      · rw [← hleaf.key_eq] at hmle
        refine .inr ⟨rfl, n + m, Nat.dvd_add hlongest.dvd hm, by omega, ?_, ?_⟩
        · exact List.take_add.symm
        · rw [← hindices, List.take_length_add_append]
    · rintro (h | ⟨rfl, m, hm, hmle, rfl, rfl⟩)
      · exact .inl h
      · rcases Nat.le_total m n with hmn | hmn
        · exact .inl (hshort hm hmn)
        · obtain ⟨d, rfl⟩ := Nat.exists_eq_add_of_le hmn
          refine .inr ⟨rfl, d, (Nat.dvd_add_right hlongest.dvd).mp hm, ?_, ?_, ?_⟩
          · rw [← hleaf.key_eq]
            omega
          · exact List.take_add
          · rw [← hindices, List.take_length_add_append]

end Inserted

/-- The keys of `insert` are in whole pages, with an index each token. -/
theorem insertHelper_spec [DecidableEq κ] (hpos : 0 < pageSize) {cache : RadixCache κ ι}
    (hcache : cache.TreeOk pageSize) {key : RadixKey κ} {value : List ι}
    (hkey : pageSize ∣ key.length) (hvalue : value.length = key.length) (now priority : ℤ)
    (chunked : Bool) :
    ∃ n indices cache',
      insertHelper pageSize now cache key value priority chunked = .ok (n, cache') ∧
      RadixTree.Longest pageSize cache.tree key n indices ∧ cache'.TreeOk pageSize ∧
      (∀ {extraKey tokens indices'},
        RadixTree.Cached pageSize extraKey cache'.tree tokens indices' ↔
        RadixTree.Cached pageSize extraKey cache.tree tokens indices' ∨
          (extraKey = key.extraKey ∧ ∃ m, pageSize ∣ m ∧ m ≤ key.length ∧
            tokens = key.tokenIds.take m ∧ indices' = (indices ++ value.drop n).take m)) ∧
      ∀ {last key' indices'}, cache.tree.Spells last key' indices' →
        cache'.tree.Spells last key' indices' := by
  obtain ⟨n, indices, cache', heq, h⟩ := insertHelper_inserted hpos hcache hkey hvalue now priority
    chunked
  exact ⟨n, indices, cache', heq, h.longest, h.treeOk hcache, h.cached_iff hcache,
    h.spells hcache⟩

theorem insertHelper_spec_twoPages :
    ∃ n indices cache',
      insertHelper 2 7 twoPages ⟨[1, 2, 5, 6], none⟩ [20, 21, 22, 23] 0 false = .ok (n, cache') ∧
      RadixTree.Longest 2 twoPages.tree ⟨[1, 2, 5, 6], none⟩ n indices ∧ cache'.TreeOk 2 ∧
      (∀ {extraKey tokens indices'}, RadixTree.Cached 2 extraKey cache'.tree tokens indices' ↔
        RadixTree.Cached 2 extraKey twoPages.tree tokens indices' ∨
          (extraKey = none ∧ ∃ m, 2 ∣ m ∧ m ≤ 4 ∧ tokens = [1, 2, 5, 6].take m ∧
            indices' = (indices ++ [20, 21, 22, 23].drop n).take m)) ∧
      ∀ {last key' indices'}, twoPages.tree.Spells last key' indices' →
        cache'.tree.Spells last key' indices' :=
  @insertHelper_spec ℕ ℕ 2 _ Nat.two_pos twoPages twoPages_treeOk ⟨[1, 2, 5, 6], none⟩
    [20, 21, 22, 23] ⟨2, rfl⟩ rfl 7 0 false

end DraftOpd
