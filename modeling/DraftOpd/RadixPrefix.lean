import DraftOpd.RadixCache

/-!
# Prefixes in the radix tree

What a tree holds is which page-aligned sequences it caches, with which KV indices (`Cached`). In a
well-formed tree, where siblings differ in their first page, a sequence has one list of indices
(`Cached.unique`).
-/

namespace DraftOpd

variable {κ ι : Type} {pageSize : ℕ}

/-! ## Matching keys -/

/-- `n` is where two keys part, in whole pages. -/
structure IsMatch (pageSize : ℕ) (key0 key1 : List κ) (n : ℕ) : Prop where
  dvd : pageSize ∣ n
  le_left : n ≤ key0.length
  le_right : n ≤ key1.length
  take_eq : key0.take n = key1.take n
  parts : n < key0.length → n < key1.length →
    (key0.drop n).take pageSize ≠ (key1.drop n).take pageSize

theorem isMatch_pageSize1 [DecidableEq κ] : ∀ key0 key1 : List κ,
    IsMatch 1 key0 key1 (keyMatchPageSize1 key0 key1)
  | [], key1 => by
    unfold keyMatchPageSize1
    exact ⟨Nat.one_dvd 0, by simp, by simp, by simp, by simp⟩
  | k0 :: key0, [] => by
    unfold keyMatchPageSize1
    exact ⟨Nat.one_dvd 0, by simp, by simp, by simp, by simp⟩
  | k0 :: key0, k1 :: key1 => by
    have ih := isMatch_pageSize1 key0 key1
    unfold keyMatchPageSize1
    split_ifs with h
    · refine ⟨Nat.one_dvd _, Nat.succ_le_succ ih.le_left, Nat.succ_le_succ ih.le_right, ?_,
        fun h0 h1 => ih.parts (Nat.lt_of_succ_lt_succ h0) (Nat.lt_of_succ_lt_succ h1)⟩
      rw [List.take_succ_cons, List.take_succ_cons, h, ih.take_eq]
    · exact ⟨Nat.one_dvd _, by simp, by simp, by simp, fun _ _ => by simpa using h⟩

/-- In whole pages the loop stays in both keys. -/
theorem isMatch_paged [DecidableEq κ] {key0 key1 : List κ} (hpos : 0 < pageSize)
    (h0 : pageSize ∣ key0.length) (h1 : pageSize ∣ key1.length) :
    ∀ {fuel i : ℕ}, pageSize ∣ i → i ≤ key0.length → i ≤ key1.length →
      key0.take i = key1.take i → min key0.length key1.length ≤ i + fuel →
        IsMatch pageSize key0 key1 (keyMatchPaged pageSize key0 key1 fuel i)
  | 0, i, hi, hi0, hi1, htake, hfuel => by
    unfold keyMatchPaged
    exact ⟨hi, hi0, hi1, htake, by omega⟩
  | fuel + 1, i, hi, hi0, hi1, htake, hfuel => by
    have hpage : ∀ {n}, pageSize ∣ n → i < n → i + pageSize ≤ n := fun hn hlt => by
      have := Nat.le_of_dvd (Nat.sub_pos_of_lt hlt) (Nat.dvd_sub hn hi)
      omega
    unfold keyMatchPaged
    split_ifs with hlt hsame
    · refine isMatch_paged hpos h0 h1 (Nat.dvd_add hi (Nat.dvd_refl _)) (hpage h0 (by omega))
        (hpage h1 (by omega)) ?_ (by omega)
      rw [List.take_add, List.take_add, htake, hsame]
    · exact ⟨hi, hi0, hi1, htake, fun _ _ => hsame⟩
    · exact ⟨hi, hi0, hi1, htake, fun h0 h1 => absurd (Nat.lt_min.mpr ⟨h0, h1⟩) hlt⟩

theorem IsMatch.le_of_take_eq {key0 key1 : List κ} {n m : ℕ} (h : IsMatch pageSize key0 key1 n)
    (hm : pageSize ∣ m) (h0 : m ≤ key0.length) (h1 : m ≤ key1.length)
    (htake : key0.take m = key1.take m) : m ≤ n := by
  by_contra hlt
  have hpage := Nat.le_of_dvd (by omega) (Nat.dvd_sub hm h.dvd)
  refine h.parts (by omega) (by omega) ?_
  have hdrop := congrArg (fun l => (l.drop n).take pageSize) htake
  simpa [List.drop_take, List.take_take, Nat.min_eq_left hpage] using hdrop

/-- Keys in whole pages with the same first page match, at least there. -/
theorem keyMatch_spec [DecidableEq κ] {key0 key1 : RadixKey κ} (hpos : 0 < pageSize)
    (h0 : pageSize ∣ key0.length) (h1 : pageSize ∣ key1.length) (hpos0 : 0 < key0.length)
    (hpos1 : 0 < key1.length) (hchild : getChildKey pageSize key0 = getChildKey pageSize key1) :
    ∃ n, keyMatch pageSize key0 key1 = .ok n ∧ IsMatch pageSize key0.tokenIds key1.tokenIds n ∧
      0 < n := by
  obtain ⟨hextra, hpage⟩ := Prod.mk.inj hchild
  have hle0 := Nat.le_of_dvd hpos0 h0
  have hle1 := Nat.le_of_dvd hpos1 h1
  unfold keyMatch
  rw [if_neg (not_not.mpr hextra)]
  split_ifs with hone
  · subst hone
    have hmatch := isMatch_pageSize1 key0.tokenIds key1.tokenIds
    exact ⟨_, rfl, hmatch, hmatch.le_of_take_eq (Nat.dvd_refl 1) hle0 hle1 hpage⟩
  · have hmatch : IsMatch pageSize key0.tokenIds key1.tokenIds (keyMatchPaged pageSize
        key0.tokenIds key1.tokenIds (min key0.length key1.length) 0) :=
      isMatch_paged hpos h0 h1 (Nat.dvd_zero _) (Nat.zero_le _) (Nat.zero_le _) rfl
        (by unfold RadixKey.length; omega)
    exact ⟨_, rfl, hmatch, hpos.trans_le
      (hmatch.le_of_take_eq (Nat.dvd_refl _) hle0 hle1 hpage)⟩

/-! ## Well-formed trees -/

/-- The first pages of the nodes at the top. -/
def childKeys (pageSize : ℕ) (tree : RadixTree κ ι) : List (Option String × List κ) :=
  tree.top.map fun node => getChildKey pageSize node.key

/-- A node holds whole pages, with an index each token. -/
structure TreeNode.WellFormed (pageSize : ℕ) (node : TreeNode κ ι) : Prop where
  pos : 0 < node.key.length
  dvd : pageSize ∣ node.key.length
  length_value : node.value.length = node.key.length

/-- Siblings differ in their first pages. -/
def RadixTree.WellFormed (pageSize : ℕ) (tree : RadixTree κ ι) : Prop :=
  (childKeys pageSize tree).Nodup ∧
    tree.Forall fun node children =>
      node.WellFormed pageSize ∧ (childKeys pageSize children).Nodup

theorem wellFormed_cons {node : TreeNode κ ι} {children siblings : RadixTree κ ι} :
    RadixTree.WellFormed pageSize (.cons node children siblings) ↔
      node.WellFormed pageSize ∧ RadixTree.WellFormed pageSize children ∧
        RadixTree.WellFormed pageSize siblings ∧
          getChildKey pageSize node.key ∉ childKeys pageSize siblings := by
  unfold RadixTree.WellFormed
  rw [show childKeys pageSize (.cons node children siblings)
    = getChildKey pageSize node.key :: childKeys pageSize siblings from rfl, List.nodup_cons,
    Forest.Forall]
  tauto

/-- The page-aligned sequences of a namespace that a tree caches, with their KV indices. -/
def RadixTree.Cached (pageSize : ℕ) (extraKey : Option String) :
    RadixTree κ ι → List κ → List ι → Prop
  | .nil, tokens, indices => tokens = [] ∧ indices = []
  | .cons node children siblings, tokens, indices =>
    (node.key.extraKey = extraKey ∧
      ((∃ n, pageSize ∣ n ∧ n ≤ node.key.length ∧ tokens = node.key.tokenIds.take n ∧
          indices = node.value.take n) ∨
        ∃ tokens' indices', tokens = node.key.tokenIds ++ tokens' ∧
          indices = node.value ++ indices' ∧
            RadixTree.Cached pageSize extraKey children tokens' indices')) ∨
      RadixTree.Cached pageSize extraKey siblings tokens indices

namespace RadixTree

variable {extraKey : Option String} {tree : RadixTree κ ι} {tokens : List κ} {indices : List ι}

theorem cached_nil : ∀ tree : RadixTree κ ι, Cached pageSize extraKey tree [] []
  | .nil => ⟨rfl, rfl⟩
  | .cons _ _ siblings => .inr (cached_nil siblings)

theorem Cached.length_eq : ∀ {tree : RadixTree κ ι} {tokens : List κ} {indices : List ι},
    WellFormed pageSize tree → Cached pageSize extraKey tree tokens indices →
      pageSize ∣ tokens.length ∧ indices.length = tokens.length
  | .nil, tokens, indices, _, h => by
    obtain ⟨rfl, rfl⟩ := h
    exact ⟨Nat.dvd_zero _, rfl⟩
  | .cons node children siblings, tokens, indices, hwf, h => by
    obtain ⟨hnode, hchildren, hsiblings, -⟩ := wellFormed_cons.mp hwf
    rcases h with ⟨-, ⟨n, hn, hle, rfl, rfl⟩ | ⟨tokens', indices', rfl, rfl, h⟩⟩ | h
    · have hle' : n ≤ node.value.length := hnode.length_value ▸ hle
      rw [List.length_take_of_le hle, List.length_take_of_le hle']
      exact ⟨hn, rfl⟩
    · obtain ⟨hdvd, hlength⟩ := h.length_eq hchildren
      rw [List.length_append, List.length_append, hlength, hnode.length_value]
      exact ⟨Nat.dvd_add hnode.dvd hdvd, rfl⟩
    · exact h.length_eq hsiblings

/-- The first page of a cached sequence is the first page of a node at the top. -/
theorem Cached.mem_childKeys (hpos : 0 < pageSize) :
    ∀ {tree : RadixTree κ ι} {tokens : List κ} {indices : List ι},
      WellFormed pageSize tree → Cached pageSize extraKey tree tokens indices → tokens ≠ [] →
        (extraKey, tokens.take pageSize) ∈ childKeys pageSize tree
  | .nil, tokens, indices, _, h, hne => absurd h.1 hne
  | .cons node children siblings, tokens, indices, hwf, h, hne => by
    obtain ⟨hnode, hchildren, hsiblings, -⟩ := wellFormed_cons.mp hwf
    have hpage := Nat.le_of_dvd hnode.pos hnode.dvd
    have hfirst : node.key.extraKey = extraKey →
        tokens.take pageSize = node.key.tokenIds.take pageSize →
          (extraKey, tokens.take pageSize) ∈ childKeys pageSize (.cons node children siblings) :=
      fun hextra htake => by
        rw [← hextra, htake]
        exact List.mem_cons_self
    rcases h with ⟨hextra, ⟨n, hn, hle, rfl, -⟩ | ⟨tokens', indices', rfl, -, h⟩⟩ | h
    · refine hfirst hextra ?_
      have hn0 : 0 < n := Nat.pos_of_ne_zero fun h0 => hne (by rw [h0, List.take_zero])
      rw [List.take_take, Nat.min_eq_left (Nat.le_of_dvd hn0 hn)]
    · exact hfirst hextra (List.take_append_of_le_length hpage)
    · exact List.mem_cons_of_mem _ (h.mem_childKeys hpos hsiblings hne)

/-- A sequence has one list of indices. -/
theorem Cached.unique (hpos : 0 < pageSize) :
    ∀ {tree : RadixTree κ ι} {tokens : List κ} {indices indices' : List ι},
      WellFormed pageSize tree → Cached pageSize extraKey tree tokens indices →
        Cached pageSize extraKey tree tokens indices' → indices = indices'
  | .nil, tokens, indices, indices', _, h, h' => h.2.trans h'.2.symm
  | .cons node children siblings, tokens, indices, indices', hwf, h, h' => by
    obtain ⟨hnode, hchildren, hsiblings, hfirst⟩ := wellFormed_cons.mp hwf
    have hlength := (h.length_eq hwf).2
    have hlength' := (h'.length_eq hwf).2
    by_cases hne : tokens = []
    · rw [hne] at hlength hlength'
      rw [List.eq_nil_of_length_eq_zero hlength, List.eq_nil_of_length_eq_zero hlength']
    have hself := h.mem_childKeys hpos hwf hne
    -- one list is in the node or below it, and the other among the siblings
    have hapart : ∀ {indices indices'}, node.key.extraKey = extraKey →
        Cached pageSize extraKey (.cons node children .nil) tokens indices →
          ¬Cached pageSize extraKey siblings tokens indices' := fun hextra hnode' hother => by
      have hwf' : WellFormed pageSize (.cons node children .nil) :=
        wellFormed_cons.mpr
          ⟨hnode, hchildren, ⟨List.nodup_nil, trivial⟩, by simp [childKeys, Forest.top]⟩
      have hpage : (extraKey, tokens.take pageSize) = getChildKey pageSize node.key :=
        List.mem_singleton.mp (hnode'.mem_childKeys hpos hwf' hne)
      rw [← hpage] at hfirst
      exact hfirst (hother.mem_childKeys hpos hsiblings hne)
    -- in the node, the indices are those of the tokens' positions ; below it they continue
    have hbelow : ∀ {n tokens' indices'}, n ≤ node.key.length →
        node.key.tokenIds.take n = node.key.tokenIds ++ tokens' →
          Cached pageSize extraKey children tokens' indices' →
            node.value.take n = node.value ++ indices' := fun {n tokens' indices'} hle heq hc => by
      have hlen := congrArg List.length heq
      rw [List.length_append, List.length_take_of_le hle] at hlen
      have hle' : node.key.tokenIds.length = node.key.length := rfl
      obtain rfl : tokens' = [] := List.eq_nil_of_length_eq_zero (by omega)
      rw [List.eq_nil_of_length_eq_zero (hc.length_eq hchildren).2, List.append_nil,
        List.take_of_length_le (by rw [hnode.length_value]; simp at hlen; omega)]
    rcases h with ⟨hextra, h⟩ | h <;> rcases h' with ⟨hextra', h'⟩ | h'
    · rcases h with ⟨n, -, hle, rfl, rfl⟩ | ⟨tokens', indices₁, rfl, rfl, h⟩ <;>
        rcases h' with ⟨n', -, hle', heq, rfl⟩ | ⟨tokens'', indices₂, heq, rfl, h'⟩
      · have hlen := congrArg List.length heq
        rw [List.length_take_of_le hle, List.length_take_of_le hle'] at hlen
        rw [hlen]
      · exact hbelow hle heq h'
      · exact (hbelow hle' heq.symm h).symm
      · rw [h.unique hpos hchildren (List.append_cancel_left heq ▸ h')]
    · exact absurd h' (hapart hextra (.inl ⟨hextra, h⟩))
    · exact absurd h (hapart hextra' (.inl ⟨hextra', h'⟩))
    · exact h.unique hpos hsiblings h'

end RadixTree

namespace RadixTree

/-- A sequence that starts with the first page of the first node is cached in it or below it. -/
theorem Cached.of_first {extraKey : Option String} {node : TreeNode κ ι}
    {children siblings : RadixTree κ ι} {tokens : List κ} {indices : List ι} (hpos : 0 < pageSize)
    (hwf : WellFormed pageSize (.cons node children siblings)) (hne : tokens ≠ [])
    (hfirst : getChildKey pageSize node.key = (extraKey, tokens.take pageSize))
    (h : Cached pageSize extraKey (.cons node children siblings) tokens indices) :
    (∃ n, n ≤ node.key.length ∧ tokens = node.key.tokenIds.take n) ∨
      ∃ tokens' indices', tokens = node.key.tokenIds ++ tokens' ∧
        Cached pageSize extraKey children tokens' indices' := by
  obtain ⟨-, -, hsiblings, hapart⟩ := wellFormed_cons.mp hwf
  rcases h with ⟨-, ⟨n, -, hle, rfl, -⟩ | ⟨tokens', indices', rfl, -, h⟩⟩ | h
  · exact .inl ⟨n, hle, rfl⟩
  · exact .inr ⟨tokens', indices', rfl, h⟩
  · rw [hfirst] at hapart
    exact absurd (h.mem_childKeys hpos hsiblings hne) hapart

/-- A sequence that starts with another page is cached among the siblings. -/
theorem Cached.of_next {extraKey : Option String} {node : TreeNode κ ι}
    {children siblings : RadixTree κ ι} {tokens : List κ} {indices : List ι} (hpos : 0 < pageSize)
    (hwf : WellFormed pageSize (.cons node children siblings)) (hne : tokens ≠ [])
    (hfirst : getChildKey pageSize node.key ≠ (extraKey, tokens.take pageSize))
    (h : Cached pageSize extraKey (.cons node children siblings) tokens indices) :
    Cached pageSize extraKey siblings tokens indices := by
  obtain ⟨hnode, hchildren, -, -⟩ := wellFormed_cons.mp hwf
  rcases h with h | h
  · have hwf' : WellFormed pageSize (.cons node children .nil) := wellFormed_cons.mpr
      ⟨hnode, hchildren, ⟨List.nodup_nil, trivial⟩, by simp [childKeys, Forest.top]⟩
    have hself : Cached pageSize extraKey (.cons node children .nil) tokens indices := .inl h
    exact absurd (List.mem_singleton.mp (hself.mem_childKeys hpos hwf' hne)).symm hfirst
  · exact h

/-- The nodes from below the root to a node. -/
def pathOf (tree : RadixTree κ ι) : Option ℕ → Option (List (TreeNode κ ι))
  | none => some []
  | some i => tree.path TreeNode.id i

/-- The tokens and the KV indices along a path. -/
def spelling (path : List (TreeNode κ ι)) : List κ × List ι :=
  (path.flatMap fun node => node.key.tokenIds, path.flatMap TreeNode.value)

/-- A node spells a key with KV indices : the path to it, in the namespace of the key, does. -/
def Spells (tree : RadixTree κ ι) (last : Option ℕ) (key : RadixKey κ) (indices : List ι) : Prop :=
  ∃ path, tree.pathOf last = some path ∧ spelling path = (key.tokenIds, indices) ∧
    ∀ node ∈ path, node.key.extraKey = key.extraKey

theorem spells_root (tree : RadixTree κ ι) (extraKey : Option String) :
    Spells tree none ⟨[], extraKey⟩ [] :=
  ⟨[], rfl, rfl, by simp⟩

/-- A node in front of a spelling. -/
def onto (node : TreeNode κ ι) (s : List κ × List ι) : List κ × List ι :=
  (node.key.tokenIds ++ s.1, node.value ++ s.2)

theorem spelling_cons (node : TreeNode κ ι) (path : List (TreeNode κ ι)) :
    spelling (node :: path) = onto node (spelling path) := rfl

/-- Paths that spell the same, in the same namespace. -/
structure SamePath (path path' : List (TreeNode κ ι)) : Prop where
  spelling_eq : spelling path' = spelling path
  extraKey_eq : ∀ extraKey, (∀ node ∈ path, node.key.extraKey = extraKey) →
    ∀ node ∈ path', node.key.extraKey = extraKey

theorem SamePath.refl (path : List (TreeNode κ ι)) : SamePath path path := ⟨rfl, fun _ h => h⟩

theorem SamePath.cons {path path' : List (TreeNode κ ι)} {node node' : TreeNode κ ι}
    (hkey : node'.key = node.key) (hvalue : node'.value = node.value) (h : SamePath path path') :
    SamePath (node :: path) (node' :: path') where
  spelling_eq := by
    rw [spelling_cons, spelling_cons, h.spelling_eq, onto, onto, hkey, hvalue]
  extraKey_eq := fun extraKey hall => by
    obtain ⟨hnode, hpath⟩ := List.forall_mem_cons.mp hall
    exact List.forall_mem_cons.mpr ⟨hkey ▸ hnode, h.extraKey_eq extraKey hpath⟩

theorem Spells.of_samePath {tree tree' : RadixTree κ ι} {i : ℕ} {key : RadixKey κ}
    {indices : List ι} (hpath : ∀ path, tree.path TreeNode.id i = some path →
      ∃ path', tree'.path TreeNode.id i = some path' ∧ SamePath path path')
    (h : Spells tree (some i) key indices) : Spells tree' (some i) key indices := by
  obtain ⟨path, heq, hspelling, hextra⟩ := h
  obtain ⟨path', heq', hsame⟩ := hpath path heq
  exact ⟨path', heq', hsame.spelling_eq.trans hspelling, hsame.extraKey_eq _ hextra⟩

/-- The first `n` tokens of a key are the longest prefix of it that a tree caches, with their
indices. -/
structure Longest (pageSize : ℕ) (tree : RadixTree κ ι) (key : RadixKey κ) (n : ℕ)
    (indices : List ι) : Prop where
  dvd : pageSize ∣ n
  le : n ≤ key.length
  cached : Cached pageSize key.extraKey tree (key.tokenIds.take n) indices
  longest : ∀ {m : ℕ} {indices' : List ι}, pageSize ∣ m → m ≤ key.length →
    Cached pageSize key.extraKey tree (key.tokenIds.take m) indices' → m ≤ n

end RadixTree

/-! ## What a walk does to a tree -/

/-- The same node, up to what only the eviction policy reads. -/
structure TreeNode.Same (node node' : TreeNode κ ι) : Prop where
  id_eq : node'.id = node.id
  key_eq : node'.key = node.key
  value_eq : node'.value = node.value
  lockRef_eq : node'.lockRef = node.lockRef

/-- The nodes of a path are marked, and one node may be split at a page, with a new node over it. -/
inductive Reshaped (pageSize newId : ℕ) : Bool → RadixTree κ ι → RadixTree κ ι → Prop
  | refl (tree : RadixTree κ ι) : Reshaped pageSize newId false tree tree
  | down {split : Bool} {node node' : TreeNode κ ι} {children children' : RadixTree κ ι}
      (siblings : RadixTree κ ι) (hsame : node.Same node')
      (h : Reshaped pageSize newId split children children') :
      Reshaped pageSize newId split (.cons node children siblings) (.cons node' children' siblings)
  | next {split : Bool} (node : TreeNode κ ι) (children : RadixTree κ ι)
      {siblings siblings' : RadixTree κ ι} (h : Reshaped pageSize newId split siblings siblings') :
      Reshaped pageSize newId split (.cons node children siblings) (.cons node children siblings')
  | split {node upper lower : TreeNode κ ι} {now : ℤ} {n : ℕ} (children siblings : RadixTree κ ι)
      (hn : pageSize ∣ n) (hpos : 0 < n) (hlt : n < node.key.length)
      (hupper : (splitNode now newId node n).1.Same upper)
      (hlower : (splitNode now newId node n).2.Same lower) :
      Reshaped pageSize newId true (.cons node children siblings)
        (.cons upper (.cons lower children .nil) siblings)

namespace Reshaped

variable {newId : ℕ} {split : Bool} {tree tree' : RadixTree κ ι}

/-- The numbers are those there were, and the new one after a split. -/
theorem ids_perm (h : Reshaped pageSize newId split tree tree') :
    (RadixTree.ids tree').Perm (if split then newId :: RadixTree.ids tree
      else RadixTree.ids tree) := by
  induction h with
  | refl => exact .refl _
  | down siblings hsame h ih =>
    rw [RadixTree.ids_cons, RadixTree.ids_cons, hsame.id_eq]
    split_ifs at ih ⊢
    · exact ((ih.append_right _).cons _).trans (List.Perm.swap _ _ _)
    · exact (ih.append_right _).cons _
  | next node children h ih =>
    rw [RadixTree.ids_cons, RadixTree.ids_cons]
    split_ifs at ih ⊢
    · exact ((ih.append_left _).cons _).trans
        ((List.perm_middle.cons _).trans (List.Perm.swap _ _ _))
    · exact (ih.append_left _).cons _
  | split children siblings hn hpos hlt hupper hlower =>
    rw [RadixTree.ids_cons, RadixTree.ids_cons, RadixTree.ids_cons, hupper.id_eq, hlower.id_eq,
      if_pos rfl]
    simp [splitNode]

theorem mem_ids (h : Reshaped pageSize newId split tree tree') {i : ℕ} :
    i ∈ RadixTree.ids tree' ↔ i ∈ RadixTree.ids tree ∨ (split = true ∧ i = newId) := by
  rw [h.ids_perm.mem_iff]
  cases split <;> simp [or_comm]

theorem nodup (h : Reshaped pageSize newId split tree tree') (hnodup : (RadixTree.ids tree).Nodup)
    (hfresh : newId ∉ RadixTree.ids tree) : (RadixTree.ids tree').Nodup := by
  rw [h.ids_perm.nodup_iff]
  split_ifs
  · exact List.nodup_cons.mpr ⟨hfresh, hnodup⟩
  · exact hnodup

theorem childKeys_eq (h : Reshaped pageSize newId split tree tree') :
    childKeys pageSize tree' = childKeys pageSize tree := by
  induction h with
  | refl => rfl
  | down siblings hsame h ih => simp [childKeys, Forest.top, hsame.key_eq]
  | next node children h ih => simpa [childKeys, Forest.top] using ih
  | split children siblings hn hpos hlt hupper hlower =>
    have hpage := Nat.le_of_dvd hpos hn
    simp [childKeys, Forest.top, hupper.key_eq, splitNode, getChildKey, RadixKey.take,
      List.take_take, Nat.min_eq_left hpage]

theorem wellFormed (h : Reshaped pageSize newId split tree tree')
    (hwf : RadixTree.WellFormed pageSize tree) : RadixTree.WellFormed pageSize tree' := by
  induction h with
  | refl => exact hwf
  | down siblings hsame h ih =>
    obtain ⟨hnode, hchildren, hsiblings, hfirst⟩ := wellFormed_cons.mp hwf
    refine wellFormed_cons.mpr ⟨⟨?_, ?_, ?_⟩, ih hchildren, hsiblings, ?_⟩
    · rw [hsame.key_eq]
      exact hnode.pos
    · rw [hsame.key_eq]
      exact hnode.dvd
    · rw [hsame.key_eq, hsame.value_eq]
      exact hnode.length_value
    · rwa [hsame.key_eq]
  | next node children h ih =>
    obtain ⟨hnode, hchildren, hsiblings, hfirst⟩ := wellFormed_cons.mp hwf
    exact wellFormed_cons.mpr ⟨hnode, hchildren, ih hsiblings, by rwa [h.childKeys_eq]⟩
  | @split node upper lower now n children siblings hn hpos hlt hupper hlower =>
    obtain ⟨hnode, hchildren, hsiblings, hfirst⟩ := wellFormed_cons.mp hwf
    have hlt' : n < node.key.tokenIds.length := hlt
    have hlength : node.value.length = node.key.tokenIds.length := hnode.length_value
    refine wellFormed_cons.mpr ⟨⟨?_, ?_, ?_⟩, wellFormed_cons.mpr ⟨⟨?_, ?_, ?_⟩, hchildren,
      ⟨List.nodup_nil, trivial⟩, by simp [childKeys, Forest.top]⟩, hsiblings, ?_⟩
    · rw [hupper.key_eq]
      simp [splitNode, RadixKey.take, RadixKey.length]
      omega
    · rw [hupper.key_eq]
      simpa [splitNode, RadixKey.take, RadixKey.length, Nat.min_eq_left hlt'.le] using hn
    · rw [hupper.key_eq, hupper.value_eq]
      simp [splitNode, RadixKey.take, RadixKey.length, hlength]
    · rw [hlower.key_eq]
      simp [splitNode, RadixKey.drop, RadixKey.length]
      omega
    · rw [hlower.key_eq]
      simpa [splitNode, RadixKey.drop, RadixKey.length] using Nat.dvd_sub hnode.dvd hn
    · rw [hlower.key_eq, hlower.value_eq]
      simp [splitNode, RadixKey.drop, RadixKey.length, hlength]
    · have hpage := Nat.le_of_dvd hpos hn
      have hsame : getChildKey pageSize upper.key = getChildKey pageSize node.key := by
        rw [hupper.key_eq]
        simp [splitNode, getChildKey, RadixKey.take, List.take_take, Nat.min_eq_left hpage]
      rwa [hsame]

/-- The tree caches what it cached. -/
theorem cached_iff (h : Reshaped pageSize newId split tree tree') (extraKey : Option String) :
    ∀ {tokens : List κ} {indices : List ι},
      RadixTree.Cached pageSize extraKey tree' tokens indices ↔
        RadixTree.Cached pageSize extraKey tree tokens indices := by
  induction h with
  | refl => exact Iff.rfl
  | down siblings hsame h ih =>
    intro tokens indices
    simp only [RadixTree.Cached, hsame.key_eq, hsame.value_eq, ih]
  | next node children h ih =>
    intro tokens indices
    simp only [RadixTree.Cached, ih]
  | @split node upper lower now n children siblings hn hpos hlt hupper hlower =>
    intro tokens indices
    have htake : ∀ m, node.key.tokenIds.take (n + m)
        = node.key.tokenIds.take n ++ (node.key.tokenIds.drop n).take m := fun m => List.take_add
    have hvalue : ∀ m, node.value.take (n + m)
        = node.value.take n ++ (node.value.drop n).take m := fun m => List.take_add
    have hlength : node.key.tokenIds.length = node.key.length := rfl
    simp only [RadixTree.Cached, hupper.key_eq, hupper.value_eq, hlower.key_eq, hlower.value_eq,
      splitNode, RadixKey.take, RadixKey.drop, RadixKey.length, List.length_take, List.length_drop]
    refine or_congr (and_congr_right fun hextra => ⟨?_, ?_⟩) Iff.rfl
    · rintro (⟨m, hm, hle, rfl, rfl⟩ | ⟨tokens', indices', rfl, rfl, h⟩)
      · refine .inl ⟨m, hm, by omega, ?_, ?_⟩ <;> rw [List.take_take, Nat.min_eq_left (by omega)]
      · rcases h with ⟨-, ⟨m, hm, hle, rfl, rfl⟩ | ⟨tokens', indices', rfl, rfl, h⟩⟩ | ⟨rfl, rfl⟩
        · exact .inl ⟨n + m, Nat.dvd_add hn hm, by omega, (htake m).symm, (hvalue m).symm⟩
        · refine .inr ⟨tokens', indices', ?_, ?_, h⟩ <;>
            rw [← List.append_assoc, List.take_append_drop]
        · exact .inl ⟨n, hn, by omega, by simp, by simp⟩
    · rintro (⟨m, hm, hle, rfl, rfl⟩ | ⟨tokens', indices', rfl, rfl, h⟩)
      · rcases Nat.le_total m n with hmn | hmn
        · refine .inl ⟨m, hm, by omega, ?_, ?_⟩ <;> rw [List.take_take, Nat.min_eq_left hmn]
        · obtain ⟨d, rfl⟩ := Nat.exists_eq_add_of_le hmn
          exact .inr ⟨_, _, htake d, hvalue d, .inl ⟨hextra, .inl ⟨d,
            (Nat.dvd_add_right hn).mp hm, by omega, rfl, rfl⟩⟩⟩
      · refine .inr ⟨node.key.tokenIds.drop n ++ tokens', node.value.drop n ++ indices', ?_, ?_,
          .inl ⟨hextra, .inr ⟨tokens', indices', rfl, rfl, h⟩⟩⟩ <;>
          rw [← List.append_assoc, List.take_append_drop]

/-- The KV indices are those there were, in their order. -/
theorem allValues_eq (h : Reshaped pageSize newId split tree tree') :
    tree'.allValues = tree.allValues := by
  unfold RadixTree.allValues
  induction h with
  | refl => rfl
  | down siblings hsame h ih =>
    rw [Forest.nodes, Forest.nodes, List.flatMap_cons, List.flatMap_cons, List.flatMap_append,
      List.flatMap_append, ih, hsame.value_eq]
  | next node children h ih =>
    rw [Forest.nodes, Forest.nodes, List.flatMap_cons, List.flatMap_cons, List.flatMap_append,
      List.flatMap_append, ih]
  | split children siblings hn hpos hlt hupper hlower =>
    simp [Forest.nodes, hupper.value_eq, hlower.value_eq, splitNode, ← List.append_assoc]

theorem mem_ids_of_ne (h : Reshaped pageSize newId split tree tree') {i : ℕ} (hi : i ≠ newId) :
    i ∈ tree'.ids ↔ i ∈ tree.ids := by
  rw [h.mem_ids, or_iff_left fun heq => hi heq.2]

theorem exists_samePath (h : Reshaped pageSize newId split tree tree') {i : ℕ} (hi : i ≠ newId) :
    ∀ path, tree.path TreeNode.id i = some path →
      ∃ path', tree'.path TreeNode.id i = some path' ∧ RadixTree.SamePath path path' := by
  induction h with
  | refl => exact fun path hpath => ⟨path, hpath, .refl path⟩
  | @down split node node' children children' siblings hsame h ih =>
    intro path hpath
    rw [Forest.path] at hpath ⊢
    rw [hsame.id_eq]
    split_ifs at hpath ⊢ with hid
    · obtain rfl := Option.some.inj hpath
      exact ⟨[node'], rfl, .cons hsame.key_eq hsame.value_eq (.refl [])⟩
    · rcases Option.or_eq_some_iff.mp hpath with hpath | ⟨hnone, hpath⟩
      · obtain ⟨below, hbelow, rfl⟩ := Option.map_eq_some_iff.mp hpath
        obtain ⟨below', hbelow', hpaths⟩ := ih below hbelow
        exact ⟨node' :: below', by rw [hbelow']; rfl, .cons hsame.key_eq hsame.value_eq hpaths⟩
      · have hnot := Forest.path_eq_none.mp (Option.map_eq_none_iff.mp hnone)
        rw [Forest.path_eq_none.mpr (mt (h.mem_ids_of_ne hi).mp hnot), Option.map_none,
          Option.none_or]
        exact ⟨path, hpath, .refl path⟩
  | @next split node children siblings siblings' h ih =>
    intro path hpath
    rw [Forest.path] at hpath ⊢
    split_ifs at hpath ⊢ with hid
    · exact ⟨path, hpath, .refl path⟩
    · rcases Option.or_eq_some_iff.mp hpath with hpath | ⟨hnone, hpath⟩
      · exact ⟨path, by rw [hpath, Option.some_or], .refl path⟩
      · obtain ⟨path', hpath', hpaths⟩ := ih path hpath
        exact ⟨path', by rw [hnone, Option.none_or, hpath'], hpaths⟩
  | @split node upper lower now n children siblings hn hpos hlt hupper hlower =>
    intro path hpath
    have hid : upper.id = newId := hupper.id_eq
    have hid' : lower.id = node.id := hlower.id_eq
    -- the two halves in front of a path, for the node
    have hhalves : ∀ below, RadixTree.SamePath (node :: below) (upper :: lower :: below) :=
      fun below => by
        refine ⟨?_, fun extraKey hall => ?_⟩
        · simp only [RadixTree.spelling_cons, RadixTree.onto, hupper.key_eq, hupper.value_eq,
            hlower.key_eq, hlower.value_eq, splitNode, RadixKey.take, RadixKey.drop,
            ← List.append_assoc, List.take_append_drop]
        · obtain ⟨hnode, hbelow⟩ := List.forall_mem_cons.mp hall
          refine List.forall_mem_cons.mpr ⟨?_, List.forall_mem_cons.mpr ⟨?_, hbelow⟩⟩
          · rw [hupper.key_eq]
            exact hnode
          · rw [hlower.key_eq]
            exact hnode
    rw [Forest.path] at hpath
    rw [Forest.path, Forest.path, hid, hid', if_neg (Ne.symm hi)]
    split_ifs at hpath ⊢ with hnode
    · obtain rfl := Option.some.inj hpath
      exact ⟨[upper, lower], rfl, hhalves []⟩
    · rcases Option.or_eq_some_iff.mp hpath with hpath | ⟨hnone, hpath⟩
      · obtain ⟨below, hbelow, rfl⟩ := Option.map_eq_some_iff.mp hpath
        exact ⟨upper :: lower :: below, by rw [hbelow]; rfl, hhalves below⟩
      · refine ⟨path, ?_, .refl path⟩
        rw [Option.map_eq_none_iff.mp hnone, hpath]
        rfl

/-- Every node spells what it spelled. -/
theorem spells (h : Reshaped pageSize newId split tree tree') (hfresh : newId ∉ tree.ids)
    {last : Option ℕ} {key : RadixKey κ} {indices : List ι}
    (hspells : RadixTree.Spells tree last key indices) :
    RadixTree.Spells tree' last key indices := by
  cases last with
  | none => exact hspells
  | some i =>
    have hspells' := hspells
    obtain ⟨path, hpath, -⟩ := hspells'
    have hi : i ≠ newId := fun heq => hfresh (heq ▸ Forest.path_isSome.mp
      (Option.isSome_iff_exists.mpr ⟨path, hpath⟩))
    exact hspells.of_samePath (h.exists_samePath hi)

end Reshaped

/-! ## The walk -/

/-- What a walk along a key returns. -/
structure WalkSpec (pageSize newId : ℕ) (tree : RadixTree κ ι) (key : RadixKey κ)
    (w : PrefixWalk κ ι) (split : Bool) : Prop where
  reshaped : Reshaped pageSize newId split tree w.tree
  nextId_eq : w.nextId = if split then newId + 1 else newId
  longest : RadixTree.Longest pageSize tree key w.prefixLen w.value
  spells : newId ∉ RadixTree.ids tree → (RadixTree.ids tree).Nodup →
    RadixTree.Spells w.tree w.lastNode (key.take w.prefixLen) w.value

theorem RadixTree.longest_split {node : TreeNode κ ι} {children siblings : RadixTree κ ι}
    {key : RadixKey κ} {n : ℕ} (hpos : 0 < pageSize)
    (hwf : RadixTree.WellFormed pageSize (.cons node children siblings))
    (hchild : getChildKey pageSize node.key = getChildKey pageSize key)
    (hmatch : IsMatch pageSize node.key.tokenIds key.tokenIds n)
    (hend : n < node.key.length ∨ n = key.length) :
    RadixTree.Longest pageSize (.cons node children siblings) key n (node.value.take n) := by
  obtain ⟨hextra, hpage⟩ := Prod.mk.inj hchild
  refine ⟨hmatch.dvd, hmatch.le_right,
    .inl ⟨hextra, .inl ⟨n, hmatch.dvd, hmatch.le_left, hmatch.take_eq.symm, rfl⟩⟩,
    fun {m indices'} hm hle hcached => ?_⟩
  by_contra hlt
  have hlength : (key.tokenIds.take m).length = m := List.length_take_of_le hle
  have hm0 := Nat.le_of_dvd (by omega) hm
  have hne : key.tokenIds.take m ≠ [] := fun h => by
    rw [h, List.length_nil] at hlength
    omega
  have hfirst : getChildKey pageSize node.key
      = (key.extraKey, (key.tokenIds.take m).take pageSize) := by
    rw [List.take_take, Nat.min_eq_left hm0, ← hextra, ← hpage]
    rfl
  rcases hcached.of_first hpos hwf hne hfirst with ⟨m', hle', heq⟩ | ⟨tokens', _, heq, -⟩
  · have hsame := congrArg List.length heq
    rw [hlength, List.length_take_of_le hle'] at hsame
    subst hsame
    exact hlt (hmatch.le_of_take_eq hm hle' hle heq.symm)
  · -- the sequence goes on below the node, so that the keys match as far as the node's goes
    have hsum := congrArg List.length heq
    rw [hlength, List.length_append] at hsum
    have hwhole : node.key.tokenIds.take node.key.tokenIds.length
        = key.tokenIds.take node.key.tokenIds.length := by
      have htake := congrArg (List.take node.key.tokenIds.length) heq
      rw [List.take_take, Nat.min_eq_left (by omega), List.take_left' rfl] at htake
      rw [List.take_length, htake]
    have hlen : node.key.tokenIds.length = node.key.length := rfl
    have hlen' : key.tokenIds.length = key.length := rfl
    have hall : node.key.length ≤ n :=
      hmatch.le_of_take_eq (wellFormed_cons.mp hwf).1.dvd le_rfl (by omega) hwhole
    omega

/-- What is longest below a node that the key goes through is longest with the node. -/
theorem RadixTree.Longest.below {node : TreeNode κ ι} {children siblings : RadixTree κ ι}
    {key : RadixKey κ} {n m : ℕ} {indices : List ι} (hpos : 0 < pageSize)
    (hwf : RadixTree.WellFormed pageSize (.cons node children siblings))
    (hchild : getChildKey pageSize node.key = getChildKey pageSize key)
    (hmatch : IsMatch pageSize node.key.tokenIds key.tokenIds n) (hn : n = node.key.length)
    (h : RadixTree.Longest pageSize children (key.drop n) m indices) :
    RadixTree.Longest pageSize (.cons node children siblings) key (n + m)
      (node.value ++ indices) := by
  obtain ⟨hextra, hpage⟩ := Prod.mk.inj hchild
  have hlen : node.key.tokenIds.length = node.key.length := rfl
  have hlen' : key.tokenIds.length = key.length := rfl
  have hdrop : (key.drop n).length = key.length - n := by simp [RadixKey.drop, RadixKey.length]
  have hright : n ≤ key.length := hmatch.le_right
  have hwhole : key.tokenIds.take n = node.key.tokenIds := by
    rw [← hmatch.take_eq, hn]
    exact List.take_length
  have hle := hdrop ▸ h.le
  refine ⟨Nat.dvd_add hmatch.dvd h.dvd, by omega, ?_, fun {k indices'} hk hkle hcached => ?_⟩
  · refine .inl ⟨hextra, .inr ⟨_, indices, ?_, rfl, h.cached⟩⟩
    rw [List.take_add, hwhole]
    rfl
  · by_contra hlt
    have hlength : (key.tokenIds.take k).length = k := List.length_take_of_le hkle
    have hne : key.tokenIds.take k ≠ [] := fun h' => by
      rw [h', List.length_nil] at hlength
      omega
    have hfirst : getChildKey pageSize node.key
        = (key.extraKey, (key.tokenIds.take k).take pageSize) := by
      rw [List.take_take, Nat.min_eq_left (Nat.le_of_dvd (by omega) hk), ← hextra, ← hpage]
      rfl
    rcases hcached.of_first hpos hwf hne hfirst with ⟨m', hle', heq⟩ | ⟨tokens', _, heq, hbelow⟩
    · have hsame := congrArg List.length heq
      rw [hlength, List.length_take_of_le hle'] at hsame
      omega
    · obtain ⟨d, rfl⟩ := Nat.exists_eq_add_of_le (show n ≤ k by omega)
      rw [List.take_add, hwhole] at heq
      have hd := h.longest ((Nat.dvd_add_right hmatch.dvd).mp hk) (by omega)
        (List.append_cancel_left heq ▸ hbelow)
      omega

/-- What is longest among the siblings is longest with a node that starts with another page. -/
theorem RadixTree.Longest.next {node : TreeNode κ ι} {children siblings : RadixTree κ ι}
    {key : RadixKey κ} {m : ℕ} {indices : List ι} (hpos : 0 < pageSize)
    (hwf : RadixTree.WellFormed pageSize (.cons node children siblings))
    (hchild : getChildKey pageSize node.key ≠ getChildKey pageSize key)
    (h : RadixTree.Longest pageSize siblings key m indices) :
    RadixTree.Longest pageSize (.cons node children siblings) key m indices := by
  refine ⟨h.dvd, h.le, .inr h.cached, fun {k indices'} hk hkle hcached => ?_⟩
  by_cases hzero : k = 0
  · omega
  have hlength : (key.tokenIds.take k).length = k := List.length_take_of_le hkle
  have hne : key.tokenIds.take k ≠ [] := fun h' => by
    rw [h', List.length_nil] at hlength
    omega
  refine h.longest hk hkle (hcached.of_next hpos hwf hne ?_)
  rw [List.take_take, Nat.min_eq_left (Nat.le_of_dvd (by omega) hk)]
  exact hchild

theorem RadixTree.pathOf_under {node : TreeNode κ ι} {children : RadixTree κ ι}
    (siblings : RadixTree κ ι) {last : Option ℕ} {path : List (TreeNode κ ι)}
    (hid : ∀ i, last = some i → node.id ≠ i) (h : children.pathOf last = some path) :
    RadixTree.pathOf (.cons node children siblings) (some (last.getD node.id))
      = some (node :: path) := by
  cases last with
  | none =>
    obtain rfl := Option.some.inj h
    exact if_pos rfl
  | some i =>
    rw [Option.getD_some, pathOf, Forest.path, if_neg (hid i rfl)]
    rw [pathOf] at h
    rw [h]
    rfl

theorem RadixTree.pathOf_beside {node : TreeNode κ ι} {children siblings : RadixTree κ ι}
    {last : Option ℕ} (hid : ∀ i, last = some i → node.id ≠ i ∧ i ∉ RadixTree.ids children) :
    RadixTree.pathOf (.cons node children siblings) last = siblings.pathOf last := by
  cases last with
  | none => rfl
  | some i =>
    obtain ⟨hne, hnot⟩ := hid i rfl
    rw [pathOf, Forest.path, if_neg hne, Forest.path_eq_none.mpr hnot]
    rfl

/-- Where a walk ends is in the tree, or new. -/
theorem WalkSpec.mem_ids {tree : RadixTree κ ι} {key : RadixKey κ} {newId : ℕ}
    {w : PrefixWalk κ ι} {split : Bool} (h : WalkSpec pageSize newId tree key w split)
    (hfresh : newId ∉ RadixTree.ids tree) (hnodup : (RadixTree.ids tree).Nodup) {i : ℕ}
    (hi : w.lastNode = some i) :
    i ∈ RadixTree.ids w.tree ∧ (i ∈ RadixTree.ids tree ∨ i = newId) := by
  obtain ⟨path, hpath, -⟩ := h.spells hfresh hnodup
  have hmem : i ∈ RadixTree.ids w.tree := by
    by_contra hnot
    rw [hi, RadixTree.pathOf, Forest.path_eq_none.mpr hnot] at hpath
    cases hpath
  exact ⟨hmem, (h.reshaped.mem_ids.mp hmem).imp_right And.right⟩

theorem walkPrefix_spec [DecidableEq κ] {mark : TreeNode κ ι → TreeNode κ ι} {now : ℤ} {newId : ℕ}
    (hpos : 0 < pageSize) (hmark : ∀ node, TreeNode.Same node (mark node)) :
    ∀ {tree : RadixTree κ ι} {key : RadixKey κ}, RadixTree.WellFormed pageSize tree →
      pageSize ∣ key.length → 0 < key.length →
        ∃ w split, walkPrefix pageSize now mark newId tree key = .ok w ∧
          WalkSpec pageSize newId tree key w split
  | .nil, key, _, _, _ => by
    refine ⟨_, false, rfl, .refl _, rfl, ⟨Nat.dvd_zero _, Nat.zero_le _, ⟨rfl, rfl⟩, ?_⟩,
      fun _ _ => ⟨[], rfl, rfl, by simp⟩⟩
    rintro m indices' - hle ⟨htake, -⟩
    have hlength := congrArg List.length htake
    rw [List.length_take_of_le hle, List.length_nil] at hlength
    omega
  | .cons node children siblings, key, hwf, hkey, hlen => by
    obtain ⟨hnode, hchildren, hsiblings, hfirst⟩ := wellFormed_cons.mp hwf
    have htouch : node.Same { node with lastAccessTime := now } := ⟨rfl, rfl, rfl, rfl⟩
    have hmarked : node.Same (mark { node with lastAccessTime := now }) := by
      have h := hmark { node with lastAccessTime := now }
      exact ⟨h.id_eq, h.key_eq, h.value_eq, h.lockRef_eq⟩
    unfold walkPrefix
    by_cases hchild : getChildKey pageSize node.key = getChildKey pageSize key
    · obtain ⟨n, hn, hmatch, hn0⟩ := keyMatch_spec hpos hnode.dvd hkey hnode.pos hlen hchild
      rw [if_pos hchild]
      dsimp only
      rw [hn]
      dsimp only [Except.bind, bind]
      split_ifs with hlt hrest
      · -- the key and the node part inside the node
        refine ⟨_, true, rfl, .split children siblings hmatch.dvd hn0 hlt (hmark _)
          ⟨rfl, rfl, rfl, rfl⟩, rfl, RadixTree.longest_split hpos hwf hchild hmatch (.inl hlt),
          fun _ _ => ⟨[mark (splitNode now newId { node with lastAccessTime := now } n).1], ?_⟩⟩
        have hupper := hmark (splitNode now newId { node with lastAccessTime := now } n).1
        refine ⟨if_pos hupper.id_eq, ?_, ?_⟩
        · rw [RadixTree.spelling_cons, RadixTree.onto, hupper.key_eq, hupper.value_eq]
          simp [RadixTree.spelling, splitNode, RadixKey.take, hmatch.take_eq]
        · rw [List.forall_mem_singleton, hupper.key_eq]
          exact (Prod.mk.inj hchild).1
      · -- the key ends with the node
        have hn' : n = node.key.length := Nat.le_antisymm hmatch.le_left (Nat.not_lt.mp hlt)
        have hkey' : n = key.length := Nat.le_antisymm hmatch.le_right (by
          simpa [RadixKey.drop, RadixKey.length, Nat.sub_eq_zero_iff_le] using hrest)
        have hvalue : node.value.take n = node.value :=
          List.take_of_length_le (by rw [hnode.length_value, hn'])
        have htake : key.tokenIds.take n = node.key.tokenIds := by
          rw [← hmatch.take_eq, hn']
          exact List.take_length
        refine ⟨_, false, rfl, .down siblings hmarked (.refl children), rfl, ?_,
          fun _ _ => ⟨[mark { node with lastAccessTime := now }], if_pos hmarked.id_eq, ?_, ?_⟩⟩
        · rw [← hvalue]
          exact RadixTree.longest_split hpos hwf hchild hmatch (.inr hkey')
        · simp [RadixTree.spelling, hmarked.key_eq, hmarked.value_eq, htake]
        · simpa [hmarked.key_eq] using (Prod.mk.inj hchild).1
      · -- the key goes on below the node
        have hn' : n = node.key.length := Nat.le_antisymm hmatch.le_left (Nat.not_lt.mp hlt)
        have hdrop : (key.drop n).length = key.length - n := by
          simp [RadixKey.drop, RadixKey.length]
        obtain ⟨w, split, hw, hspec⟩ := walkPrefix_spec hpos hmark hchildren
          (hdrop ▸ Nat.dvd_sub hkey hmatch.dvd) (Nat.pos_of_ne_zero hrest)
        rw [hw]
        refine ⟨_, split, rfl, .down siblings hmarked hspec.reshaped, hspec.nextId_eq,
          hspec.longest.below hpos hwf hchild hmatch hn', fun hfresh hnodup => ?_⟩
        rw [RadixTree.ids_cons, List.mem_cons, List.mem_append, not_or, not_or] at hfresh
        obtain ⟨⟨hid, -⟩, hnodup', -, -⟩ := Forest.nodup_cons.mp hnodup
        have hout : ∀ i, w.lastNode = some i →
            (mark { node with lastAccessTime := now }).id ≠ i := fun i hi heq => by
          rw [hmarked.id_eq] at heq
          rcases (hspec.mem_ids hfresh.2.1 hnodup' hi).2 with h | h
          · exact hid (heq ▸ h)
          · exact hfresh.1 (h ▸ heq.symm)
        obtain ⟨path, hpath, hspelling, hextra⟩ := hspec.spells hfresh.2.1 hnodup'
        have hunder := RadixTree.pathOf_under siblings hout hpath
        rw [hmarked.id_eq] at hunder
        refine ⟨_, hunder, ?_, ?_⟩
        · rw [RadixTree.spelling_cons, RadixTree.onto, hspelling, hmarked.key_eq, hmarked.value_eq,
            RadixKey.take_tokenIds, RadixKey.take_tokenIds, RadixKey.drop_tokenIds, List.take_add,
            ← hmatch.take_eq, hn']
          exact Prod.ext (congrArg (· ++ _) List.take_length.symm) rfl
        · rw [List.forall_mem_cons, hmarked.key_eq]
          exact ⟨(Prod.mk.inj hchild).1, hextra⟩
    · -- the key is among the siblings
      obtain ⟨w, split, hw, hspec⟩ := walkPrefix_spec hpos hmark hsiblings hkey hlen
      rw [if_neg hchild, hw]
      refine ⟨_, split, rfl, .next node children hspec.reshaped, hspec.nextId_eq,
        hspec.longest.next hpos hwf hchild, fun hfresh hnodup => ?_⟩
      rw [RadixTree.ids_cons, List.mem_cons, List.mem_append, not_or, not_or] at hfresh
      obtain ⟨⟨-, hid⟩, -, hnodup', hdisjoint⟩ := Forest.nodup_cons.mp hnodup
      obtain ⟨path, hpath, hspelling⟩ := hspec.spells hfresh.2.2 hnodup'
      refine ⟨path, (RadixTree.pathOf_beside fun i hi => ?_).trans hpath, hspelling⟩
      rcases (hspec.mem_ids hfresh.2.2 hnodup' hi).2 with h | rfl
      · exact ⟨fun heq => hid (heq ▸ h), fun h' => hdisjoint h' h⟩
      · exact ⟨fun heq => hfresh.1 heq.symm, hfresh.2.1⟩

end DraftOpd
