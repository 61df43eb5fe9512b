import Mathlib.Algebra.BigOperators.Group.List.Basic
import Mathlib.Data.List.Nodup

/-!
# Forests

Trees whose nodes carry data, side by side : a node with its children, and its further siblings.
Every node has an identity (`ident`), by which it is found (`find`), reached from the top (`path`),
given a child (`addChild`) and taken out (`erase`), and its path is updated (`mapPath`).

Each update is described by what it does to the nodes as a whole (`nodes_addChild_perm`,
`nodes_erase_perm`, `sum_nodes_mapPath`) and to the nodes it is not about (`find_addBelow`,
`find_erase`, `find_mapPath_of_notMem`, `path_addBelow_of_ne`, `path_erase`).
-/

namespace DraftOpd

/-- Trees side by side : the first one's node and children, and the others. -/
inductive Forest (α : Type*) where
  | nil
  | cons (node : α) (children siblings : Forest α)
deriving DecidableEq, Repr

namespace Forest

variable {α β : Type*}

/-- The nodes at the top. -/
def top : Forest α → List α
  | nil => []
  | cons x _ siblings => x :: siblings.top

/-- All nodes, each in front of what is below it. -/
def nodes : Forest α → List α
  | nil => []
  | cons x children siblings => x :: (children.nodes ++ siblings.nodes)

/-- What holds of every node and its children. -/
def Forall (P : α → Forest α → Prop) : Forest α → Prop
  | nil => True
  | cons x children siblings => P x children ∧ children.Forall P ∧ siblings.Forall P

theorem Forall.imp {P Q : α → Forest α → Prop} : ∀ {f : Forest α},
    (∀ x children, x ∈ f.nodes → children.nodes ⊆ f.nodes → P x children → Q x children) →
    f.Forall P → f.Forall Q
  | nil, _, _ => trivial
  | cons x children siblings, himp, ⟨hx, hchildren, hsiblings⟩ => by
    refine ⟨himp x children (by simp [nodes]) (fun y hy => by simp [nodes, hy]) hx,
      Forall.imp (fun y below hy hbelow => himp y below ?_ ?_) hchildren,
      Forall.imp (fun y below hy hbelow => himp y below ?_ ?_) hsiblings⟩
    · simp [nodes, hy]
    · exact fun z hz => by simp [nodes, hbelow hz]
    · simp [nodes, hy]
    · exact fun z hz => by simp [nodes, hbelow hz]

section Ident

variable (ident : α → ℕ)

/-- The identities of the nodes. -/
def ids (f : Forest α) : List ℕ := f.nodes.map ident

/-- A node with its children. -/
def find (i : ℕ) : Forest α → Option (α × Forest α)
  | nil => none
  | cons x children siblings =>
    if ident x = i then some (x, children) else (children.find i).or (siblings.find i)

/-- The nodes from the top down to a node. -/
def path (i : ℕ) : Forest α → Option (List α)
  | nil => none
  | cons x children siblings =>
    if ident x = i then some [x] else ((children.path i).map (x :: ·)).or (siblings.path i)

/-- The node whose child a node is, unless it is at the top. -/
def parent (i : ℕ) : Forest α → Option α
  | nil => none
  | cons x children siblings =>
    if i ∈ children.top.map ident then some x else (children.parent i).or (siblings.parent i)

/-- `g` on the nodes from the top down to a node. -/
def mapPath (g : α → α) (i : ℕ) : Forest α → Forest α
  | nil => nil
  | cons x children siblings =>
    if ident x = i then cons (g x) children siblings
    else if (children.path ident i).isSome then cons (g x) (children.mapPath g i) siblings
    else cons x children (siblings.mapPath g i)

/-- A node more at the end of the top. -/
def addSibling (x : α) : Forest α → Forest α
  | nil => cons x nil nil
  | cons y children siblings => cons y children (siblings.addSibling x)

/-- A node more at the end of the children of a node. -/
def addBelow (x : α) (i : ℕ) : Forest α → Forest α
  | nil => nil
  | cons y children siblings =>
    if ident y = i then cons y (children.addSibling x) siblings
    else cons y (children.addBelow x i) (siblings.addBelow x i)

/-- A node more below a node, or at the top. -/
def addChild (x : α) : Option ℕ → Forest α → Forest α
  | none, f => f.addSibling x
  | some i, f => f.addBelow ident x i

/-- A node less, with what is below it. -/
def erase (i : ℕ) : Forest α → Forest α
  | nil => nil
  | cons x children siblings =>
    if ident x = i then siblings else cons x (children.erase i) (siblings.erase i)

variable {ident} {f : Forest α} {i j : ℕ}

@[simp] theorem ids_nil : ids ident nil = [] := rfl

@[simp] theorem ids_cons (x : α) (children siblings : Forest α) :
    ids ident (cons x children siblings)
      = ident x :: (ids ident children ++ ids ident siblings) := by
  simp [ids, nodes]

theorem nodup_cons {x : α} {children siblings : Forest α} :
    (ids ident (cons x children siblings)).Nodup ↔
      (ident x ∉ ids ident children ∧ ident x ∉ ids ident siblings) ∧
      (ids ident children).Nodup ∧ (ids ident siblings).Nodup ∧
      (ids ident children).Disjoint (ids ident siblings) := by
  rw [ids_cons, List.nodup_cons, List.nodup_append', List.mem_append, not_or]

theorem mem_ids_of_mem_top {x : α} : ∀ {f : Forest α}, x ∈ f.top → ident x ∈ ids ident f
  | nil, h => by cases h
  | cons y children siblings, h => by
    rw [ids_cons, List.mem_cons, List.mem_append]
    rcases List.mem_cons.mp h with rfl | h
    · exact .inl rfl
    · exact .inr (.inr (mem_ids_of_mem_top h))

/-! ### Finding nodes -/

theorem find_eq_none : ∀ {f : Forest α}, f.find ident i = none ↔ i ∉ ids ident f
  | nil => by simp [find]
  | cons x children siblings => by
    rw [find, ids_cons, List.mem_cons, List.mem_append]
    split_ifs with hx
    · simp [hx]
    · rw [Option.or_eq_none_iff, find_eq_none, find_eq_none]
      simp [Ne.symm hx]

theorem exists_find (h : i ∈ ids ident f) : ∃ x children, f.find ident i = some (x, children) := by
  cases hfind : f.find ident i with
  | none => exact absurd h (find_eq_none.mp hfind)
  | some entry => exact ⟨entry.1, entry.2, rfl⟩

theorem of_find : ∀ {f : Forest α} {x : α} {children : Forest α},
    f.find ident i = some (x, children) →
      ident x = i ∧ x ∈ f.nodes ∧ children.nodes ⊆ f.nodes
  | nil, x, children, h => by cases h
  | cons y below siblings, x, children, h => by
    rw [find] at h
    split_ifs at h with hy
    · obtain ⟨rfl, rfl⟩ := Prod.mk.inj (Option.some.inj h)
      exact ⟨hy, by simp [nodes], fun z hz => by simp [nodes, hz]⟩
    · rcases Option.or_eq_some_iff.mp h with h | ⟨-, h⟩
      all_goals
        obtain ⟨hx, hmem, hsub⟩ := of_find h
        exact ⟨hx, by simp [nodes, hmem], fun z hz => by simp [nodes, hsub hz]⟩

theorem mem_ids_of_find {x : α} {children : Forest α} (h : f.find ident i = some (x, children)) :
    i ∈ ids ident f := by
  obtain ⟨rfl, hx, -⟩ := of_find h
  exact List.mem_map_of_mem hx

theorem Forall.of_find {P : α → Forest α → Prop} : ∀ {f : Forest α} {x : α} {children : Forest α},
    f.Forall P → f.find ident i = some (x, children) → P x children
  | nil, x, children, _, h => by cases h
  | cons y below siblings, x, children, ⟨hy, hbelow, hsiblings⟩, h => by
    rw [find] at h
    split_ifs at h
    · obtain ⟨rfl, rfl⟩ := Prod.mk.inj (Option.some.inj h)
      exact hy
    · rcases Option.or_eq_some_iff.mp h with h | ⟨-, h⟩
      · exact Forall.of_find hbelow h
      · exact Forall.of_find hsiblings h

theorem Forall.of_mem {P : α → Forest α → Prop} {x : α} : ∀ {f : Forest α}, f.Forall P →
    x ∈ f.nodes → ∃ children, P x children
  | nil, _, h => by cases h
  | cons y below siblings, ⟨hy, hbelow, hsiblings⟩, h => by
    rw [nodes, List.mem_cons, List.mem_append] at h
    rcases h with rfl | h | h
    · exact ⟨below, hy⟩
    · exact hbelow.of_mem h
    · exact hsiblings.of_mem h

theorem path_isSome : ∀ {f : Forest α}, (f.path ident i).isSome = true ↔ i ∈ ids ident f
  | nil => by simp [path]
  | cons x children siblings => by
    rw [path, ids_cons, List.mem_cons, List.mem_append]
    split_ifs with hx
    · simp [hx]
    · rw [Option.isSome_or, Bool.or_eq_true, Option.isSome_map, path_isSome, path_isSome]
      simp [Ne.symm hx]

theorem path_eq_none : f.path ident i = none ↔ i ∉ ids ident f := by
  rw [← path_isSome]
  simp

theorem mem_nodes_of_path : ∀ {f : Forest α} {l : List α} {x : α},
    f.path ident i = some l → x ∈ l → x ∈ f.nodes
  | nil, l, x, h, _ => by cases h
  | cons y children siblings, l, x, h, hx => by
    rw [path] at h
    rw [nodes, List.mem_cons, List.mem_append]
    split_ifs at h
    · obtain rfl := Option.some.inj h
      exact .inl (List.mem_singleton.mp hx)
    · rcases Option.or_eq_some_iff.mp h with h | ⟨-, h⟩
      · obtain ⟨below, hbelow, rfl⟩ := Option.map_eq_some_iff.mp h
        rcases List.mem_cons.mp hx with rfl | hx
        · exact .inl rfl
        · exact .inr (.inl (mem_nodes_of_path hbelow hx))
      · exact .inr (.inr (mem_nodes_of_path h hx))

/-- The nodes of a path are its node, and those it is below. -/
theorem Forall.of_mem_path {P : α → Forest α → Prop} : ∀ {f : Forest α} {l : List α} {x : α},
    f.Forall P → f.path ident i = some l → x ∈ l →
      ∃ children, P x children ∧ (ident x = i ∨ i ∈ ids ident children)
  | nil, l, x, _, h, _ => by cases h
  | cons y children siblings, l, x, ⟨hy, hchildren, hsiblings⟩, h, hx => by
    rw [path] at h
    split_ifs at h with hi
    · obtain rfl := Option.some.inj h
      obtain rfl := List.mem_singleton.mp hx
      exact ⟨children, hy, .inl hi⟩
    · rcases Option.or_eq_some_iff.mp h with h | ⟨-, h⟩
      · obtain ⟨below, hbelow, rfl⟩ := Option.map_eq_some_iff.mp h
        rcases List.mem_cons.mp hx with rfl | hx
        · exact ⟨children, hy, .inr (path_isSome.mp (by rw [hbelow]; rfl))⟩
        · exact hchildren.of_mem_path hbelow hx
      · exact hsiblings.of_mem_path h hx

/-! ### Updates along a path -/

/-- What `g` keeps, the update keeps. -/
theorem map_nodes_mapPath {g : α → α} {h : α → β} (hg : ∀ x, h (g x) = h x) :
    ∀ f : Forest α, (f.mapPath ident g i).nodes.map h = f.nodes.map h
  | nil => rfl
  | cons x children siblings => by
    rw [mapPath]
    split_ifs
    · simp [nodes, hg]
    · simp [nodes, hg, map_nodes_mapPath hg children]
    · simp [nodes, map_nodes_mapPath hg siblings]

theorem ids_mapPath {g : α → α} (hg : ∀ x, ident (g x) = ident x) (f : Forest α) :
    ids ident (f.mapPath ident g i) = ids ident f :=
  map_nodes_mapPath hg f

theorem map_top_mapPath {g : α → α} {h : α → β} (hg : ∀ x, h (g x) = h x) :
    ∀ f : Forest α, (f.mapPath ident g i).top.map h = f.top.map h
  | nil => rfl
  | cons x children siblings => by
    rw [mapPath]
    split_ifs
    · simp [top, hg]
    · simp [top, hg]
    · simp [top, map_top_mapPath hg siblings]

/-- A sum over the nodes changes by what it changes on the path. -/
theorem sum_nodes_mapPath {M : Type*} [AddCommMonoid M] {g : α → α} (w : α → M) :
    ∀ {f : Forest α} {l : List α}, f.path ident i = some l →
      ((f.mapPath ident g i).nodes.map w).sum + (l.map w).sum
        = (f.nodes.map w).sum + (l.map fun x => w (g x)).sum
  | nil, l, h => by cases h
  | cons x children siblings, l, h => by
    rw [path] at h
    rw [mapPath]
    split_ifs at h ⊢ with hx hchildren
    · obtain rfl := Option.some.inj h
      simp only [nodes, List.map_cons, List.sum_cons, List.map_nil, List.sum_nil, add_zero]
      ac_rfl
    · obtain ⟨below, hbelow⟩ := Option.isSome_iff_exists.mp hchildren
      rw [hbelow, Option.map_some, Option.some_or] at h
      obtain rfl := Option.some.inj h
      have ih := sum_nodes_mapPath (g := g) w hbelow
      simp only [nodes, List.map_cons, List.map_append, List.sum_cons, List.sum_append]
      calc w (g x) + (((children.mapPath ident g i).nodes.map w).sum + (siblings.nodes.map w).sum)
            + (w x + (below.map w).sum)
          = w (g x) + w x + (siblings.nodes.map w).sum
            + (((children.mapPath ident g i).nodes.map w).sum + (below.map w).sum) := by ac_rfl
        _ = w (g x) + w x + (siblings.nodes.map w).sum
            + ((children.nodes.map w).sum + (below.map fun y => w (g y)).sum) := by rw [ih]
        _ = w x + ((children.nodes.map w).sum + (siblings.nodes.map w).sum)
            + (w (g x) + (below.map fun y => w (g y)).sum) := by ac_rfl
    · rw [Option.not_isSome_iff_eq_none.mp hchildren, Option.map_none, Option.none_or] at h
      have ih := sum_nodes_mapPath (g := g) w h
      simp only [nodes, List.map_cons, List.map_append, List.sum_cons, List.sum_append]
      calc w x + ((children.nodes.map w).sum + ((siblings.mapPath ident g i).nodes.map w).sum)
            + (l.map w).sum
          = w x + (children.nodes.map w).sum
            + (((siblings.mapPath ident g i).nodes.map w).sum + (l.map w).sum) := by ac_rfl
        _ = w x + ((children.nodes.map w).sum + (siblings.nodes.map w).sum)
            + (l.map fun y => w (g y)).sum := by rw [ih]; ac_rfl

/-- Paths are the same, as far as `g` keeps the nodes. -/
theorem map_path_mapPath {g : α → α} {h : α → β} (hident : ∀ x, ident (g x) = ident x)
    (hg : ∀ x, h (g x) = h x) : ∀ f : Forest α,
      ((f.mapPath ident g i).path ident j).map (·.map h) = (f.path ident j).map (·.map h)
  | nil => rfl
  | cons x children siblings => by
    have hchildren := map_path_mapPath hident hg children
    have hsiblings := map_path_mapPath hident hg siblings
    rw [mapPath]
    split_ifs
    · simp only [path, hident]
      split_ifs
      · simp [hg]
      · cases children.path ident j <;> simp [hg]
    · simp only [path, hident]
      split_ifs
      · simp [hg]
      · cases hpath : children.path ident j <;>
          cases hpath' : (children.mapPath ident g i).path ident j <;>
          simp_all
    · simp only [path]
      split_ifs
      · rfl
      · cases children.path ident j
        · simpa using hsiblings
        · simp

/-- What is not on the path stays, with its children. -/
theorem find_mapPath_of_notMem {g : α → α} (hident : ∀ x, ident (g x) = ident x) :
    ∀ {f : Forest α} {l : List α}, (ids ident f).Nodup → f.path ident i = some l →
      j ∉ l.map ident → (f.mapPath ident g i).find ident j = f.find ident j
  | nil, l, _, h, _ => by cases h
  | cons x children siblings, l, hnodup, h, hj => by
    obtain ⟨-, hnodup₁, hnodup₂, -⟩ := nodup_cons.mp hnodup
    rw [path] at h
    rw [mapPath]
    split_ifs at h ⊢ with hx hchildren
    · obtain rfl := Option.some.inj h
      rw [List.map_singleton, List.mem_singleton] at hj
      rw [find, find, hident, if_neg (Ne.symm hj), if_neg (Ne.symm hj)]
    · obtain ⟨below, hbelow⟩ := Option.isSome_iff_exists.mp hchildren
      rw [hbelow, Option.map_some, Option.some_or] at h
      obtain rfl := Option.some.inj h
      rw [List.map_cons, List.mem_cons, not_or] at hj
      rw [find, find, hident, if_neg (Ne.symm hj.1), if_neg (Ne.symm hj.1),
        find_mapPath_of_notMem hident hnodup₁ hbelow hj.2]
    · rw [Option.not_isSome_iff_eq_none.mp hchildren, Option.map_none, Option.none_or] at h
      rw [find, find, find_mapPath_of_notMem hident hnodup₂ h hj]

/-- What holds of the nodes holds after an update that turns it into that on the path, and into
nothing else off it. -/
theorem Forall.mapPath {P Q : α → Forest α → Prop} {g : α → α}
    (hident : ∀ x, ident (g x) = ident x)
    (hon : ∀ x children children', ident x = i ∨ i ∈ ids ident children →
      ids ident children' = ids ident children → P x children → Q (g x) children')
    (hoff : ∀ x children, ident x ≠ i → i ∉ ids ident children → P x children → Q x children) :
    ∀ {f : Forest α}, (ids ident f).Nodup → i ∈ ids ident f → f.Forall P →
      (f.mapPath ident g i).Forall Q
  | nil, _, h, _ => by cases h
  | cons x children siblings, hnodup, hi, ⟨hx, hchildren, hsiblings⟩ => by
    obtain ⟨⟨hx₁, hx₂⟩, hnodup₁, hnodup₂, hdisjoint⟩ := nodup_cons.mp hnodup
    have hout : ∀ {f : Forest α}, i ∉ ids ident f → f.Forall P → f.Forall Q := fun hnot h =>
      h.imp fun y below hy hbelow hP => hoff y below
        (fun heq => hnot (heq ▸ List.mem_map_of_mem hy))
        (fun hmem => hnot (List.map_subset ident hbelow hmem)) hP
    rw [Forest.mapPath]
    rw [ids_cons, List.mem_cons, List.mem_append] at hi
    split_ifs with hxi hpath
    · exact ⟨hon x children children (.inl hxi) rfl hx, hout (hxi ▸ hx₁) hchildren,
        hout (hxi ▸ hx₂) hsiblings⟩
    · have hmem := path_isSome.mp hpath
      exact ⟨hon x children _ (.inr hmem) (ids_mapPath hident children) hx,
        Forall.mapPath hident hon hoff hnodup₁ hmem hchildren,
        hout (fun h => hdisjoint hmem h) hsiblings⟩
    · have hnot : i ∉ ids ident children := fun h => hpath (path_isSome.mpr h)
      exact ⟨hoff x children hxi hnot hx, hout hnot hchildren,
        Forall.mapPath hident hon hoff hnodup₂
          ((hi.resolve_left (Ne.symm hxi)).resolve_left hnot) hsiblings⟩

/-! ### A node more -/

theorem nodes_addSibling (x : α) : ∀ f : Forest α, (f.addSibling x).nodes = f.nodes ++ [x]
  | nil => rfl
  | cons y children siblings => by
    rw [addSibling, nodes, nodes_addSibling x siblings, nodes]
    simp

theorem top_addSibling (x : α) : ∀ f : Forest α, (f.addSibling x).top = f.top ++ [x]
  | nil => rfl
  | cons y children siblings => by rw [addSibling, top, top_addSibling x siblings]; rfl

theorem top_addBelow (x : α) : ∀ f : Forest α, (f.addBelow ident x i).top = f.top
  | nil => rfl
  | cons y children siblings => by
    rw [addBelow]
    split_ifs
    · rfl
    · rw [top, top_addBelow x siblings, top]

theorem addBelow_eq_nil (x : α) : f.addBelow ident x i = nil ↔ f = nil := by
  cases f with
  | nil => simp [addBelow]
  | cons y children siblings =>
    rw [addBelow]
    split_ifs <;> simp

theorem addBelow_of_notMem (x : α) : ∀ {f : Forest α}, i ∉ ids ident f →
    f.addBelow ident x i = f
  | nil, _ => rfl
  | cons y children siblings, h => by
    rw [ids_cons, List.mem_cons, List.mem_append, not_or, not_or] at h
    rw [addBelow, if_neg (Ne.symm h.1), addBelow_of_notMem x h.2.1, addBelow_of_notMem x h.2.2]

theorem nodes_addBelow_perm (x : α) : ∀ {f : Forest α}, (ids ident f).Nodup → i ∈ ids ident f →
    (f.addBelow ident x i).nodes.Perm (x :: f.nodes)
  | nil, _, h => by cases h
  | cons y children siblings, hnodup, h => by
    obtain ⟨⟨hy₁, hy₂⟩, hnodup₁, hnodup₂, hdisjoint⟩ := nodup_cons.mp hnodup
    rw [addBelow]
    split_ifs with hy
    · rw [nodes, nodes_addSibling, nodes]
      simpa using @List.perm_middle _ x (y :: children.nodes) siblings.nodes
    · rw [ids_cons, List.mem_cons, List.mem_append] at h
      rw [nodes, nodes]
      rcases h.resolve_left (Ne.symm hy) with h | h
      · rw [addBelow_of_notMem x (fun h' => hdisjoint h h')]
        exact (((nodes_addBelow_perm x hnodup₁ h).append_right _).cons y).trans
          (List.Perm.swap x y _)
      · rw [addBelow_of_notMem x (fun h' => hdisjoint h' h)]
        refine (((nodes_addBelow_perm x hnodup₂ h).append_left _).cons y).trans ?_
        exact (List.perm_middle.cons y).trans (List.Perm.swap x y _)

theorem find_addSibling_of_ne {x : α} (hj : ident x ≠ j) : ∀ f : Forest α,
    (f.addSibling x).find ident j = f.find ident j
  | nil => by simp [addSibling, find, hj]
  | cons y children siblings => by
    rw [addSibling, find, find, find_addSibling_of_ne hj siblings]

/-- What is not added stays, with a child more where it is added to. -/
theorem find_addBelow {x : α} (hj : ident x ≠ j) : ∀ {f : Forest α}, (ids ident f).Nodup →
    (f.addBelow ident x i).find ident j = (f.find ident j).map fun entry =>
      (entry.1, if ident entry.1 = i then entry.2.addSibling x else entry.2.addBelow ident x i)
  | nil, _ => rfl
  | cons y children siblings, hnodup => by
    obtain ⟨⟨hy₁, hy₂⟩, hnodup₁, hnodup₂, -⟩ := nodup_cons.mp hnodup
    have hout : ∀ {g : Forest α}, i ∉ ids ident g → (g.find ident j).map (fun entry => (entry.1,
        if ident entry.1 = i then entry.2.addSibling x else entry.2.addBelow ident x i))
          = g.find ident j := fun {g} hg => by
      cases hfind : g.find ident j with
      | none => rfl
      | some entry =>
        obtain ⟨-, hmem, hsub⟩ := of_find hfind
        have hne : ident entry.1 ≠ i := fun h => hg (h ▸ List.mem_map_of_mem hmem)
        rw [Option.map_some, if_neg hne,
          addBelow_of_notMem x fun h => hg (List.map_subset ident hsub h)]
    rw [addBelow]
    split_ifs with hy
    · rw [find, find, find_addSibling_of_ne hj]
      split_ifs with hyj
      · simp [hy]
      · rw [Option.map_or, hout (hy ▸ hy₁), hout (hy ▸ hy₂)]
    · rw [find, find]
      split_ifs with hyj
      · simp [hy]
      · rw [Option.map_or, find_addBelow hj hnodup₁, find_addBelow hj hnodup₂]

theorem path_addSibling_of_ne {x : α} (hj : ident x ≠ j) : ∀ f : Forest α,
    (f.addSibling x).path ident j = f.path ident j
  | nil => by simp [addSibling, path, hj]
  | cons y children siblings => by
    rw [addSibling, path, path, path_addSibling_of_ne hj siblings]

theorem path_addBelow_of_ne {x : α} (hj : ident x ≠ j) : ∀ f : Forest α,
    (f.addBelow ident x i).path ident j = f.path ident j
  | nil => rfl
  | cons y children siblings => by
    rw [addBelow]
    split_ifs
    · rw [path, path, path_addSibling_of_ne hj]
    · rw [path, path, path_addBelow_of_ne hj children, path_addBelow_of_ne hj siblings]

theorem mem_ids_addSibling {x : α} (hj : ident x ≠ j) :
    j ∈ ids ident (f.addSibling x) ↔ j ∈ ids ident f := by
  rw [← path_isSome, ← path_isSome, path_addSibling_of_ne hj]

theorem mem_ids_addBelow {x : α} (hj : ident x ≠ j) :
    j ∈ ids ident (f.addBelow ident x i) ↔ j ∈ ids ident f := by
  rw [← path_isSome, ← path_isSome, path_addBelow_of_ne hj]

theorem nodes_addChild_perm (x : α) {last : Option ℕ} (hnodup : (ids ident f).Nodup)
    (hlast : ∀ i, last = some i → i ∈ ids ident f) :
    (f.addChild ident x last).nodes.Perm (x :: f.nodes) := by
  cases last with
  | none =>
    change (f.addSibling x).nodes.Perm (x :: f.nodes)
    rw [nodes_addSibling]
    exact List.perm_append_comm
  | some i => exact nodes_addBelow_perm x hnodup (hlast i rfl)

theorem Forall.addSibling {P : α → Forest α → Prop} {x : α} (hx : P x nil) : ∀ {f : Forest α},
    f.Forall P → (f.addSibling x).Forall P
  | nil, _ => ⟨hx, trivial, trivial⟩
  | cons _ _ _, ⟨hy, hchildren, hsiblings⟩ => ⟨hy, hchildren, hsiblings.addSibling hx⟩

theorem Forall.addBelow {P : α → Forest α → Prop} {x : α} (hx : P x nil)
    (hsibling : ∀ y children, P y children → P y (children.addSibling x))
    (hbelow : ∀ y children, P y children → P y (children.addBelow ident x i)) :
    ∀ {f : Forest α}, f.Forall P → (f.addBelow ident x i).Forall P
  | nil, _ => trivial
  | cons y children siblings, ⟨hy, hchildren, hsiblings⟩ => by
    rw [Forest.addBelow]
    split_ifs
    · exact ⟨hsibling y children hy, hchildren.addSibling hx, hsiblings⟩
    · exact ⟨hbelow y children hy, hchildren.addBelow hx hsibling hbelow,
        hsiblings.addBelow hx hsibling hbelow⟩

theorem Forall.addChild {P : α → Forest α → Prop} {x : α} (hx : P x nil)
    (hP : ∀ y children children', (∀ j, ident x ≠ j →
      (j ∈ ids ident children' ↔ j ∈ ids ident children)) → P y children → P y children')
    (h : f.Forall P) : ∀ last, (f.addChild ident x last).Forall P
  | none => h.addSibling hx
  | some _ => h.addBelow hx (fun y children => hP y children _ fun _ hj => mem_ids_addSibling hj)
      fun y children => hP y children _ fun _ hj => mem_ids_addBelow hj

/-! ### A leaf less -/

theorem erase_of_notMem : ∀ {f : Forest α}, i ∉ ids ident f → f.erase ident i = f
  | nil, _ => rfl
  | cons y children siblings, h => by
    rw [ids_cons, List.mem_cons, List.mem_append, not_or, not_or] at h
    rw [erase, if_neg (Ne.symm h.1), erase_of_notMem h.2.1, erase_of_notMem h.2.2]

theorem top_erase_sublist : ∀ f : Forest α, (f.erase ident i).top.Sublist f.top
  | nil => List.Sublist.refl _
  | cons y children siblings => by
    rw [erase]
    split_ifs
    · exact List.sublist_cons_self y _
    · exact (top_erase_sublist siblings).cons_cons y

theorem nodes_erase_perm {x : α} : ∀ {f : Forest α}, (ids ident f).Nodup →
    f.find ident i = some (x, nil) → f.nodes.Perm (x :: (f.erase ident i).nodes)
  | nil, _, h => by cases h
  | cons y children siblings, hnodup, h => by
    obtain ⟨⟨hy₁, hy₂⟩, hnodup₁, hnodup₂, hdisjoint⟩ := nodup_cons.mp hnodup
    rw [find] at h
    rw [erase]
    split_ifs at h ⊢ with hy
    · obtain ⟨rfl, rfl⟩ := Prod.mk.inj (Option.some.inj h)
      simp [nodes]
    · rw [nodes, nodes]
      rcases Option.or_eq_some_iff.mp h with h | ⟨hnone, h⟩
      · rw [erase_of_notMem fun h' => hdisjoint (mem_ids_of_find h) h']
        exact (((nodes_erase_perm hnodup₁ h).append_right _).cons y).trans (List.Perm.swap x y _)
      · rw [erase_of_notMem (find_eq_none.mp hnone)]
        refine (((nodes_erase_perm hnodup₂ h).append_left _).cons y).trans ?_
        exact (List.perm_middle.cons y).trans (List.Perm.swap x y _)

/-- What is not taken out stays, less what is. -/
theorem find_erase {x : α} (hj : i ≠ j) : ∀ {f : Forest α}, (ids ident f).Nodup →
    f.find ident i = some (x, nil) → (f.erase ident i).find ident j
      = (f.find ident j).map fun entry => (entry.1, entry.2.erase ident i)
  | nil, _, h => by cases h
  | cons y children siblings, hnodup, h => by
    obtain ⟨⟨hy₁, hy₂⟩, hnodup₁, hnodup₂, hdisjoint⟩ := nodup_cons.mp hnodup
    have hout : ∀ {g : Forest α}, i ∉ ids ident g → (g.find ident j).map (fun entry => (entry.1,
        entry.2.erase ident i)) = g.find ident j := fun {g} hg => by
      cases hfind : g.find ident j with
      | none => rfl
      | some entry =>
        obtain ⟨-, -, hsub⟩ := of_find hfind
        rw [Option.map_some, erase_of_notMem fun h => hg (List.map_subset ident hsub h)]
    rw [find] at h
    rw [erase]
    split_ifs at h ⊢ with hy
    · obtain ⟨rfl, rfl⟩ := Prod.mk.inj (Option.some.inj h)
      rw [find, if_neg (hy ▸ hj), find, Option.none_or, hout (hy ▸ hy₂)]
    · rw [find, find]
      split_ifs with hyj
      · rfl
      · rw [Option.map_or]
        rcases Option.or_eq_some_iff.mp h with h | ⟨hnone, h⟩
        · have hnot : i ∉ ids ident siblings := fun h' => hdisjoint (mem_ids_of_find h) h'
          rw [erase_of_notMem hnot, find_erase hj hnodup₁ h, hout hnot]
        · have hnot := find_eq_none.mp hnone
          rw [erase_of_notMem hnot, find_erase hj hnodup₂ h, hout hnot]

theorem path_erase {x : α} (hj : i ≠ j) : ∀ {f : Forest α}, (ids ident f).Nodup →
    f.find ident i = some (x, nil) → (f.erase ident i).path ident j = f.path ident j
  | nil, _, h => by cases h
  | cons y children siblings, hnodup, h => by
    obtain ⟨⟨hy₁, hy₂⟩, hnodup₁, hnodup₂, hdisjoint⟩ := nodup_cons.mp hnodup
    rw [find] at h
    rw [erase]
    split_ifs at h ⊢ with hy
    · obtain ⟨rfl, rfl⟩ := Prod.mk.inj (Option.some.inj h)
      rw [path, if_neg (hy ▸ hj), path, Option.map_none, Option.none_or]
    · rw [path, path]
      rcases Option.or_eq_some_iff.mp h with h | ⟨hnone, h⟩
      · rw [erase_of_notMem fun h' => hdisjoint (mem_ids_of_find h) h', path_erase hj hnodup₁ h]
      · rw [erase_of_notMem (find_eq_none.mp hnone), path_erase hj hnodup₂ h]

theorem mem_ids_erase {x : α} (hj : i ≠ j) (hnodup : (ids ident f).Nodup)
    (h : f.find ident i = some (x, nil)) :
    j ∈ ids ident (f.erase ident i) ↔ j ∈ ids ident f := by
  rw [← path_isSome, ← path_isSome, path_erase hj hnodup h]

theorem Forall.erase {P : α → Forest α → Prop} {x : α}
    (hP : ∀ y children, (ids ident children).Nodup → children.find ident i = some (x, nil) →
      P y children → P y (children.erase ident i)) :
    ∀ {f : Forest α}, (ids ident f).Nodup → f.find ident i = some (x, nil) → f.Forall P →
      (f.erase ident i).Forall P
  | nil, _, h, _ => by cases h
  | cons y children siblings, hnodup, h, ⟨hy, hchildren, hsiblings⟩ => by
    obtain ⟨-, hnodup₁, hnodup₂, hdisjoint⟩ := nodup_cons.mp hnodup
    rw [find] at h
    rw [Forest.erase]
    split_ifs at h ⊢
    · exact hsiblings
    · rcases Option.or_eq_some_iff.mp h with h | ⟨hnone, h⟩
      · rw [erase_of_notMem fun h' => hdisjoint (mem_ids_of_find h) h']
        exact ⟨hP y children hnodup₁ h hy, hchildren.erase hP hnodup₁ h, hsiblings⟩
      · rw [erase_of_notMem (find_eq_none.mp hnone)]
        exact ⟨hy, hchildren, hsiblings.erase hP hnodup₂ h⟩

/-- No node is left where there was none, or only the one taken out. -/
theorem erase_eq_nil (h : f.erase ident i = nil) :
    f = nil ∨ ∃ x children, f = cons x children nil ∧ ident x = i := by
  cases f with
  | nil => exact .inl rfl
  | cons x children siblings =>
    rw [erase] at h
    split_ifs at h with hx
    exact .inr ⟨x, children, by rw [h], hx⟩

/-! ### Parents -/

theorem notMem_top_of_find {x : α} {children : Forest α} : ∀ {f : Forest α},
    (ids ident f).Nodup → f.find ident j = some (x, children) → i ∈ ids ident children →
      i ∉ f.top.map ident
  | nil, _, h, _ => by cases h
  | cons y below siblings, hnodup, h, hi => by
    obtain ⟨⟨hy₁, hy₂⟩, hnodup₁, hnodup₂, hdisjoint⟩ := nodup_cons.mp hnodup
    have hsiblings : ∀ {k}, k ∈ siblings.top.map ident → k ∈ ids ident siblings := fun hk => by
      obtain ⟨z, hz, rfl⟩ := List.mem_map.mp hk
      exact mem_ids_of_mem_top hz
    have hbelow : i ∈ ids ident below → i ∉ (cons y below siblings).top.map ident := fun h' hmem =>
      by
      rcases List.mem_cons.mp hmem with rfl | hmem
      · exact hy₁ h'
      · exact hdisjoint h' (hsiblings hmem)
    rw [find] at h
    split_ifs at h
    · obtain ⟨rfl, rfl⟩ := Prod.mk.inj (Option.some.inj h)
      exact hbelow hi
    · rcases Option.or_eq_some_iff.mp h with h | ⟨-, h⟩
      · exact hbelow (List.map_subset ident (of_find h).2.2 hi)
      · intro hmem
        rcases List.mem_cons.mp hmem with rfl | hmem
        · exact hy₂ (List.map_subset ident (of_find h).2.2 hi)
        · exact notMem_top_of_find hnodup₂ h hi hmem

theorem mem_ids_of_mem_map_top {f : Forest α} (h : i ∈ f.top.map ident) : i ∈ ids ident f := by
  obtain ⟨x, hx, rfl⟩ := List.mem_map.mp h
  exact mem_ids_of_mem_top hx

theorem parent_eq_none_of_notMem : ∀ {f : Forest α}, i ∉ ids ident f → f.parent ident i = none
  | nil, _ => rfl
  | cons y children siblings, h => by
    rw [ids_cons, List.mem_cons, List.mem_append, not_or, not_or] at h
    rw [parent, if_neg fun h' => h.2.1 (mem_ids_of_mem_map_top h'),
      parent_eq_none_of_notMem h.2.1, parent_eq_none_of_notMem h.2.2]
    rfl

theorem parent_of_find {x : α} {children : Forest α} : ∀ {f : Forest α}, (ids ident f).Nodup →
    f.find ident j = some (x, children) → i ∈ children.top.map ident → f.parent ident i = some x
  | nil, _, h, _ => by cases h
  | cons y below siblings, hnodup, h, hi => by
    obtain ⟨-, hnodup₁, hnodup₂, hdisjoint⟩ := nodup_cons.mp hnodup
    have hmem := mem_ids_of_mem_map_top hi
    rw [find] at h
    rw [parent]
    split_ifs at h
    · obtain ⟨rfl, rfl⟩ := Prod.mk.inj (Option.some.inj h)
      exact if_pos hi
    · rcases Option.or_eq_some_iff.mp h with h | ⟨-, h⟩
      · rw [if_neg (notMem_top_of_find hnodup₁ h hmem), parent_of_find hnodup₁ h hi, Option.some_or]
      · have hnot : i ∉ ids ident below := fun h' =>
          hdisjoint h' (List.map_subset ident (of_find h).2.2 hmem)
        rw [if_neg fun h' => hnot (mem_ids_of_mem_map_top h'), parent_eq_none_of_notMem hnot,
          Option.none_or, parent_of_find hnodup₂ h hi]

theorem find_of_parent {x : α} : ∀ {f : Forest α}, (ids ident f).Nodup →
    f.parent ident i = some x →
      ∃ children, f.find ident (ident x) = some (x, children) ∧ i ∈ children.top.map ident
  | nil, _, h => by cases h
  | cons y below siblings, hnodup, h => by
    obtain ⟨⟨hy₁, hy₂⟩, hnodup₁, hnodup₂, hdisjoint⟩ := nodup_cons.mp hnodup
    rw [parent] at h
    split_ifs at h with hi
    · obtain rfl := Option.some.inj h
      exact ⟨below, by rw [find, if_pos rfl], hi⟩
    · rcases Option.or_eq_some_iff.mp h with h | ⟨-, h⟩
      · obtain ⟨children, hfind, hmem⟩ := find_of_parent hnodup₁ h
        have hne : ident y ≠ ident x := fun heq => hy₁ (heq ▸ mem_ids_of_find hfind)
        exact ⟨children, by rw [find, if_neg hne, hfind, Option.some_or], hmem⟩
      · obtain ⟨children, hfind, hmem⟩ := find_of_parent hnodup₂ h
        have hx := mem_ids_of_find hfind
        have hne : ident y ≠ ident x := fun heq => hy₂ (heq ▸ hx)
        exact ⟨children, by rw [find, if_neg hne, find_eq_none.mpr fun h' => hdisjoint h' hx, hfind,
          Option.none_or], hmem⟩

end Ident

end Forest

end DraftOpd
