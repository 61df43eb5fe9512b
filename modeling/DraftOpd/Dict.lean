import Mathlib.Algebra.BigOperators.Group.List.Basic
import Mathlib.Data.List.Nodup

/-!
# Insertion-ordered dictionaries

A dictionary is its list of entries in insertion order, with one entry per key
carried as a field. Writing to a key keeps the key's place, writing to a new key
appends an entry. `upsert` is the idiom of reading an entry, or a default, and
writing back a new value. Counters are summed over a set of keys, and adding to one
adds to the sums it is part of (`sumWhere_set_add`).

A pass over the entries of one dictionary whose steps write into another, each
only its own key, writes every key once (`get?_foldl`). A pass that reads
something fallible from each entry agrees with the total one when every entry
can be read (`foldReadM_eq_ok`), and fails otherwise (`exists_read_of_foldReadM_ok`).
-/

set_option linter.unusedSectionVars false

namespace DraftOpd

/-- A dictionary with its entries in insertion order, one entry per key. -/
structure Dict (K V : Type*) where
  /-- The entries, oldest key first. -/
  entries : List (K × V)
  nodup : (entries.map Prod.fst).Nodup

namespace Dict

variable {K V W : Type*} [DecidableEq K]

/-- The dictionary without entries. -/
def empty : Dict K V := ⟨[], List.nodup_nil⟩

/-- The value of the entry with key `k`. -/
def lookup (k : K) (es : List (K × V)) : Option V :=
  (es.find? fun e => e.1 = k).map Prod.snd

/-- The value stored under `k`. -/
def get? (d : Dict K V) (k : K) : Option V := lookup k d.entries

/-- Replace the value under `k` in a list of entries that has `k`. -/
def replace (k : K) (v : V) (es : List (K × V)) : List (K × V) :=
  es.map fun e => if e.1 = k then (e.1, v) else e

theorem map_fst_replace (k : K) (v : V) (es : List (K × V)) :
    (replace k v es).map Prod.fst = es.map Prod.fst := by
  unfold replace
  rw [List.map_map]
  refine List.map_congr_left fun e _ => ?_
  by_cases h : e.1 = k <;> simp [h]

/-- `d[k] = v`. -/
def set (d : Dict K V) (k : K) (v : V) : Dict K V :=
  if h : k ∈ d.entries.map Prod.fst then
    ⟨replace k v d.entries, by rw [map_fst_replace]; exact d.nodup⟩
  else
    ⟨d.entries ++ [(k, v)], by
      rw [List.map_append, List.map_singleton]
      exact List.nodup_append.mpr ⟨d.nodup, by simp, by
        rintro a ha b hb rfl
        rw [List.mem_singleton.mp hb] at ha
        exact h ha⟩⟩

/-- Write back a value computed from the one stored under `k`, if any. -/
def upsert (d : Dict K V) (k : K) (f : Option V → V) : Dict K V :=
  d.set k (f (d.get? k))

/-! ## Lookup -/

@[simp] theorem lookup_nil (k : K) : lookup k ([] : List (K × V)) = none := rfl

theorem lookup_cons (k : K) (e : K × V) (es : List (K × V)) :
    lookup k (e :: es) = if e.1 = k then some e.2 else lookup k es := by
  unfold lookup
  by_cases h : e.1 = k <;> simp [h]

theorem lookup_append (k : K) (es fs : List (K × V)) :
    lookup k (es ++ fs) = (lookup k es).or (lookup k fs) := by
  induction es with
  | nil => simp
  | cons e es ih =>
    rw [List.cons_append, lookup_cons, lookup_cons, ih]
    split_ifs <;> simp

theorem lookup_eq_none_iff {k : K} {es : List (K × V)} :
    lookup k es = none ↔ k ∉ es.map Prod.fst := by
  induction es with
  | nil => simp
  | cons e es ih =>
    rw [lookup_cons]
    by_cases h : e.1 = k
    · simp [h]
    · simp [h, ih, Ne.symm h]

/-- With distinct keys, the entry of a key is the one looked up. -/
theorem lookup_of_mem {k : K} {v : V} {es : List (K × V)} (hnd : (es.map Prod.fst).Nodup)
    (h : (k, v) ∈ es) : lookup k es = some v := by
  induction es with
  | nil => simp at h
  | cons e es ih =>
    rw [List.map_cons, List.nodup_cons] at hnd
    rw [lookup_cons]
    rcases List.mem_cons.mp h with rfl | hmem
    · simp
    · have hne : e.1 ≠ k := by
        rintro rfl
        exact hnd.1 (List.mem_map.mpr ⟨_, hmem, rfl⟩)
      rw [if_neg hne, ih hnd.2 hmem]

/-- The entry looked up is an entry. -/
theorem entry_mem_of_lookup {k : K} {v : V} {es : List (K × V)} (h : lookup k es = some v) :
    (k, v) ∈ es := by
  obtain ⟨e, he, rfl⟩ := Option.map_eq_some_iff.mp h
  have hkey : e.1 = k := by simpa using List.find?_some he
  rw [← hkey]
  exact List.mem_of_find?_eq_some he

theorem lookup_replace (k k' : K) (v : V) (es : List (K × V)) (hk : k ∈ es.map Prod.fst) :
    lookup k' (replace k v es) = if k' = k then some v else lookup k' es := by
  induction es with
  | nil => simp at hk
  | cons e es ih =>
    have hcons : replace k v (e :: es) =
        (if e.1 = k then (e.1, v) else e) :: replace k v es := rfl
    rw [hcons, lookup_cons, lookup_cons]
    by_cases he : e.1 = k
    · subst he
      by_cases hk' : e.1 = k'
      · simp [hk']
      · by_cases hmem : e.1 ∈ es.map Prod.fst
        · simp [hk', ih hmem]
        · have hsame : replace e.1 v es = es := by
            unfold replace
            conv_rhs => rw [← List.map_id es]
            refine List.map_congr_left fun f hf => if_neg fun h => hmem ?_
            exact h ▸ List.mem_map_of_mem hf
          simp [hk', hsame, Ne.symm hk']
    · have hmem : k ∈ es.map Prod.fst := by
        rw [List.map_cons] at hk
        exact (List.mem_cons.mp hk).resolve_left (Ne.symm he)
      by_cases hk' : e.1 = k'
      · subst hk'
        simp [he]
      · simp [he, hk', ih hmem]

@[simp] theorem get?_empty (k : K) : (empty : Dict K V).get? k = none := rfl

/-- Writing to `k` changes the value under `k` and no other. -/
theorem get?_set (d : Dict K V) (k k' : K) (v : V) :
    (d.set k v).get? k' = if k' = k then some v else d.get? k' := by
  unfold set get?
  split_ifs with h hk hk
  · rw [lookup_replace k k' v _ h, if_pos hk]
  · rw [lookup_replace k k' v _ h, if_neg hk]
  · subst hk
    rw [lookup_append, lookup_eq_none_iff.mpr h]
    simp [lookup_cons]
  · rw [lookup_append, lookup_cons, if_neg (Ne.symm hk), lookup_nil, Option.or_none]

theorem get?_upsert (d : Dict K V) (k k' : K) (f : Option V → V) :
    (d.upsert k f).get? k' = if k' = k then some (f (d.get? k)) else d.get? k' :=
  get?_set d k k' _

/-- The entries are the pairs that can be looked up. -/
theorem mem_entries_iff {d : Dict K V} {k : K} {v : V} : (k, v) ∈ d.entries ↔ d.get? k = some v :=
  ⟨lookup_of_mem d.nodup, entry_mem_of_lookup⟩

/-- The keys, oldest first. -/
def keys (d : Dict K V) : List K := d.entries.map Prod.fst

theorem nodup_keys (d : Dict K V) : d.keys.Nodup := d.nodup

theorem mem_keys_iff {d : Dict K V} {k : K} : k ∈ d.keys ↔ d.get? k ≠ none := by
  rw [keys, get?, Ne, lookup_eq_none_iff, not_not]

theorem mem_keys_set {d : Dict K V} {k k' : K} {v : V} :
    k' ∈ (d.set k v).keys ↔ k' = k ∨ k' ∈ d.keys := by
  rw [mem_keys_iff, mem_keys_iff, get?_set]
  by_cases h : k' = k <;> simp [h]

/-! ## Counters -/

/-- Writing to a key that is there keeps the keys in their places. -/
theorem entries_set_of_mem {d : Dict K V} {k : K} (v : V) (h : k ∈ d.keys) :
    (d.set k v).entries = replace k v d.entries := by
  unfold set
  rw [dif_pos (show k ∈ d.entries.map Prod.fst from h)]

theorem keys_set_of_mem {d : Dict K V} {k : K} (v : V) (h : k ∈ d.keys) :
    (d.set k v).keys = d.keys := by
  rw [keys, entries_set_of_mem v h, map_fst_replace, keys]

theorem replace_append (k : K) (v : V) (es fs : List (K × V)) :
    replace k v (es ++ fs) = replace k v es ++ replace k v fs := List.map_append

theorem replace_cons (k : K) (v : V) (e : K × V) (es : List (K × V)) :
    replace k v (e :: es) = (if e.1 = k then (e.1, v) else e) :: replace k v es := rfl

theorem replace_of_not_mem {k : K} (v : V) {es : List (K × V)} (h : k ∉ es.map Prod.fst) :
    replace k v es = es := by
  refine (List.map_congr_left fun e he => if_neg ?_).trans (List.map_id es)
  rintro rfl
  exact h (List.mem_map_of_mem he)

/-- The sum of the values under the keys that satisfy `p`. -/
def sumWhere [AddCommMonoid V] (d : Dict K V) (p : K → Bool) : V :=
  ((d.entries.filter fun e => p e.1).map Prod.snd).sum

/-- `d[k] += c` adds `c` to the sums that the key is part of. -/
theorem sumWhere_set_add [AddCommMonoid V] {d : Dict K V} {k : K} {v : V}
    (h : d.get? k = some v) (c : V) (p : K → Bool) :
    (d.set k (v + c)).sumWhere p = d.sumWhere p + if p k then c else 0 := by
  have hmem := mem_entries_iff.mpr h
  have hkey : k ∈ d.keys := List.mem_map.mpr ⟨_, hmem, rfl⟩
  obtain ⟨es, fs, hsplit⟩ := List.append_of_mem hmem
  have hnd := d.nodup
  rw [hsplit, List.map_append, List.map_cons, List.nodup_middle, List.nodup_cons,
    List.mem_append, not_or] at hnd
  have hset : (d.set k (v + c)).entries = es ++ (k, v + c) :: fs := by
    rw [entries_set_of_mem _ hkey, hsplit, replace_append, replace_of_not_mem _ hnd.1.1,
      replace_cons, if_pos rfl, replace_of_not_mem _ hnd.1.2]
  unfold sumWhere
  rw [hset, hsplit]
  by_cases hp : p k = true
  · simp [hp, add_assoc, add_comm c]
  · simp [hp]

/-! ## Passes over the entries -/

/-- A step that writes only the key it is given, its new value from the old one. -/
def WritesOwnKey (step : Dict K W → K → V → Dict K W) (g : K → V → Option W → Option W) : Prop :=
  ∀ acc k v k', (step acc k v).get? k' = if k' = k then g k v (acc.get? k) else acc.get? k'

theorem writesOwnKey_upsert (f : K → V → Option W → W) :
    WritesOwnKey (fun acc k v => acc.upsert k (f k v)) fun k v old => some (f k v old) :=
  fun acc k v k' => get?_upsert acc k k' (f k v)

/-- A step on values computed from those of the entries. -/
theorem WritesOwnKey.comp {U : Type*} {step : Dict K W → K → U → Dict K W}
    {g : K → U → Option W → Option W} (h : WritesOwnKey step g) (u : V → U) :
    WritesOwnKey (fun acc k v => step acc k (u v)) fun k v => g k (u v) :=
  fun acc k v k' => h acc k (u v) k'

/-- A pass over entries with distinct keys writes each of its keys once. -/
theorem get?_foldl {step : Dict K W → K → V → Dict K W} {g : K → V → Option W → Option W}
    (hstep : WritesOwnKey step g) :
    ∀ (es : List (K × V)) (acc : Dict K W) (k : K), (es.map Prod.fst).Nodup →
      (es.foldl (fun acc e => step acc e.1 e.2) acc).get? k =
        (lookup k es).elim (acc.get? k) fun v => g k v (acc.get? k)
  | [], acc, k, _ => rfl
  | e :: es, acc, k, hnd => by
    rw [List.map_cons, List.nodup_cons] at hnd
    rw [List.foldl_cons, get?_foldl hstep es _ k hnd.2, lookup_cons]
    by_cases he : e.1 = k
    · subst he
      have hnone : lookup e.1 es = none := lookup_eq_none_iff.mpr hnd.1
      simp [hnone, hstep acc e.1 e.2 e.1]
    · have hne : k ≠ e.1 := fun h => he h.symm
      rw [if_neg he, hstep acc e.1 e.2 k, if_neg hne]

/-- A pass whose step first reads something fallible from the entry. -/
def foldReadM {ε U : Type*} (read : V → Except ε U) (step : Dict K W → K → U → Dict K W)
    (es : List (K × V)) (acc : Dict K W) : Except ε (Dict K W) :=
  es.foldlM (fun acc e => (read e.2).map fun u => step acc e.1 u) acc

/-- When every entry can be read the pass is the total one over the values read. -/
theorem foldReadM_eq_ok {ε U : Type*} {read : V → Except ε U}
    (step : Dict K W → K → U → Dict K W) (u : V → U) :
    ∀ (es : List (K × V)) (acc : Dict K W), (∀ e ∈ es, read e.2 = .ok (u e.2)) →
      foldReadM read step es acc = .ok (es.foldl (fun acc e => step acc e.1 (u e.2)) acc)
  | [], _, _ => rfl
  | e :: es, acc, h => by
    have ih := foldReadM_eq_ok step u es (step acc e.1 (u e.2))
      fun e' he' => h e' (List.mem_cons_of_mem _ he')
    unfold foldReadM at ih ⊢
    rw [List.foldlM_cons, h e List.mem_cons_self]
    exact ih

/-- A pass that succeeds has read every entry. -/
theorem exists_read_of_foldReadM_ok {ε U : Type*} {read : V → Except ε U}
    {step : Dict K W → K → U → Dict K W} :
    ∀ (es : List (K × V)) (acc : Dict K W) {r : Dict K W},
      foldReadM read step es acc = .ok r → ∀ e ∈ es, ∃ u, read e.2 = .ok u
  | [], _, _, _, e, he => by simp at he
  | e :: es, acc, r, h, e', he' => by
    unfold foldReadM at h
    rw [List.foldlM_cons] at h
    cases hread : read e.2 with
    | error x => rw [hread] at h; cases h
    | ok u =>
      rw [hread] at h
      rcases List.mem_cons.mp he' with rfl | hmem
      · exact ⟨u, hread⟩
      · exact exists_read_of_foldReadM_ok es _ h e' hmem

end Dict

end DraftOpd
