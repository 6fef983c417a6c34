import Mathlib.Data.List.AList
import Mathlib.Data.List.Sort

/-!
# Keyed tables

`Table K V` is a map without repeated keys, `Records key` one whose values carry their own key. The
order of the entries stands for the iteration order; what a table means is its lookup function.
-/

namespace AstraStorage.Lib
open List

section Update

variable {K V : Type} [DecidableEq K] {f : K → Option V} {j k : K} {v w : V}

lemma update_none_eq_some : Function.update f k none j = some v ↔ j ≠ k ∧ f j = some v := by
  by_cases hj : j = k
  · simp [hj]
  · simp [hj]

lemma update_some_eq_some :
    Function.update f k (some w) j = some v ↔ (j = k ∧ w = v) ∨ (j ≠ k ∧ f j = some v) := by
  by_cases hj : j = k
  · simp [hj]
  · simp [hj]

lemma update_of_new (hk : f k = none) (hj : f j = some v) :
    Function.update f k (some w) j = some v := by
  refine update_some_eq_some.mpr (.inr ⟨?_, hj⟩)
  rintro rfl
  rw [hk] at hj
  cases hj

end Update

abbrev Table (K V : Type) := AList (fun _ : K => V)

namespace Table

variable {K V : Type}

/-- The stored values in iteration order. -/
def values (t : Table K V) : List V := t.entries.map Sigma.snd

/-- `len(t)`. -/
def size (t : Table K V) : Nat := t.entries.length

variable [DecidableEq K] {t u : Table K V} {j k : K} {v w : V}

lemma erase_insert_of_lookup_eq_none (h : t.lookup k = none) : (t.insert k v).erase k = t := by
  apply AList.ext
  change kerase k (t.insert k v).entries = t.entries
  rw [AList.entries_insert_of_notMem (AList.lookup_eq_none.mp h)]
  exact kerase_cons_eq rfl

lemma lookup_foldl_insert_map {W : Type} (g : K → V → W) (t : Table K V) (u : Table K W) (k : K) :
    (t.entries.foldl (fun u (e : Sigma fun _ : K => V) => u.insert e.1 (g e.1 e.2)) u).lookup k =
      ((t.lookup k).map (g k)).or (u.lookup k) := by
  have hloop : ∀ (entries : List (Sigma fun _ : K => V)) (u : Table K W), entries.NodupKeys →
      (entries.foldl (fun u e => u.insert e.1 (g e.1 e.2)) u).lookup k =
        ((entries.dlookup k).map (g k)).or (u.lookup k) := by
    intro entries
    induction entries with
    | nil => intro u _; rfl
    | cons e entries ih =>
      intro u hnodup
      obtain ⟨hnew, hrest⟩ := nodupKeys_cons.mp hnodup
      rw [foldl_cons, ih _ hrest]
      by_cases hk : k = e.1
      · subst hk
        rw [dlookup_cons_eq, dlookup_eq_none.mpr hnew, AList.lookup_insert]
        rfl
      · rw [dlookup_cons_ne _ _ hk, AList.lookup_insert_ne hk]
  exact hloop t.entries u t.nodupKeys

lemma lookup_foldl_insert (t u : Table K V) (k : K) :
    (t.entries.foldl (fun u (e : Sigma fun _ : K => V) => u.insert e.1 e.2) u).lookup k =
      (t.lookup k).or (u.lookup k) := by
  rw [lookup_foldl_insert_map (fun _ v => v), Option.map_id']

section Inserts

variable {α : Type} (key : α → K) (value : α → V)

/-- What was stored last under a key is one of the values of a list, or from before. -/
lemma of_lookup_foldl_insert_of {l : List α}
    (h : (l.foldl (fun t x => t.insert (key x) (value x)) t).lookup k = some v) :
    (∃ x ∈ l, key x = k ∧ value x = v) ∨ t.lookup k = some v := by
  induction l generalizing t with
  | nil => exact .inr h
  | cons x l ih =>
    rcases ih h with ⟨y, hy, hfound⟩ | hbefore
    · exact .inl ⟨y, mem_cons_of_mem x hy, hfound⟩
    · by_cases hk : k = key x
      · subst hk
        rw [AList.lookup_insert] at hbefore
        exact .inl ⟨x, mem_cons_self, rfl, Option.some.inj hbefore⟩
      · rw [AList.lookup_insert_ne hk] at hbefore
        exact .inr hbefore

lemma isSome_lookup_foldl_insert_of {l : List α} (h : (t.lookup k).isSome) :
    ((l.foldl (fun t x => t.insert (key x) (value x)) t).lookup k).isSome := by
  induction l generalizing t with
  | nil => exact h
  | cons x l ih =>
    refine ih ?_
    by_cases hk : k = key x
    · rw [hk, AList.lookup_insert]
      rfl
    · rw [AList.lookup_insert_ne hk]
      exact h

end Inserts

lemma lookup_foldl_erase (keys : List K) (t : Table K V) (k : K) :
    (keys.foldl (fun t key => t.erase key) t).lookup k =
      if k ∈ keys then none else t.lookup k := by
  induction keys generalizing t with
  | nil => rfl
  | cons key keys ih =>
    rw [foldl_cons, ih]
    by_cases hk : k = key
    · subst hk
      simp
    · simp [hk, AList.lookup_erase_ne hk]

lemma lookup_insert_ite (f : K → V) (key : K) (keys : List K) (t : Table K V) (k : K) :
    (if k ∈ keys then some (f k) else (t.insert key (f key)).lookup k) =
      if k ∈ key :: keys then some (f k) else t.lookup k := by
  by_cases hmem : k ∈ keys
  · rw [if_pos hmem, if_pos (mem_cons_of_mem _ hmem)]
  · rw [if_neg hmem]
    by_cases heq : k = key
    · subst heq
      rw [if_pos mem_cons_self, AList.lookup_insert]
    · rw [if_neg (not_mem_cons_of_ne_of_not_mem heq hmem), AList.lookup_insert_ne heq]

lemma mem_keys : k ∈ t.keys ↔ (t.lookup k).isSome := by
  rw [← AList.mem_keys, AList.lookup_isSome]

omit [DecidableEq K] in
lemma size_eq_length_keys (t : Table K V) : size t = t.keys.length := by
  simp [size, AList.keys, keys]

lemma size_congr (h : ∀ k, (t.lookup k).isSome ↔ (u.lookup k).isSome) : size t = size u := by
  rw [size_eq_length_keys, size_eq_length_keys]
  refine List.Perm.length_eq ((perm_ext_iff_of_nodup t.keys_nodup u.keys_nodup).mpr fun k => ?_)
  rw [mem_keys, mem_keys, h]

lemma size_succ (hk : u.lookup k = none)
    (h : ∀ j, (t.lookup j).isSome ↔ j = k ∨ (u.lookup j).isSome) : size t = size u + 1 := by
  rw [size_eq_length_keys, size_eq_length_keys]
  have hnew : k ∉ u.keys := by
    rw [mem_keys, hk]
    exact Bool.false_ne_true
  have hperm : t.keys.Perm (k :: u.keys) := by
    refine (perm_ext_iff_of_nodup t.keys_nodup (u.keys_nodup.cons hnew)).mpr fun j => ?_
    rw [mem_cons, mem_keys, mem_keys, h]
  rw [hperm.length_eq, length_cons]

lemma lookup_of_erase (h : (t.erase k).lookup j = some w) : t.lookup j = some w := by
  by_cases hj : j = k
  · rw [hj, AList.lookup_erase] at h
    cases h
  · rwa [AList.lookup_erase_ne hj] at h

lemma size_erase (hk : t.lookup k = some w) : size t = size (t.erase k) + 1 := by
  refine size_succ (AList.lookup_erase k t) fun j => ?_
  by_cases hj : j = k
  · rw [hj, hk]
    simp
  · simp [hj, AList.lookup_erase_ne hj]

lemma size_le_add {v : Table K V}
    (h : ∀ j, (t.lookup j).isSome → (u.lookup j).isSome ∨ (v.lookup j).isSome) :
    size t ≤ size u + size v := by
  simp only [size_eq_length_keys]
  rw [← length_append]
  refine (subperm_of_subset t.keys_nodup fun j hj => ?_).length_le
  rw [mem_append, mem_keys, mem_keys]
  exact h j (mem_keys.mp hj)

end Table

/-- Records stored under the key they carry, in iteration order. -/
structure Records {K V : Type} (key : V → K) where
  values : List V := []
  nodup : (values.map key).Nodup := by simp

namespace Records

variable {K V : Type} {key : V → K}

instance : EmptyCollection (Records key) := ⟨{}⟩

/-- `len(t)`. -/
def size (t : Records key) : Nat := t.values.length

variable [DecidableEq K] {t : Records key} {k : K} {v : V}

def lookup (t : Records key) (k : K) : Option V := t.values.find? (key · = k)

def erase (t : Records key) (k : K) : Records key where
  values := t.values.filter (key · ≠ k)
  nodup := t.nodup.sublist (List.filter_sublist.map key)

def put (t : Records key) (v : V) : Records key where
  values := v :: (t.erase (key v)).values
  nodup := by
    refine List.nodup_cons.mpr ⟨?_, (t.erase (key v)).nodup⟩
    simp [erase]

lemma lookup_eq_some : t.lookup k = some v ↔ v ∈ t.values ∧ key v = k := by
  constructor
  · intro h
    exact ⟨mem_of_find?_eq_some h, by simpa using find?_some h⟩
  · rintro ⟨hv, rfl⟩
    have hsome : (t.lookup (key v)).isSome := by
      rw [lookup, find?_isSome]
      exact ⟨v, hv, by simp⟩
    obtain ⟨w, hw⟩ := Option.isSome_iff_exists.mp hsome
    have hkey : key w = key v := by simpa using find?_some hw
    rw [hw, inj_on_of_nodup_map t.nodup (mem_of_find?_eq_some hw) hv hkey]

lemma key_of_lookup (h : t.lookup k = some v) : key v = k :=
  (lookup_eq_some.mp h).2

lemma mem_values : v ∈ t.values ↔ t.lookup (key v) = some v := by
  simp [lookup_eq_some]

lemma mem_values_iff_exists : v ∈ t.values ↔ ∃ k, t.lookup k = some v := by
  constructor
  · intro h
    exact ⟨key v, mem_values.mp h⟩
  · rintro ⟨k, hk⟩
    exact (lookup_eq_some.mp hk).1

@[simp] lemma lookup_empty (k : K) : (∅ : Records key).lookup k = none := rfl

lemma lookup_erase (t : Records key) (k : K) :
    (t.erase k).lookup = Function.update t.lookup k none := by
  funext j
  by_cases hjk : j = k
  · subst hjk
    simp [lookup, erase]
  · rw [Function.update_of_ne hjk]
    apply Option.ext
    intro v
    simp only [lookup_eq_some, erase, mem_filter, decide_eq_true_eq, ne_eq]
    constructor
    · rintro ⟨⟨hv, _⟩, hkey⟩
      exact ⟨hv, hkey⟩
    · rintro ⟨hv, rfl⟩
      exact ⟨⟨hv, hjk⟩, rfl⟩

lemma lookup_put (t : Records key) (v : V) :
    (t.put v).lookup = Function.update t.lookup (key v) (some v) := by
  funext j
  by_cases hj : j = key v
  · subst hj
    simp [lookup, put]
  · have hne : key v ≠ j := fun h => hj h.symm
    have hrest : (t.put v).lookup j = (t.erase (key v)).lookup j := by
      simp [lookup, put, hne]
    rw [hrest, lookup_erase, Function.update_of_ne hj, Function.update_of_ne hj]

lemma values_erase_of_lookup_eq_none (h : t.lookup k = none) : (t.erase k).values = t.values := by
  refine filter_eq_self.mpr fun v hv => decide_eq_true fun hk => ?_
  rw [← hk, mem_values.mp hv] at h
  cases h

lemma values_put_of_lookup_eq_none (h : t.lookup (key v) = none) :
    (t.put v).values = v :: t.values :=
  congrArg (v :: ·) (values_erase_of_lookup_eq_none h)

lemma values_erase_put (h : t.lookup (key v) = none) :
    ((t.put v).erase (key v)).values = t.values := by
  change (t.put v).values.filter (key · ≠ key v) = t.values
  rw [values_put_of_lookup_eq_none h, filter_cons_of_neg (by simp)]
  exact values_erase_of_lookup_eq_none h

/-- The records of `u` put over those of `t`. -/
def merge (t u : Records key) : Records key where
  values := u.values ++ t.values.filter fun v => (u.lookup (key v)).isNone
  nodup := by
    rw [List.map_append, List.nodup_append]
    refine ⟨u.nodup, t.nodup.sublist (List.filter_sublist.map key), ?_⟩
    intro k hk j hj
    rintro rfl
    obtain ⟨v, hv, rfl⟩ := List.mem_map.mp hk
    obtain ⟨w, hw, hwv⟩ := List.mem_map.mp hj
    have hnone := (List.mem_filter.mp hw).2
    rw [hwv, mem_values.mp hv] at hnone
    cases hnone

lemma lookup_merge (t u : Records key) (k : K) :
    (t.merge u).lookup k = (u.lookup k).or (t.lookup k) := by
  apply Option.ext
  intro v
  rw [lookup_eq_some]
  cases hu : u.lookup k with
  | some w =>
    rw [show (some w).or (t.lookup k) = some w from rfl, Option.some.injEq]
    simp only [merge, mem_append, mem_filter]
    constructor
    · rintro ⟨hv | ⟨_, hnone⟩, rfl⟩
      · rw [mem_values.mp hv] at hu
        exact Option.some.inj hu |>.symm
      · rw [hu] at hnone
        cases hnone
    · rintro rfl
      exact ⟨.inl (lookup_eq_some.mp hu).1, key_of_lookup hu⟩
  | none =>
    simp only [merge, mem_append, mem_filter, Option.none_or, lookup_eq_some]
    constructor
    · rintro ⟨hv | ⟨hv, _⟩, rfl⟩
      · rw [mem_values.mp hv] at hu
        cases hu
      · exact ⟨hv, rfl⟩
    · rintro ⟨hv, rfl⟩
      exact ⟨.inr ⟨hv, by rw [hu]; rfl⟩, rfl⟩

/-- The records that satisfy `p`. -/
def filter (t : Records key) (p : V → Bool) : Records key where
  values := t.values.filter p
  nodup := t.nodup.sublist (List.filter_sublist.map key)

lemma lookup_filter (t : Records key) (p : V → Bool) (k : K) :
    (t.filter p).lookup k = (t.lookup k).filter p := by
  apply Option.ext
  intro v
  simp only [Option.filter_eq_some_iff, lookup_eq_some, filter, mem_filter]
  constructor
  · rintro ⟨⟨hv, hp⟩, hkey⟩
    exact ⟨⟨hv, hkey⟩, hp⟩
  · rintro ⟨⟨hv, hkey⟩, hp⟩
    exact ⟨⟨hv, hp⟩, hkey⟩

lemma mem_keys_of_lookup (h : t.lookup k ≠ none) : k ∈ t.values.map key := by
  obtain ⟨v, hv⟩ := Option.ne_none_iff_exists'.mp h
  obtain ⟨hmem, rfl⟩ := lookup_eq_some.mp hv
  exact mem_map_of_mem hmem

end Records

end AstraStorage.Lib
