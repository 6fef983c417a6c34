import Mathlib.Data.List.Perm.Subperm

/-!
# Parent pointers

`Climbs parent c a` follows parent pointers from `c` to `a` any number of times,
`Below parent c a` at least once: how climbing to a fixed node survives changes of a tree, and how
long a walk can be.
-/

namespace AstraStorage.Lib
open Function Relation ReflTransGen

variable {I : Type}

def Up (parent : I → Option I) (c p : I) : Prop := parent c = some p

abbrev Climbs (parent : I → Option I) : I → I → Prop := ReflTransGen (Up parent)

abbrev Below (parent : I → Option I) : I → I → Prop := TransGen (Up parent)

variable {parent parent' : I → Option I} {a c n p q r z : I}

lemma below_iff_of_some (h : parent c = some p) : Below parent c a ↔ p = a ∨ Below parent p a := by
  constructor
  · intro hb
    obtain ⟨q, hq, hqa⟩ := TransGen.head'_iff.mp hb
    obtain rfl : p = q := Option.mem_unique h hq
    exact reflTransGen_iff_eq_or_transGen.mp hqa |>.imp_left Eq.symm
  · rintro (rfl | hb)
    · exact TransGen.single h
    · exact TransGen.head h hb

lemma not_below_of_none (h : parent c = none) : ¬Below parent c a := by
  intro hb
  obtain ⟨q, hq, _⟩ := TransGen.head'_iff.mp hb
  unfold Up at hq
  rw [h] at hq
  cases hq

lemma climbs_iff_eq_or_below : Climbs parent c a ↔ c = a ∨ Below parent c a := by
  refine Iff.trans reflTransGen_iff_eq_or_transGen ?_
  exact or_congr_left eq_comm

lemma climbs_iff_of_some (h : parent c = some p) :
    Climbs parent c a ↔ c = a ∨ Climbs parent p a := by
  rw [climbs_iff_eq_or_below, climbs_iff_eq_or_below]
  exact or_congr_right (below_iff_of_some h)

lemma climbs_iff_of_none (h : parent c = none) : Climbs parent c a ↔ c = a := by
  rw [climbs_iff_eq_or_below]
  exact or_iff_left (not_below_of_none h)

lemma not_below_self_of_climbs (hz : parent z = none) (h : Climbs parent c z) :
    ¬Below parent c c := by
  induction h using head_induction_on with
  | refl => exact not_below_of_none hz
  | @head c p hcp hpz ih =>
    intro hb
    apply ih
    rcases (below_iff_of_some hcp).mp hb with rfl | hpc
    · exact TransGen.single hcp
    · exact hpc.tail hcp

lemma climbs_mono (hsub : ∀ c p, parent c = some p → parent' c = some p)
    (h : Climbs parent c a) : Climbs parent' c a :=
  mono hsub _ _ h

section

variable (hagree : ∀ j, j ≠ n → parent' j = parent j)
include hagree

/-- Pointers that change only at `n` do not matter to a walk that avoids `n`. -/
lemma climbs_of_avoids
    (h : Climbs parent c r) (havoid : ¬Climbs parent c n) : Climbs parent' c r := by
  induction h using head_induction_on with
  | refl => exact refl
  | @head c p hcp hpr ih =>
    have hne : c ≠ n := by
      rintro rfl
      exact havoid refl
    have hstep : Up parent' c p := (hagree c hne).trans hcp
    have havoid' : ¬Climbs parent p n := fun hpn => havoid (head hcp hpn)
    exact head hstep (ih havoid')

lemma climbs_remove_leaf (hleaf : ∀ j, parent j ≠ some n) (hne : c ≠ n) (h : Climbs parent c r) :
    Climbs parent' c r := by
  apply climbs_of_avoids hagree h
  intro hcn
  rcases climbs_iff_eq_or_below.mp hcn with heq | hb
  · exact hne heq
  · obtain ⟨j, _, hj⟩ := TransGen.tail'_iff.mp hb
    exact hleaf j hj

/-- Putting the subtree of `n` under `q`, which must not lie in that subtree. -/
lemma climbs_move (hn : parent' n = some q) (hq : Climbs parent q r) (hqn : ¬Climbs parent q n)
    (h : Climbs parent c r) : Climbs parent' c r := by
  have hq' : Climbs parent' q r := climbs_of_avoids hagree hq hqn
  induction h using head_induction_on with
  | refl => exact refl
  | @head c p hcp hpr ih =>
    by_cases hcn : c = n
    · subst hcn
      exact head hn hq'
    · have hstep : Up parent' c p := (hagree c hcn).trans hcp
      exact head hstep ih

lemma below_iff_of_agree (hcn : c ≠ n) : Below parent' c n ↔ Below parent c n := by
  have key : ∀ {f g : I → Option I}, (∀ j, j ≠ n → g j = f j) → ∀ {c}, Below f c n → c ≠ n →
      Below g c n := by
    intro f g hfg c hb
    induction hb using TransGen.head_induction_on with
    | @single c hc =>
      intro hne
      exact TransGen.single ((hfg c hne).trans hc)
    | @head c p hcp hpn ih =>
      intro hne
      have hstep : Up g c p := (hfg c hne).trans hcp
      by_cases hp : p = n
      · subst hp
        exact TransGen.single hstep
      · exact TransGen.head hstep (ih hp)
  exact ⟨fun h => key (fun j hj => (hagree j hj).symm) h hcn, fun h => key hagree h hcn⟩

lemma climbs_iff_of_agree : Climbs parent' c n ↔ Climbs parent c n := by
  by_cases hcn : c = n
  · subst hcn
    exact iff_of_true refl refl
  · simp only [climbs_iff_eq_or_below, hcn, false_or]
    exact below_iff_of_agree hagree hcn

end

lemma climbs_iff_of_closed {gone : I → Prop} (hclosed : ∀ c p, parent c = some p → gone p → gone c)
    (hagree : ∀ c, ¬gone c → parent' c = parent c) (hc : ¬gone c) :
    Climbs parent' c a ↔ Climbs parent c a := by
  have key : ∀ {f g : I → Option I}, (∀ c p, f c = some p → ¬gone c → ¬gone p) →
      (∀ c, ¬gone c → g c = f c) → ∀ {c}, Climbs f c a → ¬gone c → Climbs g c a := by
    intro f g hstay hfg c h
    induction h using head_induction_on with
    | refl => exact fun _ => refl
    | @head c p hcp _ ih =>
      intro hc
      exact head ((hfg c hc).trans hcp) (ih (hstay c p hcp hc))
  constructor
  · intro h
    refine key ?_ (fun c hc => (hagree c hc).symm) h hc
    intro c p hp hc hgone
    rw [hagree c hc] at hp
    exact hc (hclosed c p hp hgone)
  · intro h
    exact key (fun c p hp hc hgone => hc (hclosed c p hp hgone)) hagree h hc

lemma climbs_iff_eq_or_child :
    Climbs parent c a ↔ c = a ∨ ∃ b, parent b = some a ∧ Climbs parent c b := by
  rw [climbs_iff_eq_or_below]
  refine or_congr_right ?_
  constructor
  · intro h
    obtain ⟨b, hcb, hb⟩ := TransGen.tail'_iff.mp h
    exact ⟨b, hb, hcb⟩
  · rintro ⟨b, hb, hcb⟩
    exact TransGen.tail'_iff.mpr ⟨b, hcb, hb⟩

section TwoMoves

variable [DecidableEq I] {x y a b r : I}

/-- Node `x` is put under `a` and node `y` under `b`. -/
abbrev placed (parent : I → Option I) (x a y b : I) : I → Option I :=
  update (update parent x (some a)) y (some b)

/-- If neither `a` lies below `x` nor `b` below `y`, each as far as the other move leaves the
walk alone, and `a` does not lie below `y`, then everything still climbs to `r`. -/
lemma climbs_placed (ha : ¬Climbs (update parent y none) a x)
    (hb : ¬Climbs (update parent x none) b y) (hay : ¬Climbs parent a y)
    (har : Climbs parent a r) (hbr : Climbs parent b r) (hc : Climbs parent c r) :
    Climbs (placed parent x a y b) c r := by
  have hax : ¬Climbs parent a x := by
    intro h
    exact ha (climbs_of_avoids (fun j hj => update_of_ne hj ..) h hay)
  have hagree : ∀ j, j ≠ x → update parent x (some a) j = parent j :=
    fun j hj => update_of_ne hj ..
  have hmove {c : I} (hc : Climbs parent c r) : Climbs (update parent x (some a)) c r :=
    climbs_move hagree (update_self ..) har hax hc
  have hay' : ¬Climbs (update parent x (some a)) a y := by
    intro h
    apply hay
    refine climbs_of_avoids (fun j hj => (hagree j hj).symm) h ?_
    rw [climbs_iff_of_agree hagree]
    exact hax
  -- a walk from `b` that meets `x` goes on from `a`
  have hby : ∀ {b}, Climbs (update parent x (some a)) b y →
      Climbs (update parent x none) b y := by
    intro b h
    induction h using head_induction_on with
    | refl => exact refl
    | @head c p hcp hpy ih =>
      have hstep : update parent x (some a) c = some p := hcp
      by_cases hcx : c = x
      · rw [hcx, update_self] at hstep
        cases hstep
        exact absurd hpy hay'
      · rw [update_of_ne hcx] at hstep
        exact head ((update_of_ne hcx ..).trans hstep) ih
  exact climbs_move (fun j hj => update_of_ne hj ..) (update_self ..) (hmove hbr)
    (fun h => hb (hby h)) (hmove hc)

lemma climbs_placed_of_avoids (hxy : x ≠ y) (ha : ¬Climbs (update parent y none) a x)
    (h : Climbs parent a y) : Climbs (placed parent x a' y b) a y := by
  induction h using head_induction_on with
  | refl => exact refl
  | @head c p hcp _ ih =>
    by_cases hcy : c = y
    · rw [hcy]
    · have hcx : c ≠ x := by
        rintro rfl
        exact ha refl
      refine head ?_ (ih fun h => ha (head ?_ h))
      · unfold Up placed
        rw [update_of_ne hcy, update_of_ne hcx]
        exact hcp
      · exact (update_of_ne hcy ..).trans hcp

lemma below_self_placed (hxy : x ≠ y) (ha : ¬Climbs (update parent y none) a x)
    (hb : ¬Climbs (update parent x none) b y) (hay : Climbs parent a y)
    (hbx : Climbs parent b x) : Below (placed parent x a y b) x x := by
  have hx : placed parent x a y b x = some a := by
    rw [placed, update_of_ne hxy, update_self]
  have hy : placed parent x a y b y = some b := update_self ..
  have hay' : Climbs (placed parent x a y b) a y := climbs_placed_of_avoids hxy ha hay
  have hbx' : Climbs (placed parent x a y b) b x := by
    have h : Climbs (placed parent y b x a) b x := climbs_placed_of_avoids hxy.symm hb hbx
    rwa [placed, update_comm hxy.symm] at h
  exact TransGen.head' hx (hay'.trans (head hy hbx'))

end TwoMoves

/-- `Leaves parent n c`: the walk from `c` leaves the table after exactly `n` pointers. -/
inductive Leaves (parent : I → Option I) : Nat → I → Prop
  | out {c : I} (h : parent c = none) : Leaves parent 0 c
  | up {n : Nat} {c p : I} (h : parent c = some p) (hp : Leaves parent n p) :
      Leaves parent (n + 1) c

lemma Leaves.unique {n m : Nat} (hn : Leaves parent n c) (hm : Leaves parent m c) : n = m := by
  induction hn generalizing m with
  | out h =>
    cases hm with
    | out _ => rfl
    | up h' _ => rw [h] at h'; cases h'
  | @up n c p h _ ih =>
    cases hm with
    | out h' => rw [h] at h'; cases h'
    | up h' hp' =>
      obtain rfl : p = _ := Option.mem_unique h h'
      rw [ih hp']

lemma exists_leaves (hz : parent z = none) (h : Climbs parent c z) : ∃ n, Leaves parent n c := by
  induction h using head_induction_on with
  | refl => exact ⟨0, Leaves.out hz⟩
  | head hcp _ ih =>
    obtain ⟨n, hn⟩ := ih
    exact ⟨n + 1, Leaves.up hcp hn⟩

/-- The nodes that a walk of `n` pointers passes are distinct and have pointers. -/
lemma Leaves.exists_trail {n : Nat} (h : Leaves parent n c) :
    ∃ trail : List I, trail.length = n ∧ trail.Nodup ∧
      ∀ x ∈ trail, parent x ≠ none ∧ ∃ m, m ≤ n ∧ Leaves parent m x := by
  induction h with
  | out _ => exact ⟨[], rfl, List.nodup_nil, by simp⟩
  | @up n c p h hp ih =>
    obtain ⟨trail, hlen, hnodup, hmem⟩ := ih
    refine ⟨c :: trail, by simp [hlen], ?_, ?_⟩
    · refine List.nodup_cons.mpr ⟨fun hc => ?_, hnodup⟩
      obtain ⟨_, m, hm, hleaves⟩ := hmem c hc
      have := hleaves.unique (Leaves.up h hp)
      omega
    · intro x hx
      rcases List.mem_cons.mp hx with rfl | hx
      · exact ⟨by simp [h], n + 1, Nat.le_refl _, Leaves.up h hp⟩
      · obtain ⟨hne, m, hm, hleaves⟩ := hmem x hx
        exact ⟨hne, m, by omega, hleaves⟩

/-- A walk that leaves a table with the given keys passes each key at most once. -/
theorem Leaves.le_length {n : Nat} {keys : List I} (h : Leaves parent n c)
    (hkeys : ∀ x, parent x ≠ none → x ∈ keys) : n ≤ keys.length := by
  obtain ⟨trail, hlen, hnodup, hmem⟩ := h.exists_trail
  have hsub : trail ⊆ keys := fun x hx => hkeys x (hmem x hx).1
  rw [← hlen]
  exact (List.subperm_of_subset hnodup hsub).length_le

/-- Every chain of children from `a` downwards, with `a` itself, has at most `h` nodes. -/
def Shallow (parent : I → Option I) : Nat → I → Prop
  | 0, _ => False
  | h + 1, a => ∀ c, parent c = some a → Shallow parent h c

lemma Shallow.mono (hsub : ∀ c p, parent' c = some p → parent c = some p)
    (hs : Shallow parent h a) : Shallow parent' h a := by
  induction h generalizing a with
  | zero => exact hs
  | succ h ih =>
    intro c hc
    exact ih (hs c (hsub c a hc))

/-- A node `n` pointers away from the exit of a table in which no walk takes more than
`bound` pointers. -/
theorem shallow_of_leaves {bound n h : Nat} (hbound : ∀ m c, Leaves parent m c → m ≤ bound)
    (ha : Leaves parent n a) (hh : bound + 1 ≤ h + n) : Shallow parent h a := by
  induction h generalizing n a with
  | zero =>
    have := hbound n a ha
    omega
  | succ h ih =>
    intro c hc
    exact ih (Leaves.up hc ha) (by omega)

end AstraStorage.Lib
