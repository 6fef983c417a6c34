import Mathlib.Data.List.Nodup

/-!
# Successful outcomes of stateful computations

`Yields x s a t` says that the computation `x`, started in `s`, returns `a` and leaves `t`.
The rules below take a computation apart: a sequence succeeds exactly when its parts do.
-/

set_option mvcgen.warning false

namespace AstraStorage.Lib
open List Function

variable {ε σ α β : Type} {x y : EStateM ε σ α} {f : α → EStateM ε σ β} {s t u : σ} {a : α} {b : β}
  {e : ε} {xs ys : List α}

def Yields (x : EStateM ε σ α) (s : σ) (a : α) (t : σ) : Prop := x s = .ok a t

lemma Yields.unique {b : α} (h : Yields x s a t) (h' : Yields x s b u) : a = b ∧ t = u := by
  unfold Yields at h h'
  rw [h] at h'
  cases h'
  exact ⟨rfl, rfl⟩

@[simp] lemma yields_pure {b : α} : Yields (pure a : EStateM ε σ α) s b t ↔ b = a ∧ t = s := by
  constructor
  · intro h
    cases h
    exact ⟨rfl, rfl⟩
  · rintro ⟨rfl, rfl⟩
    rfl

@[simp] lemma yields_bind :
    Yields (x >>= f) s b u ↔ ∃ a t, Yields x s a t ∧ Yields (f a) t b u := by
  unfold Yields
  change EStateM.bind x f s = _ ↔ _
  unfold EStateM.bind
  cases h : x s with
  | ok a t =>
    simp only [EStateM.Result.ok.injEq]
    constructor
    · intro hf
      exact ⟨a, t, ⟨rfl, rfl⟩, hf⟩
    · rintro ⟨a', t', ⟨rfl, rfl⟩, hf⟩
      exact hf
  | error e t => simp

lemma bind_of_ok (h : x s = .ok a t) : (x >>= f) s = f a t := by
  simp only [bind, EStateM.bind, h]

lemma bind_of_error (h : x s = .error e t) : (x >>= f) s = .error e t := by
  simp only [bind, EStateM.bind, h]

lemma Yields.bind_iff (h : Yields x s a t) : Yields (x >>= f) s b u ↔ Yields (f a) t b u := by
  rw [yields_bind]
  constructor
  · rintro ⟨a', t', h', hf⟩
    obtain ⟨rfl, rfl⟩ := h.unique h'
    exact hf
  · intro hf
    exact ⟨a, t, h, hf⟩

lemma yields_read_bind {P : α → Prop} (h : ∀ a t, Yields x s a t ↔ P a ∧ t = s) :
    Yields (x >>= f) s b u ↔ ∃ a, P a ∧ Yields (f a) s b u := by
  rw [yields_bind]
  constructor
  · rintro ⟨a, t, hx, hf⟩
    obtain ⟨ha, rfl⟩ := (h a t).mp hx
    exact ⟨a, ha, hf⟩
  · rintro ⟨a, ha, hf⟩
    exact ⟨a, s, (h a s).mpr ⟨ha, rfl⟩, hf⟩

@[simp] lemma yields_map {f : α → β} : Yields (f <$> x) s b u ↔ ∃ a, Yields x s a u ∧ b = f a := by
  unfold Yields
  change EStateM.map f x s = _ ↔ _
  unfold EStateM.map
  cases h : x s with
  | ok a t =>
    simp only [EStateM.Result.ok.injEq]
    constructor
    · rintro ⟨rfl, rfl⟩
      exact ⟨a, ⟨rfl, rfl⟩, rfl⟩
    · rintro ⟨a', ⟨rfl, rfl⟩, rfl⟩
      exact ⟨rfl, rfl⟩
  | error e t => simp

@[simp] lemma yields_throw : Yields (throw e : EStateM ε σ α) s a t ↔ False := by
  constructor
  · intro h
    cases h
  · exact False.elim

@[simp] lemma yields_get {a : σ} : Yields (get : EStateM ε σ σ) s a t ↔ a = s ∧ t = s := by
  constructor
  · intro h
    cases h
    exact ⟨rfl, rfl⟩
  · rintro ⟨rfl, rfl⟩
    rfl

@[simp] lemma yields_modify {f : σ → σ} {u : PUnit} :
    Yields (modify f : EStateM ε σ PUnit) s u t ↔ t = f s := by
  constructor
  · intro h
    cases h
    rfl
  · rintro rfl
    rfl

@[simp] lemma yields_ite [Decidable c] :
    Yields (if c then x else y) s a t ↔ (c ∧ Yields x s a t) ∨ (¬c ∧ Yields y s a t) := by
  by_cases hc : c <;> simp [hc]

section

variable {f : α → EStateM ε σ PUnit} {u : PUnit}

@[simp] lemma yields_forM_nil : Yields (forM ([] : List α) f) s u t ↔ t = s := by
  simp [forM_nil]

@[simp] lemma yields_forM_cons {x : α} :
    Yields (forM (x :: xs) f) s u t ↔ ∃ r, Yields (f x) s ⟨⟩ r ∧ Yields (forM xs f) r u t := by
  rw [forM_cons, yields_bind]
  constructor
  · rintro ⟨⟨⟩, r, hx, hrest⟩
    exact ⟨r, hx, hrest⟩
  · rintro ⟨r, hx, hrest⟩
    exact ⟨⟨⟩, r, hx, hrest⟩

lemma yields_forM_append :
    Yields (forM (xs ++ ys) f) s u t ↔ ∃ r, Yields (forM xs f) s ⟨⟩ r ∧ Yields (forM ys f) r u t := by
  induction xs generalizing s with
  | nil => simp
  | cons x xs ih =>
    simp only [cons_append, yields_forM_cons, ih]
    constructor
    · rintro ⟨r, hx, r', hxs, hys⟩
      exact ⟨r', ⟨r, hx, hxs⟩, hys⟩
    · rintro ⟨r', ⟨r, hx, hxs⟩, hys⟩
      exact ⟨r, hx, r', hxs, hys⟩

lemma yields_forM_check {p : α → Prop} (h : ∀ x ∈ xs, ∀ v r, Yields (f x) s v r ↔ p x ∧ r = s) :
    Yields (forM xs f) s u t ↔ (∀ x ∈ xs, p x) ∧ t = s := by
  induction xs with
  | nil => simp
  | cons x xs ih =>
    have hx := fun v r => h x (by simp) v r
    rw [yields_forM_cons]
    simp only [hx, forall_mem_cons]
    constructor
    · rintro ⟨r, ⟨hp, rfl⟩, hr⟩
      have hrest := (ih (fun y hy => h y (by simp [hy]))).mp hr
      exact ⟨⟨hp, hrest.1⟩, hrest.2⟩
    · rintro ⟨⟨hp, hps⟩, rfl⟩
      exact ⟨t, ⟨hp, rfl⟩, (ih (fun y hy => h y (by simp [hy]))).mpr ⟨hps, rfl⟩⟩

lemma Yields.forM_preserves {I : σ → Prop}
    (h : Yields (forM xs f) s u t) (hf : ∀ x ∈ xs, ∀ r v r', I r → Yields (f x) r v r' → I r')
    (hs : I s) : I t := by
  induction xs generalizing s with
  | nil =>
    rw [yields_forM_nil] at h
    exact h ▸ hs
  | cons x xs ih =>
    obtain ⟨r, hx, hrest⟩ := yields_forM_cons.mp h
    exact ih hrest (fun y hy => hf y (by simp [hy])) (hf x (by simp) s _ r hs hx)

end

/-- The computation returns in some way. -/
def Returns (x : EStateM ε σ α) (s : σ) : Prop := ∃ a t, Yields x s a t

instance {ε σ α : Type} (x : EStateM ε σ α) (s : σ) : Decidable (Returns x s) :=
  match h : x s with
  | .ok a t => isTrue ⟨a, t, h⟩
  | .error _ _ => isFalse (by
      rintro ⟨a, t, hok⟩
      rw [Yields, h] at hok
      cases hok)

lemma Yields.returns (h : Yields x s a t) : Returns x s :=
  ⟨a, t, h⟩

lemma Yields.andThen (h : Yields x s a t) (hf : Returns (f a) t) : Returns (x >>= f) s := by
  obtain ⟨b, u, hb⟩ := hf
  exact ⟨b, u, yields_bind.mpr ⟨a, t, h, hb⟩⟩

lemma Yields.unitThen {x : EStateM ε σ PUnit} {f : PUnit → EStateM ε σ β} (h : Yields x s ⟨⟩ t)
    (hf : Returns (f ⟨⟩) t) : Returns (x >>= f) s :=
  h.andThen hf

lemma returns_pure : Returns (pure a : EStateM ε σ α) s :=
  ⟨a, s, yields_pure.mpr ⟨rfl, rfl⟩⟩

/-- A loop each of whose rounds succeeds, with an invariant that knows the rounds made. -/
theorem forM_succeeds {f : α → EStateM ε σ PUnit} (I : List α → σ → Prop) (hs : I [] s)
    (hround : ∀ made x rest, xs = made ++ x :: rest → ∀ r, I made r →
      ∃ r', Yields (f x) r ⟨⟩ r' ∧ I (made ++ [x]) r') :
    ∃ t, Yields (forM xs f) s ⟨⟩ t ∧ I xs t := by
  suffices h : ∀ rest made r, xs = made ++ rest → I made r →
      ∃ t, Yields (forM rest f) r ⟨⟩ t ∧ I xs t from
    h xs [] s rfl hs
  intro rest
  induction rest with
  | nil =>
    intro made r hxs hr
    rw [append_nil] at hxs
    exact ⟨r, yields_forM_nil.mpr rfl, hxs ▸ hr⟩
  | cons x rest ih =>
    intro made r hxs hr
    obtain ⟨r', hx, hr'⟩ := hround made x rest hxs r hr
    obtain ⟨t, ht, hI⟩ := ih (made ++ [x]) r' (by simp [hxs]) hr'
    exact ⟨t, yields_forM_cons.mpr ⟨r', hx, ht⟩, hI⟩

section Visits

variable {K V : Type} [DecidableEq K]

/-- A loop over records with distinct keys, each round of which replaces only the record it
visits: what a key holds afterwards is what its own round made of it, or what it held. -/
theorem Yields.forM_visits {f : V → EStateM ε σ PUnit} {xs : List V} {u : PUnit}
    (h : Yields (forM xs f) s u t) (view : σ → K → Option V) (key : V → K) (g : V → Option V)
    (J : σ → Prop) (hnodup : (xs.map key).Nodup) (hview : ∀ x ∈ xs, view s (key x) = some x)
    (hs : J s) (hround : ∀ x ∈ xs, ∀ r v r', J r → view r (key x) = some x → Yields (f x) r v r' →
      J r' ∧ view r' = Function.update (view r) (key x) (g x)) :
    J t ∧ (∀ x ∈ xs, view t (key x) = g x) ∧ ∀ k, (∀ x ∈ xs, key x ≠ k) → view t k = view s k := by
  induction xs generalizing s with
  | nil =>
    rw [yields_forM_nil] at h
    subst h
    simp [hs]
  | cons x xs ih =>
    obtain ⟨r, hx, hrest⟩ := yields_forM_cons.mp h
    obtain ⟨hr, hupd⟩ := hround x (by simp) s _ r hs (hview x (by simp)) hx
    rw [map_cons, nodup_cons] at hnodup
    have hother : ∀ y ∈ xs, key y ≠ key x := by
      intro y hy heq
      exact hnodup.1 (heq ▸ mem_map_of_mem hy)
    have hview' : ∀ y ∈ xs, view r (key y) = some y := by
      intro y hy
      rw [hupd, update_of_ne (hother y hy)]
      exact hview y (by simp [hy])
    obtain ⟨ht, hvisited, hkept⟩ := ih hrest hnodup.2 hview' hr
      (fun y hy => hround y (by simp [hy]))
    refine ⟨ht, ?_, ?_⟩
    · intro y hy
      rcases mem_cons.mp hy with rfl | hy
      · rw [hkept _ hother, hupd, update_self]
      · exact hvisited y hy
    · intro k hk
      rw [hkept k (fun y hy => hk y (by simp [hy])), hupd,
        update_of_ne (hk x (by simp)).symm]

/-- The same loop when every round succeeds: it succeeds as a whole. -/
theorem forM_visits_succeeds {f : V → EStateM ε σ PUnit} {xs : List V} (view : σ → K → Option V)
    (key : V → K) (g : V → Option V) (J : σ → Prop) (hnodup : (xs.map key).Nodup)
    (hview : ∀ x ∈ xs, view s (key x) = some x) (hs : J s)
    (hround : ∀ x ∈ xs, ∀ r, J r → view r (key x) = some x →
      ∃ r', Yields (f x) r ⟨⟩ r' ∧ J r' ∧ view r' = Function.update (view r) (key x) (g x)) :
    ∃ t, Yields (forM xs f) s ⟨⟩ t ∧ J t ∧ (∀ x ∈ xs, view t (key x) = g x) ∧
      ∀ k, (∀ x ∈ xs, key x ≠ k) → view t k = view s k := by
  have hsome : ∃ t, Yields (forM xs f) s ⟨⟩ t := by
    induction xs generalizing s with
    | nil => exact ⟨s, yields_forM_nil.mpr rfl⟩
    | cons x xs ih =>
      obtain ⟨r, hx, hr, hupd⟩ := hround x (by simp) s hs (hview x (by simp))
      rw [map_cons, nodup_cons] at hnodup
      have hview' : ∀ y ∈ xs, view r (key y) = some y := by
        intro y hy
        have hne : key y ≠ key x := fun heq => hnodup.1 (heq ▸ mem_map_of_mem hy)
        rw [hupd, update_of_ne hne]
        exact hview y (by simp [hy])
      obtain ⟨t, ht⟩ := ih hnodup.2 hview' hr (fun y hy => hround y (by simp [hy]))
      exact ⟨t, yields_forM_cons.mpr ⟨r, hx, ht⟩⟩
  obtain ⟨t, ht⟩ := hsome
  refine ⟨t, ht, ht.forM_visits view key g J hnodup hview hs ?_⟩
  intro x hx r v r' hr hv hy
  obtain ⟨r1, hy1, hr1⟩ := hround x hx r hr hv
  obtain rfl := (hy.unique hy1).2
  exact hr1

end Visits

section Triples

open Std.Do

variable {P : σ → Prop} {Q : α → σ → Prop} {E : ε → σ → Prop}

/-- A triple tells what holds when the computation returns and when it fails. -/
lemma triple_iff :
    ⦃fun s => ⌜P s⌝⦄ x ⦃post⟨fun a t => ⌜Q a t⌝, fun e t => ⌜E e t⌝⟩⦄ ↔
      ∀ s, P s → (∀ a t, Yields x s a t → Q a t) ∧ ∀ e t, x s = .error e t → E e t := by
  refine forall_congr' fun s => imp_congr Iff.rfl ?_
  simp only [Yields, wp, PredTrans.apply, EStateM.run]
  cases x s with
  | ok a t => simp
  | error e t => simp

lemma triple_forM {f : α → EStateM ε σ PUnit}
    (hf : ∀ a, ⦃fun s => ⌜P s⌝⦄ f a ⦃post⟨fun _ t => ⌜P t⌝, fun e t => ⌜E e t⌝⟩⦄) :
    ⦃fun s => ⌜P s⌝⦄ xs.forM f ⦃post⟨fun _ t => ⌜P t⌝, fun e t => ⌜E e t⌝⟩⦄ := by
  induction xs with
  | nil => mvcgen [List.forM_nil]
  | cons a xs ih =>
    rw [forM_eq_forM, forM_cons]
    mvcgen [hf, ih]

end Triples

end AstraStorage.Lib
