import AstraStorage.Lib.Outcomes

/-!
# Two computations side by side

`Lockstep E Q x s y t` runs `x` from `s` and `y` from `t`: both succeed and `Q` holds, or both fail
and `E` holds. `Guards` describes a computation that only checks something.
-/

namespace AstraStorage.Lib

variable {ε ε' σ τ α β γ δ κ : Type}

def Matched (E : ε → σ → ε' → τ → Prop) (Q : α → σ → β → τ → Prop) :
    EStateM.Result ε σ α → EStateM.Result ε' τ β → Prop
  | .ok a s, .ok b t => Q a s b t
  | .error e s, .error e' t => E e s e' t
  | _, _ => False

def Lockstep (E : ε → σ → ε' → τ → Prop) (Q : α → σ → β → τ → Prop) (x : EStateM ε σ α) (s : σ)
    (y : EStateM ε' τ β) (t : τ) : Prop :=
  Matched E Q (x s) (y t)

section Rules

variable {E : ε → σ → ε' → τ → Prop} {Q : α → σ → β → τ → Prop} {Q' : γ → σ → δ → τ → Prop}
  {x : EStateM ε σ α} {y : EStateM ε' τ β} {f : α → EStateM ε σ γ} {g : β → EStateM ε' τ δ}
  {s s' : σ} {t t' : τ} {a : α} {b : β}

namespace Lockstep

lemma of_yields (hx : Yields x s a s') (hy : Yields y t b t') (h : Q a s' b t') :
    Lockstep E Q x s y t := by
  unfold Lockstep
  rw [hx, hy]
  exact h

lemma of_errors (hx : x s = .error e s') (hy : y t = .error e' t')
    (h : E e s' e' t') : Lockstep E Q x s y t := by
  unfold Lockstep
  rw [hx, hy]
  exact h

section

variable (h : Lockstep E Q x s y t)
include h

lemma outcomes : (∃ a s' b t', Yields x s a s' ∧ Yields y t b t' ∧ Q a s' b t') ∨
      ∃ e s' e' t', x s = .error e s' ∧ y t = .error e' t' ∧ E e s' e' t' := by
  unfold Lockstep at h
  cases hx : x s with
  | ok a s' =>
    cases hy : y t with
    | ok b t' =>
      rw [hx, hy] at h
      exact .inl ⟨a, s', b, t', hx, hy, h⟩
    | error e' t' =>
      rw [hx, hy] at h
      exact h.elim
  | error e s' =>
    cases hy : y t with
    | ok b t' =>
      rw [hx, hy] at h
      exact h.elim
    | error e' t' =>
      rw [hx, hy] at h
      exact .inr ⟨e, s', e', t', rfl, rfl, h⟩

lemma bind (hrest : ∀ a s' b t', Q a s' b t' → Lockstep E Q' (f a) s' (g b) t') :
    Lockstep E Q' (x >>= f) s (y >>= g) t := by
  change Matched E Q' (EStateM.bind x f s) (EStateM.bind y g t)
  unfold EStateM.bind
  rcases h.outcomes with ⟨a, s', b, t', hx, hy, h⟩ | ⟨e, s', e', t', hx, hy, h⟩
  · rw [hx, hy]
    exact hrest a s' b t' h
  · rw [hx, hy]
    exact h

lemma mono (hQR : ∀ a s' b t', Q a s' b t' → R a s' b t') : Lockstep E R x s y t := by
  rcases h.outcomes with ⟨a, s', b, t', hx, hy, h⟩ | ⟨e, s', e', t', hx, hy, h⟩
  · exact of_yields hx hy (hQR a s' b t' h)
  · exact of_errors hx hy h

lemma and_yields : Lockstep E (fun a s' b t' => Q a s' b t' ∧ Yields x s a s') x s y t := by
  rcases h.outcomes with ⟨a, s', b, t', hx, hy, h⟩ | ⟨e, s', e', t', hx, hy, h⟩
  · exact of_yields hx hy ⟨h, hx⟩
  · exact of_errors hx hy h

end

lemma left {y : EStateM ε' τ δ} (hx : Yields x s a s') (h : Lockstep E Q' (f a) s' y t) :
    Lockstep E Q' (x >>= f) s y t := by
  have hstep : (x >>= f) s = f a s' := by
    change EStateM.bind x f s = _
    unfold EStateM.bind
    rw [hx]
  unfold Lockstep
  rw [hstep]
  exact h

lemma right {x : EStateM ε σ γ} (hy : Yields y t b t') (h : Lockstep E Q' x s (g b) t') :
    Lockstep E Q' x s (y >>= g) t := by
  have hstep : (y >>= g) t = g b t' := by
    change EStateM.bind y g t = _
    unfold EStateM.bind
    rw [hy]
  unfold Lockstep
  rw [hstep]
  exact h

/-- Loops over one list; `I rest s t` holds when `rest` is still to be visited. -/
lemma forM {f : κ → EStateM ε σ PUnit} {g : κ → EStateM ε' τ PUnit} (I : List κ → σ → τ → Prop)
    (hstep : ∀ k rest s t, I (k :: rest) s t →
      Lockstep E (fun _ s' _ t' => I rest s' t') (f k) s (g k) t)
    {ks : List κ} (h : I ks s t) :
    Lockstep E (fun _ s' _ t' => I [] s' t') (ks.forM f) s (ks.forM g) t := by
  induction ks generalizing s t with
  | nil => exact h
  | cons k ks ih =>
    exact bind (hstep k ks s t h) fun _ _ _ _ h' => ih h'

end Lockstep

end Rules

/-- `x` leaves the state alone. It succeeds if `P` holds and else fails with an error in `F`. -/
def Guards (F : ε → Prop) (P : Prop) (x : EStateM ε σ PUnit) (s : σ) : Prop :=
  (P ∧ x s = .ok ⟨⟩ s) ∨ (¬P ∧ ∃ e, F e ∧ x s = .error e s)

namespace Guards

variable {F : ε → Prop} {P Q : Prop} {x y : EStateM ε σ PUnit} {s : σ}

lemma of_not [Decidable c] (he : F e) : Guards F (¬c) (if c then throw e else pure ⟨⟩) s := by
  by_cases hc : c
  · exact .inr ⟨fun hn => hn hc, e, he, by rw [if_pos hc]; rfl⟩
  · exact .inl ⟨hc, by rw [if_neg hc]; rfl⟩

lemma skip (hP : P) : Guards F P (pure ⟨⟩ : EStateM ε σ PUnit) s := .inl ⟨hP, rfl⟩

lemma congr (h : Guards F P x s) (hPQ : P ↔ Q) : Guards F Q x s := by
  rwa [← hPQ]

lemma andThen (hx : Guards F P x s) (hy : Guards F Q y s) :
    Guards F (P ∧ Q) (x >>= fun _ => y) s := by
  change (_ ∧ EStateM.bind x _ s = _) ∨ (_ ∧ ∃ e, _ ∧ EStateM.bind x _ s = _)
  unfold EStateM.bind
  rcases hx with ⟨hP, hx⟩ | ⟨hP, e, he, hx⟩
  · rw [hx]
    rcases hy with ⟨hQ, hy⟩ | ⟨hQ, e, he, hy⟩
    · exact .inl ⟨⟨hP, hQ⟩, hy⟩
    · exact .inr ⟨fun h => hQ h.2, e, he, hy⟩
  · rw [hx]
    exact .inr ⟨fun h => hP h.1, e, he, rfl⟩

lemma forM {f : κ → EStateM ε σ PUnit} {P : κ → Prop} {ks : List κ}
    (h : ∀ k ∈ ks, Guards F (P k) (f k) s) : Guards F (∀ k ∈ ks, P k) (ks.forM f) s := by
  induction ks with
  | nil => exact skip fun _ hk => absurd hk List.not_mem_nil
  | cons k ks ih =>
    have hrest := ih fun j hj => h j (List.mem_cons_of_mem k hj)
    exact ((h k List.mem_cons_self).andThen hrest).congr List.forall_mem_cons.symm

lemma lockstep_bind {y : EStateM ε' τ PUnit} {f : PUnit → EStateM ε σ γ}
    {g : PUnit → EStateM ε' τ δ}
    (hx : Guards F P x s) (hy : Guards G Q y t) (hPQ : P ↔ Q)
    (hE : ∀ e e', F e → G e' → E e s e' t) (hrest : Lockstep E R (f ⟨⟩) s (g ⟨⟩) t) :
    Lockstep E R (x >>= f) s (y >>= g) t := by
  refine Lockstep.bind (Q := fun _ s' _ t' => s' = s ∧ t' = t) ?_ ?_
  · rcases hx with ⟨hP, hx⟩ | ⟨hP, e, he, hx⟩
    · rcases hy with ⟨-, hy⟩ | ⟨hQ, -⟩
      · exact .of_yields hx hy ⟨rfl, rfl⟩
      · exact absurd (hPQ.mp hP) hQ
    · rcases hy with ⟨hQ, -⟩ | ⟨-, e', he', hy⟩
      · exact absurd (hPQ.mpr hQ) hP
      · exact .of_errors hx hy (hE e e' he he')
  · rintro ⟨⟩ _ ⟨⟩ _ ⟨rfl, rfl⟩
    exact hrest

end Guards

/-- The state that a computation leaves, with or without success. -/
def finalState : EStateM.Result ε σ α → σ
  | .ok _ s => s
  | .error _ s => s

variable (step : κ → EStateM ε σ PUnit)

/-- Every step of the run meets the condition in the state that it finds. -/
def Throughout (C : σ → κ → Prop) : List κ → σ → Prop
  | [], _ => True
  | k :: ks, s => C s k ∧ Throughout C ks (finalState (step k s))

instance decidableThroughout {C : σ → κ → Prop} [∀ s k, Decidable (C s k)] :
    (ks : List κ) → (s : σ) → Decidable (Throughout step C ks s)
  | [], _ => isTrue trivial
  | k :: ks, s =>
    have := decidableThroughout (C := C) ks (finalState (step k s))
    inferInstanceAs (Decidable (_ ∧ _))

/-- `P` holds at the start and after each step, and the steps succeed or fail alike. -/
def RunsAlike (step' : κ → EStateM ε' τ PUnit) (E : ε → ε' → Prop) (P : σ → τ → Prop) :
    List κ → σ → τ → Prop
  | [], s, t => P s t
  | k :: ks, s, t => P s t ∧
    Lockstep (fun e _ e' _ => E e e') (fun _ _ _ _ => True) (step k) s (step' k) t ∧
    RunsAlike step' E P ks (finalState (step k s)) (finalState (step' k t))

theorem RunsAlike.of_lockstep {step : κ → EStateM ε σ PUnit} {step' : κ → EStateM ε' τ PUnit}
    {E : ε → ε' → Prop} {P R : σ → τ → Prop} {C : σ → κ → Prop} (hP : ∀ s t, R s t → P s t)
    (hstep : ∀ k s t, R s t → C s k →
      Lockstep (fun e s' e' t' => E e e' ∧ R s' t') (fun _ s' _ t' => R s' t')
        (step k) s (step' k) t)
    {ks : List κ} {s : σ} {t : τ} (h : R s t) (hC : Throughout step C ks s) :
    RunsAlike step step' E P ks s t := by
  induction ks generalizing s t with
  | nil => exact hP s t h
  | cons k ks ih =>
    obtain ⟨hk, hrest⟩ := hC
    refine ⟨hP s t h, ?_⟩
    rcases (hstep k s t h hk).outcomes with
      ⟨⟨⟩, s', ⟨⟩, t', hx, hy, h'⟩ | ⟨e, s', e', t', hx, hy, he, h'⟩
    · rw [show step k s = _ from hx] at hrest ⊢
      rw [show step' k t = _ from hy]
      exact ⟨.of_yields hx hy trivial, ih h' hrest⟩
    · rw [hx] at hrest ⊢
      rw [hy]
      exact ⟨.of_errors hx hy he, ih h' hrest⟩

end AstraStorage.Lib
