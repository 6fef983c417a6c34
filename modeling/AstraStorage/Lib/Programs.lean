import AstraStorage.Lib.Runs
import Mathlib.Data.List.Forall2

/-!
# Programs that share a state

A program asks for operations on a state it shares with others; what an operation may reply and
leave is a relation. A program can be run alone, with weakest preconditions, or in a pool of
programs whose operations interleave, with the rely/guarantee rule.
-/

namespace AstraStorage.Lib
open List Function

/-- Operations, each with the type of its reply. -/
structure Interface where
  Op : Type
  Reply : Op → Type

inductive Prog (I : Interface) (α : Type) : Type
  | done (a : α)
  | op (o : I.Op) (next : I.Reply o → Prog I α)

/-- `sem o s r t`: in state `s` operation `o` may reply `r` and leave `t`. -/
abbrev Semantics (I : Interface) (σ : Type) := (o : I.Op) → σ → I.Reply o → σ → Prop

variable {I I' : Interface} {σ ι α β : Type} {rely : σ → σ → Prop} {guar : I.Op → σ → σ → Prop}

lemma forall₂_exists_left (h : List.Forall₂ R xs ys) (hy : y ∈ ys) : ∃ x ∈ xs, R x y := by
  induction h with
  | nil => exact absurd hy not_mem_nil
  | @cons x y' xs ys hxy _ ih =>
    rcases mem_cons.mp hy with rfl | hy
    · exact ⟨x, mem_cons_self, hxy⟩
    · obtain ⟨x', hx', hR⟩ := ih hy
      exact ⟨x', mem_cons_of_mem x hx', hR⟩

namespace Prog

def bind : Prog I α → (α → Prog I β) → Prog I β
  | .done a, f => f a
  | .op o next, f => .op o fun r => (next r).bind f

instance : Monad (Prog I) where
  pure := .done
  bind := .bind

/-- One operation, whose reply is the result. -/
def perform (o : I.Op) : Prog I (I.Reply o) := .op o .done

instance : LawfulMonad (Prog I) := LawfulMonad.mk' _
  (by
    intro α p
    induction p with
    | done a => rfl
    | op o next ih => exact congrArg (Prog.op o) (funext ih))
  (fun _ _ => rfl)
  (by
    intro α β γ p f g
    induction p with
    | done a => rfl
    | op o next ih => exact congrArg (Prog.op o) (funext ih))

/-- Started in `s` and undisturbed, the program may return `a` and leave `t`. -/
inductive Runs (sem : Semantics I σ) : Prog I α → σ → α → σ → Prop
  | done {a : α} {s : σ} : Runs sem (.done a) s a s
  | op {o : I.Op} {next : I.Reply o → Prog I α} {s t u : σ} {r : I.Reply o} {a : α}
      (ho : sem o s r t) (h : Runs sem (next r) t a u) : Runs sem (.op o next) s a u

/-- Every outcome of the program, started in `s` and undisturbed, satisfies `Q`. -/
def wp (sem : Semantics I σ) : Prog I α → (α → σ → Prop) → σ → Prop
  | .done a, Q, s => Q a s
  | .op o next, Q, s => ∀ r t, sem o s r t → (next r).wp sem Q t

/-- The outcome of the program if `exec` carries out its operations. -/
def execute (exec : (o : I.Op) → σ → Option (I.Reply o × σ)) : Prog I α → σ → Option (α × σ)
  | .done a, s => some (a, s)
  | .op o next, s =>
    match exec o s with
    | none => none
    | some (r, t) => (next r).execute exec t

variable {sem sem' : Semantics I σ} {p : Prog I α} {Q Q' : α → σ → Prop} {ok ok' : I.Op → Prop}
  {a : α} {s t : σ} {xs : List α}

theorem runs_of_execute (hexec : ∀ o s r t, exec o s = some (r, t) → sem o s r t)
    (h : p.execute exec s = some (a, t)) : p.Runs sem s a t := by
  induction p generalizing s with
  | done b =>
    cases h
    exact .done
  | op o next ih =>
    rw [execute] at h
    cases ho : exec o s with
    | none =>
      rw [ho] at h
      cases h
    | some reply =>
      rw [ho] at h
      exact .op (hexec o s reply.1 reply.2 ho) (ih reply.1 h)

lemma Runs.mono (hsem : ∀ {o s r t}, sem o s r t → sem' o s r t) (h : p.Runs sem s a t) :
    p.Runs sem' s a t := by
  induction h with
  | done => exact .done
  | op ho _ ih => exact .op (hsem ho) ih

theorem wp_iff_runs : p.wp sem Q s ↔ ∀ a t, p.Runs sem s a t → Q a t := by
  induction p generalizing s with
  | done a =>
    constructor
    · rintro h b t ⟨⟩
      exact h
    · intro h
      exact h a s .done
  | op o next ih =>
    constructor
    · rintro h b u (_ | ⟨ho, hrun⟩)
      exact ih _ |>.mp (h _ _ ho) b u hrun
    · intro h r t ho
      exact (ih r).mpr fun a u hrun => h a u (.op ho hrun)

@[simp] lemma wp_bind {Q : β → σ → Prop} :
    (p >>= f).wp sem Q s ↔ p.wp sem (fun a t => (f a).wp sem Q t) s := by
  induction p generalizing s with
  | done a => rfl
  | op o next ih =>
    exact forall_congr' fun r => forall_congr' fun t => imp_congr_right fun _ => ih r

lemma wp.mono (h : p.wp sem Q s) (hQ : ∀ a t, Q a t → Q' a t) : p.wp sem Q' s := by
  rw [wp_iff_runs] at h ⊢
  intro a t hrun
  exact hQ a t (h a t hrun)

/-- Every operation that the program may ask for is in `ok`, whatever the replies are. -/
def Asks (ok : I.Op → Prop) : Prog I α → Prop
  | .done _ => True
  | .op o next => ok o ∧ ∀ r, (next r).Asks ok

lemma Asks.bind {f : α → Prog I β} (hp : p.Asks ok)
    (hf : ∀ a, (f a).Asks ok) : (p >>= f).Asks ok := by
  induction p with
  | done a => exact hf a
  | op o next ih => exact ⟨hp.1, fun r => ih r (hp.2 r)⟩

/-- If each operation that the program asks for has a reply, then the program comes to its end. -/
theorem Asks.exists_runs (hp : p.Asks ok)
    (htotal : ∀ o s, ok o → ∃ r t, sem o s r t) (s : σ) : ∃ a t, p.Runs sem s a t := by
  induction p generalizing s with
  | done a => exact ⟨a, s, .done⟩
  | op o next ih =>
    obtain ⟨r, t, ho⟩ := htotal o s hp.1
    obtain ⟨a, u, hrun⟩ := ih r (hp.2 r) t
    exact ⟨a, u, .op ho hrun⟩

lemma asks_of_forall (h : ∀ o, ok o) : p.Asks ok := by
  induction p with
  | done a => trivial
  | op o next ih => exact ⟨h o, ih⟩

lemma Asks.mono (hp : p.Asks ok) (h : ∀ o, ok o → ok' o) : p.Asks ok' := by
  induction p with
  | done a => trivial
  | op o next ih => exact ⟨h o hp.1, fun r => ih r (hp.2 r)⟩

/-- Whatever steps of `rely` the others make between its operations, each operation `o` of the
program is a step of `guar o`, and its outcome satisfies `Q` then and later. -/
def Guarantees (sem : Semantics I σ) (rely : σ → σ → Prop) (guar : I.Op → σ → σ → Prop) :
    Prog I α → (α → σ → Prop) → σ → Prop
  | .done a, Q, s => ∀ t, rely s t → Q a t
  | .op o next, Q, s => ∀ t, rely s t → ∀ r u, sem o t r u →
      guar o t u ∧ (next r).Guarantees sem rely guar Q u

section Guarantees

lemma Guarantees.later (h : p.Guarantees sem rely guar Q s)
    (htrans : ∀ a b c, rely a b → rely b c → rely a c) (hst : rely s t) :
    p.Guarantees sem rely guar Q t := by
  cases p with
  | done _ | op _ _ => exact fun u hu => h u (htrans _ _ _ hst hu)

lemma guarantees_bind {Q : β → σ → Prop} (hrefl : ∀ a, rely a a)
    (h : p.Guarantees sem rely guar (fun a t => (f a).Guarantees sem rely guar Q t) s) :
    (p >>= f).Guarantees sem rely guar Q s := by
  induction p generalizing s with
  | done a => exact h s (hrefl s)
  | op o next ih =>
    intro t ht r u hu
    obtain ⟨hguar, hnext⟩ := h t ht r u hu
    exact ⟨hguar, ih r hnext⟩

lemma Guarantees.mono (h : p.Guarantees sem rely guar Q s) (hQ : ∀ a t, Q a t → Q' a t) :
    p.Guarantees sem rely guar Q' s := by
  induction p generalizing s with
  | done a => exact fun t ht => hQ a t (h t ht)
  | op o next ih =>
    intro t ht r u hu
    obtain ⟨hguar, hnext⟩ := h t ht r u hu
    exact ⟨hguar, ih r hnext⟩

lemma Asks.guarantees (hp : p.Asks ok) (hguar : ∀ o s t, ok o → guar o s t) :
    p.Guarantees sem rely guar (fun _ _ => True) s := by
  induction p generalizing s with
  | done a => exact fun _ _ => trivial
  | op o next ih => exact fun t _ r u _ => ⟨hguar o t u hp.1, ih r (hp.2 r)⟩

end Guarantees

/-- The program with its operations carried out by programs over another interface. -/
def expand (f : (o : I.Op) → Prog I' (I.Reply o)) : Prog I α → Prog I' α
  | .done a => .done a
  | .op o next => f o >>= fun r => (next r).expand f

section Expand

variable {f : (o : I.Op) → Prog I' (I.Reply o)}

lemma expand_bind : (p >>= g).expand f = p.expand f >>= fun a => (g a).expand f := by
  induction p with
  | done a => rfl
  | op o next ih =>
    change (f o >>= fun r => (next r >>= g).expand f) = _
    simp only [ih, expand, bind_assoc]

lemma Asks.expand {ok' : I'.Op → Prop} (hp : p.Asks ok) (hf : ∀ o, ok o → (f o).Asks ok') :
    (p.expand f).Asks ok' := by
  induction p with
  | done a => trivial
  | op o next ih => exact (hf o hp.1).bind fun r => ih r (hp.2 r)

/-- If each operation keeps a condition while others do, then the program does. -/
lemma Asks.guarantees_expand {sem : Semantics I' σ} {J : σ → Prop} (hp : p.Asks ok)
    (hf : ∀ o, ok o → ∀ s, J s → (f o).Guarantees sem (fun s t => J s → J t)
      (fun _ s t => J s → J t) (fun _ => J) s) (hs : J s) :
    (p.expand f).Guarantees sem (fun s t => J s → J t) (fun _ s t => J s → J t)
      (fun _ _ => True) s := by
  induction p generalizing s with
  | done a => exact fun _ _ => trivial
  | op o next ih =>
    refine guarantees_bind (fun _ h => h) ((hf o hp.1 s hs).mono fun r t ht => ?_)
    exact ih r (hp.2 r) ht

end Expand

/-- The program has come to its end. -/
def ended : Prog I α → Bool
  | .done _ => true
  | .op _ _ => false

section Fallible

variable {ε : Type} {x y : ExceptT ε (Prog I) α} {f : α → ExceptT ε (Prog I) β} {e : ε}
  {r : Except ε α}
  {E' J J' P' : σ → Prop}

/-- The value and the error of a call, for the caller to look at. -/
def attempt (x : ExceptT ε (Prog I) α) : ExceptT ε (Prog I) (Except ε α) :=
  ExceptT.mk (x.run >>= fun r => pure (.ok r))

section AsksOnly

/-- As `Asks`, for a program that may fail. -/
def AsksOnly (ok : I.Op → Prop) (x : ExceptT ε (Prog I) α) : Prop := x.run.Asks ok

lemma asksOnly_of_asks (hx : x.run.Asks ok) : AsksOnly ok x := hx

lemma AsksOnly.asks (hx : AsksOnly ok x) : x.run.Asks ok := hx

lemma asksOnly_pure : AsksOnly ok (pure a : ExceptT ε (Prog I) α) := trivial

lemma asksOnly_throw : AsksOnly ok (throw e : ExceptT ε (Prog I) α) := trivial

lemma AsksOnly.bind (hx : AsksOnly ok x) (hf : ∀ a, AsksOnly ok (f a)) : AsksOnly ok (x >>= f) := by
  unfold AsksOnly
  apply Asks.bind hx
  rintro (e | a)
  · trivial
  · exact hf a

lemma AsksOnly.mono (hx : AsksOnly ok x) (h : ∀ o, ok o → ok' o) : AsksOnly ok' x :=
  Asks.mono hx h

lemma AsksOnly.attempt (hx : AsksOnly ok x) : AsksOnly ok (attempt x) :=
  Asks.bind hx fun _ => trivial

lemma AsksOnly.ite [Decidable c] (hx : AsksOnly ok x) (hy : AsksOnly ok y) :
    AsksOnly ok (if c then x else y) := by
  by_cases hc : c
  · rwa [if_pos hc]
  · rwa [if_neg hc]

lemma asksOnly_forM {f : α → ExceptT ε (Prog I) PUnit}
    (hf : ∀ x ∈ xs, AsksOnly ok (f x)) : AsksOnly ok (xs.forM f) := by
  induction xs with
  | nil => exact asksOnly_pure
  | cons x xs ih =>
    obtain ⟨hx, hxs⟩ := forall_mem_cons.mp hf
    exact hx.bind fun _ => ih hxs

lemma asksOnly_mapM (hf : ∀ x, AsksOnly ok (f x)) : AsksOnly ok (xs.mapM f) := by
  induction xs with
  | nil =>
    exact asksOnly_pure
  | cons x xs ih =>
    rw [mapM_cons]
    exact (hf x).bind fun _ => ih.bind fun _ => asksOnly_pure

-- Unfolded, it would run the program.
attribute [irreducible] AsksOnly

end AsksOnly

section Ensures

variable {E : σ → Prop} {R : β → σ → Prop}

/-- `Q` holds of the result or, if there is none, `E` holds. -/
def Outcome (Q : α → σ → Prop) (E : σ → Prop) : Except ε α → σ → Prop
  | .ok a, s => Q a s
  | .error _, s => E s

/-- Called in `s` and undisturbed, the program leaves a state in which `Q` holds of its result
or, if it fails, `E` holds. -/
def Ensures (sem : Semantics I σ) (s : σ) (x : ExceptT ε (Prog I) α) (Q : α → σ → Prop)
    (E : σ → Prop) : Prop :=
  x.run.wp sem (Outcome Q E) s

lemma Ensures.bind (hx : Ensures sem s x Q E) (hf : ∀ a t, Q a t → Ensures sem t (f a) R E) :
    Ensures sem s (x >>= f) R E := by
  unfold Ensures
  rw [ExceptT.run_bind, wp_bind]
  apply hx.mono
  rintro (e | a) t ht
  · exact ht
  · exact hf a t ht

lemma ensures_pure (h : Q a s) : Ensures sem s (pure a : ExceptT ε (Prog I) α) Q E := h

lemma ensures_throw (h : E s) : Ensures sem s (throw e : ExceptT ε (Prog I) α) Q E := h

lemma Ensures.mono (h : Ensures sem s x Q E) (hQ : ∀ a t, Q a t → Q' a t) (hE : ∀ t, E t → E' t) :
    Ensures sem s x Q' E' := by
  apply wp.mono h
  rintro (e | a) t ht
  · exact hE t ht
  · exact hQ a t ht

lemma Ensures.imp (h : Ensures sem s x (fun _ => J) J) (hJ : ∀ t, J t → J' t) :
    Ensures sem s x (fun _ => J') J' :=
  h.mono (fun _ => hJ) hJ

lemma Ensures.le (h : Ensures sem' s x Q E)
    (hle : ∀ {o s r t}, sem o s r t → sem' o s r t) : Ensures sem s x Q E :=
  wp_iff_runs.mpr fun a t hrun => wp_iff_runs.mp h a t (hrun.mono hle)

lemma ensures_any : Ensures sem s x (fun _ _ => True) (fun _ => True) := by
  unfold Ensures
  rw [wp_iff_runs]
  rintro (e | a) t _
  · trivial
  · trivial

lemma Ensures.and (h : Ensures sem s x Q E) (h' : Ensures sem s x Q' E') :
    Ensures sem s x (fun a t => Q a t ∧ Q' a t) (fun t => E t ∧ E' t) := by
  unfold Ensures at *
  rw [wp_iff_runs] at *
  intro r t hrun
  have hr := h r t hrun
  have hr' := h' r t hrun
  cases r with
  | error _ | ok _ => exact ⟨hr, hr'⟩

lemma Ensures.attempt (h : Ensures sem s x Q F) : Ensures sem s (attempt x) (Outcome Q F) E := by
  unfold Ensures Prog.attempt
  change (x.run >>= fun r => pure (Except.ok r)).wp sem _ s
  rw [wp_bind]
  exact wp.mono h fun _ _ ht => ht

lemma ensures_ite [Decidable c] (hx : c → Ensures sem s x Q E)
    (hy : ¬c → Ensures sem s y Q E) : Ensures sem s (if c then x else y) Q E := by
  by_cases hc : c
  · rw [if_pos hc]
    exact hx hc
  · rw [if_neg hc]
    exact hy hc

/-- A loop, with an invariant that may speak about the elements visited so far. -/
lemma ensures_forM {f : α → ExceptT ε (Prog I) PUnit} {P : List α → σ → Prop} (hs : P [] s)
    (hf : ∀ done x rest t, xs = done ++ x :: rest → P done t →
      Ensures sem t (f x) (fun _ => P (done ++ [x])) E) :
    Ensures sem s (xs.forM f) (fun _ => P xs) E := by
  suffices h : ∀ done rest t, xs = done ++ rest → P done t →
      Ensures sem t (rest.forM f) (fun _ => P xs) E from h [] xs s rfl hs
  intro done rest
  induction rest generalizing done with
  | nil =>
    intro t hxs ht
    rw [append_nil] at hxs
    subst hxs
    exact ensures_pure ht
  | cons x rest ih =>
    intro t hxs ht
    refine (hf done x rest t hxs ht).bind fun _ u hu => ?_
    exact ih (done ++ [x]) u (by rw [hxs, append_assoc, singleton_append]) hu

lemma ensures_mapM {R : α → β → Prop} (hs : J s)
    (hf : ∀ x ∈ xs, ∀ t, J t → Ensures sem t (f x) (fun y t' => R x y ∧ J t') E) :
    Ensures sem s (xs.mapM f) (fun ys t => List.Forall₂ R xs ys ∧ J t) E := by
  induction xs generalizing s with
  | nil =>
    exact ensures_pure ⟨.nil, hs⟩
  | cons x xs ih =>
    obtain ⟨hx, hxs⟩ := forall_mem_cons.mp hf
    rw [mapM_cons]
    refine (hx s hs).bind fun y t hy => (ih hy.2 hxs).bind fun ys u hys => ?_
    exact ensures_pure ⟨.cons hy.1 hys.1, hys.2⟩

lemma Ensures.of_runs (h : Ensures sem s x (fun _ => J) J) (hrun : x.run.Runs sem s r t) : J t := by
  have hr := wp_iff_runs.mp h r t hrun
  cases r with
  | error e => exact hr
  | ok a => exact hr

lemma AsksOnly.ensures (hx : AsksOnly ok x)
    (hstep : ∀ o s r t, ok o → J s → sem o s r t → J t) (hs : J s) :
    Ensures sem s x (fun _ => J) J := by
  suffices h : ∀ p : Prog I (Except ε α), p.Asks ok → ∀ s, J s → p.wp sem (fun _ => J) s by
    apply (h x.run hx.asks s hs).mono
    rintro (e | a) t ht
    · exact ht
    · exact ht
  intro p
  induction p with
  | done r => exact fun _ s hs => hs
  | op o next ih =>
    intro hp s hs r t ho
    exact ih r (hp.2 r) t (hstep o s r t hp.1 hs ho)

end Ensures

section Ends

variable {Q R : Except ε α → σ → Prop}

/-- Called in `s` and undisturbed, the program ends with a result and a state of which `Q` holds. -/
def Ends (sem : Semantics I σ) (s : σ) (x : ExceptT ε (Prog I) α) (Q : Except ε α → σ → Prop) :
    Prop :=
  x.run.wp sem Q s

lemma Ends.bind {Q : Except ε β → σ → Prop} (hx : Ends sem s x R)
    (hok : ∀ a t, R (.ok a) t → Ends sem t (f a) Q)
    (herror : ∀ e t, R (.error e) t → Q (.error e) t) : Ends sem s (x >>= f) Q := by
  unfold Ends
  rw [ExceptT.run_bind, wp_bind]
  apply wp.mono hx
  rintro (e | a) t ht
  · exact herror e t ht
  · exact hok a t ht

lemma ends_pure (h : Q (.ok a) s) : Ends sem s (pure a : ExceptT ε (Prog I) α) Q := h

lemma ends_throw (h : Q (.error e) s) : Ends sem s (throw e : ExceptT ε (Prog I) α) Q := h

lemma Ends.mono (h : Ends sem s x R) (hR : ∀ r t, R r t → Q r t) : Ends sem s x Q :=
  wp.mono h hR

lemma Ends.map {f : α → β} {Q : Except ε β → σ → Prop} (h : Ends sem s x R)
    (hR : ∀ r t, R r t → Q (r.map f) t) : Ends sem s (f <$> x) Q := by
  exact h.bind (fun a t ha => ends_pure (hR (.ok a) t ha)) fun e t he => hR (.error e) t he

lemma Ends.attempt {Q : Except ε (Except ε α) → σ → Prop} (h : Ends sem s x R)
    (hR : ∀ r t, R r t → Q (.ok r) t) : Ends sem s (attempt x) Q := by
  unfold Ends Prog.attempt
  change (x.run >>= fun r => pure (Except.ok r)).wp sem Q s
  rw [wp_bind]
  exact wp.mono h hR

lemma ends_ite [Decidable c] (hx : c → Ends sem s x Q) (hy : ¬c → Ends sem s y Q) :
    Ends sem s (if c then x else y) Q := by
  by_cases hc : c
  · rw [if_pos hc]
    exact hx hc
  · rw [if_neg hc]
    exact hy hc

lemma Ends.of_runs (h : Ends sem s x Q) (hrun : x.run.Runs sem s r t) : Q r t :=
  wp_iff_runs.mp h r t hrun

end Ends

/-- A condition on the result of a call, in case it did not fail. -/
def OnSuccess (Q : α → σ → Prop) : Except ε α → σ → Prop
  | .ok a, s => Q a s
  | .error _, _ => True

lemma onSuccess_of (h : ∀ a, r = .ok a → Q a s) : OnSuccess Q r s := by
  cases r with
  | error e => trivial
  | ok a => exact h a rfl

/-- Others leave the condition alone. -/
def Stable (rely : σ → σ → Prop) (P : σ → Prop) : Prop := ∀ s t, P s → rely s t → P t

/-- Called where `P` holds, the program does what it guarantees, and `Q` holds of its result if
it does not fail. -/
def Triple (sem : Semantics I σ) (rely : σ → σ → Prop) (guar : I.Op → σ → σ → Prop)
    (P : σ → Prop) (x : ExceptT ε (Prog I) α) (Q : α → σ → Prop) : Prop :=
  ∀ s, P s → x.run.Guarantees sem rely guar (OnSuccess Q) s

variable {P : σ → Prop}

lemma triple_bind (hrefl : ∀ s, rely s s) (hx : Triple sem rely guar P x Q)
    (hf : ∀ a, Triple sem rely guar (Q a) (f a) R) : Triple sem rely guar P (x >>= f) R := by
  intro s hs
  apply guarantees_bind hrefl
  apply (hx s hs).mono
  rintro (e | a) t ht
  · exact fun _ _ => trivial
  · exact hf a t ht

lemma triple_pure (hP : Stable rely P) (h : ∀ s, P s → Q a s) :
    Triple sem rely guar P (pure a : ExceptT ε (Prog I) α) Q :=
  fun s hs t ht => h t (hP s t hs ht)

lemma triple_map (hrefl : ∀ s, rely s s)
    (hR : ∀ a, Stable rely (R (g a))) (hx : Triple sem rely guar P x fun a => R (g a)) :
    Triple sem rely guar P (g <$> x) R := by
  exact triple_bind hrefl hx fun a => triple_pure (hR a) fun _ hs => hs

lemma triple_throw : Triple sem rely guar P (throw e : ExceptT ε (Prog I) α) Q :=
  fun _ _ _ _ => trivial

lemma triple_attempt {Q : Except ε α → σ → Prop} (hrefl : ∀ s, rely s s)
    (hQ : ∀ r, Stable rely (Q r)) (h : ∀ s, P s → x.run.Guarantees sem rely guar Q s) :
    Triple sem rely guar P (attempt x) Q := by
  intro s hs
  apply guarantees_bind hrefl
  apply (h s hs).mono
  intro r t ht u hu
  exact hQ r t u ht hu

/-- A condition that every step keeps holds after a call whether or not it failed. -/
lemma Guarantees.frame (h : p.Guarantees sem rely guar Q s)
    (hrely : Stable rely J) (hguar : ∀ o, Stable (guar o) J) (hs : J s) :
    p.Guarantees sem rely guar (fun a t => Q a t ∧ J t) s := by
  induction p generalizing s with
  | done a => exact fun t ht => ⟨h t ht, hrely s t hs ht⟩
  | op o next ih =>
    intro t ht r u hu
    obtain ⟨hstep, hnext⟩ := h t ht r u hu
    exact ⟨hstep, ih r hnext (hguar o t u (hrely s t hs ht) hstep)⟩

lemma Stable.onSuccess (hQ : ∀ a, Stable rely (Q a)) (r : Except ε α) :
    Stable rely (OnSuccess Q r) := by
  cases r with
  | error e => exact fun _ _ _ _ => trivial
  | ok a => exact hQ a

lemma Stable.and (hP : Stable rely P) (hP' : Stable rely P') : Stable rely fun s => P s ∧ P' s :=
  fun s t hs ht => ⟨hP s t hs.1 ht, hP' s t hs.2 ht⟩

section

variable (h : Triple sem rely guar P x Q)
include h

lemma Triple.attempt (hrefl : ∀ s, rely s s)
    (hQ : ∀ a, Stable rely (Q a)) (hrely : Stable rely J) (hguar : ∀ o, Stable (guar o) J)
    (hJ : ∀ s, P s → J s) :
    Triple sem rely guar P (attempt x) fun r t => OnSuccess Q r t ∧ J t := by
  refine triple_attempt hrefl (fun r => (Stable.onSuccess hQ r).and hrely) fun s hs => ?_
  exact (h s hs).frame hrely hguar (hJ s hs)

lemma Triple.frame (hrely : Stable rely J) (hguar : ∀ o, Stable (guar o) J) :
    Triple sem rely guar (fun s => P s ∧ J s) x fun a t => Q a t ∧ J t := by
  intro s hs
  apply ((h s hs.1).frame hrely hguar hs.2).mono
  rintro (e | a) t ht
  · trivial
  · exact ht

lemma Triple.pre (hP : ∀ s, P' s → P s) : Triple sem rely guar P' x Q :=
  fun s hs => h s (hP s hs)

lemma Triple.post (hQ : ∀ a s, Q a s → Q' a s) : Triple sem rely guar P x Q' := by
  intro s hs
  apply (h s hs).mono
  rintro (e | a) t ht
  · trivial
  · exact hQ a t ht

end

lemma triple_ite [Decidable c] (hx : c → Triple sem rely guar P x Q)
    (hy : ¬c → Triple sem rely guar P y Q) : Triple sem rely guar P (if c then x else y) Q := by
  by_cases hc : c
  · rw [if_pos hc]
    exact hx hc
  · rw [if_neg hc]
    exact hy hc

lemma triple_forM {f : α → ExceptT ε (Prog I) PUnit} (hrefl : ∀ s, rely s s)
    (hP : Stable rely P) (hf : ∀ x ∈ xs, Triple sem rely guar P (f x) fun _ => P) :
    Triple sem rely guar P (xs.forM f) fun _ => P := by
  induction xs with
  | nil => exact triple_pure hP fun _ hs => hs
  | cons x xs ih =>
    refine triple_bind hrefl (hf x mem_cons_self) fun _ => ?_
    exact ih fun y hy => hf y (mem_cons_of_mem x hy)

lemma triple_of_pure (h : F → Triple sem rely guar P x Q) :
    Triple sem rely guar (fun s => F ∧ P s) x Q :=
  fun s hs => h hs.1 s hs.2

section Upholds

variable {impl : (o : I.Op) → Prog I' (I.Reply o)} {sem : Semantics I' σ}
  {guar : I'.Op → σ → σ → Prop}

/-- As `Triple`, for the program with its operations carried out by `impl`, and with a condition
`J` that holds before and after, whether or not the program fails. -/
def Upholds (impl : (o : I.Op) → Prog I' (I.Reply o)) (sem : Semantics I' σ) (rely : σ → σ → Prop)
    (guar : I'.Op → σ → σ → Prop) (J P : σ → Prop) (x : ExceptT ε (Prog I) α)
    (Q : α → σ → Prop) : Prop :=
  ∀ s, J s → P s → (x.run.expand impl).Guarantees sem rely guar
    (fun r t => J t ∧ OnSuccess Q r t) s

lemma Upholds.pre (h : Upholds impl sem rely guar J P x Q) (hP : ∀ s, J s → P' s → P s) :
    Upholds impl sem rely guar J P' x Q :=
  fun s hs hs' => h s hs (hP s hs hs')

lemma upholds_of_pure (h : F → Upholds impl sem rely guar J P x Q) :
    Upholds impl sem rely guar J (fun s => F ∧ P s) x Q :=
  fun s hs hs' => h hs'.1 s hs hs'.2

lemma upholds_ite [Decidable c] (hx : c → Upholds impl sem rely guar J P x Q)
    (hy : ¬c → Upholds impl sem rely guar J P y Q) :
    Upholds impl sem rely guar J P (if c then x else y) Q := by
  by_cases hc : c
  · rw [if_pos hc]
    exact hx hc
  · rw [if_neg hc]
    exact hy hc

variable (hrefl : ∀ s, rely s s) (hJ : Stable rely J)
include hJ

lemma upholds_pure (hQ : Stable rely (Q a)) :
    Upholds impl sem rely guar J (Q a) (pure a : ExceptT ε (Prog I) α) Q :=
  fun s hs hs' t ht => ⟨hJ s t hs ht, hQ s t hs' ht⟩

lemma upholds_throw : Upholds impl sem rely guar J P (throw e : ExceptT ε (Prog I) α) Q :=
  fun s hs _ t ht => ⟨hJ s t hs ht, trivial⟩

include hrefl

lemma Upholds.bind (hx : Upholds impl sem rely guar J P x Q)
    (hf : ∀ a, Upholds impl sem rely guar J (Q a) (f a) R) :
    Upholds impl sem rely guar J P (x >>= f) R := by
  intro s hs hs'
  rw [ExceptT.run_bind, expand_bind]
  refine guarantees_bind hrefl ((hx s hs hs').mono ?_)
  rintro (e | a) t ⟨ht, hQ⟩
  · exact fun u hu => ⟨hJ t u ht hu, trivial⟩
  · exact hf a t ht hQ

lemma Upholds.attempt (hQ : ∀ a, Stable rely (Q a)) (hx : Upholds impl sem rely guar J P x Q) :
    Upholds impl sem rely guar J P (attempt x) (OnSuccess Q) := by
  intro s hs hs'
  change ((x.run >>= fun r => pure (Except.ok r)).expand impl).Guarantees _ _ _ _ s
  rw [expand_bind]
  refine guarantees_bind hrefl ((hx s hs hs').mono ?_)
  exact fun r t ht u hu => ⟨hJ t u ht.1 hu, Stable.onSuccess hQ r t u ht.2 hu⟩

lemma upholds_forM {f : α → ExceptT ε (Prog I) PUnit}
    (hf : ∀ x ∈ xs, Upholds impl sem rely guar J (fun _ => True) (f x) fun _ _ => True) :
    Upholds impl sem rely guar J (fun _ => True) (xs.forM f) fun _ _ => True := by
  induction xs with
  | nil => exact upholds_pure (Q := fun _ _ => True) hJ fun _ _ _ _ => trivial
  | cons x xs ih =>
    refine Upholds.bind hrefl hJ (hf x mem_cons_self) fun _ => ?_
    exact ih fun y hy => hf y (mem_cons_of_mem x hy)

end Upholds

end Fallible

end Prog

/-- Programs, each at the point it has reached, and the state they share. -/
abbrev Pool (ι : Type) (I : Interface) (α σ : Type) := (ι → Prog I α) × σ

section Pools

variable [DecidableEq ι] {χ : Type} {sem : ι → Semantics I σ} {start c : Pool ι I α σ}
  {tr : List (Pool ι I α σ × (ι × I.Op))} {turns : List (ι × χ)}
  {exec : ι → χ → (o : I.Op) → σ → Option (I.Reply o × σ)}

/-- Program `i` of the pool performs its next operation, which is `o`. -/
inductive PoolStep (sem : ι → Semantics I σ) : Pool ι I α σ → ι × I.Op → Pool ι I α σ → Prop
  | perform {pool : ι → Prog I α} {s t : σ} {i : ι} {o : I.Op} {next : I.Reply o → Prog I α}
      {r : I.Reply o} (hi : pool i = .op o next) (ho : sem i o s r t) :
      PoolStep sem (pool, s) (i, o) (Function.update pool i (next r), t)

/-- The operations of `tr`, most recent first, lead from `start` to the second pool. -/
abbrev Interleaving (sem : ι → Semantics I σ) (start : Pool ι I α σ)
    (tr : List (Pool ι I α σ × (ι × I.Op))) (c : Pool ι I α σ) : Prop :=
  Run (fun c => c = start) (PoolStep sem) tr c

/-- The rely/guarantee rule: programs whose steps the others rely on each keep what they
guarantee, in every interleaving. -/
theorem Interleaving.guarantees (h : Interleaving sem start tr c) {rely : ι → σ → σ → Prop}
    {guar : ι → I.Op → σ → σ → Prop} {Q : ι → α → σ → Prop} (hrefl : ∀ i a, rely i a a)
    (htrans : ∀ i a b c, rely i a b → rely i b c → rely i a c)
    (hrely : ∀ i j o s t, i ≠ j → guar i o s t → rely j s t)
    (hstart : ∀ i, (start.1 i).Guarantees (sem i) (rely i) (guar i) (Q i) start.2) (i : ι) :
    (c.1 i).Guarantees (sem i) (rely i) (guar i) (Q i) c.2 := by
  refine h.invariant (I := fun c => ∀ i,
    (c.1 i).Guarantees (sem i) (rely i) (guar i) (Q i) c.2) ?_ ?_ i
  · rintro c rfl
    exact hstart
  · rintro _ _ _ hI (@⟨pool, s, t, i, o, next, r, hi, ho⟩) j
    have hstep : (pool i).Guarantees (sem i) (rely i) (guar i) (Q i) s := hI i
    rw [hi] at hstep
    obtain ⟨hguar, hnext⟩ := hstep s (hrefl i s) r t ho
    by_cases hj : j = i
    · subst hj
      simpa using hnext
    · have hother : (pool j).Guarantees (sem j) (rely j) (guar j) (Q j) s := hI j
      simpa [update_of_ne hj] using
        hother.later (htrans j) (hrely i j o s t (Ne.symm hj) hguar)

/-- In every interleaving each program performs only operations that it asks for. -/
theorem Interleaving.asks (h : Interleaving sem start tr c)
    (hstart : ∀ i, (start.1 i).Asks ok) : ∀ e ∈ tr, ok e.2.2 := by
  refine (h.invariant_history (I := fun tr c => (∀ i, (c.1 i).Asks ok) ∧ ∀ e ∈ tr, ok e.2.2)
    ?_ ?_).2
  · rintro c rfl
    exact ⟨hstart, fun e he => absurd he not_mem_nil⟩
  · rintro tr _ _ _ - ⟨hasks, htr⟩ (@⟨pool, s, t, i, o, next, r, hi, ho⟩)
    have hop : (pool i).Asks ok := hasks i
    rw [hi] at hop
    constructor
    · intro j
      by_cases hj : j = i
      · subst hj
        simpa using hop.2 r
      · simpa [update_of_ne hj] using hasks j
    · intro e he
      rcases mem_cons.mp he with rfl | he
      · exact hop.1
      · exact htr e he

/-- The rely/guarantee rule for each step. The other programs need only respect what a program
relies on while it is under way: it has made a step and has not come to its end. -/
theorem Interleaving.steps (h : Interleaving sem start tr c) {J : σ → Prop}
    {R : ι → σ → σ → Prop} {G : ι → I.Op → σ → σ → Prop} (hrefl : ∀ i a, R i a a)
    (htrans : ∀ i a b c, R i a b → R i b c → R i a c)
    (hJ : J start.2) (hguar : ∀ i o s t, J s → G i o s t → J t)
    (hrely : ∀ e before t, e :: before <:+ tr → PoolStep sem e.1 e.2 t → J t.2 →
      ∀ j, j ≠ e.2.1 → (∃ e' ∈ before, e'.2.1 = j) → (e.1.1 j).ended = false →
        R j e.1.2 t.2)
    (hstart : ∀ i s, J s →
      (start.1 i).Guarantees (sem i) (R i) (G i) (fun _ _ => True) s) :
    J c.2 ∧ ∀ e ∈ tr, J e.1.2 ∧ ∃ t, PoolStep sem e.1 e.2 t ∧ G e.2.1 e.2.2 e.1.2 t.2 := by
  suffices hall : (J c.2 ∧ ∀ e ∈ tr, J e.1.2 ∧
      ∃ t, PoolStep sem e.1 e.2 t ∧ G e.2.1 e.2.2 e.1.2 t.2) ∧
      ∀ j, (c.1 j = start.1 j ∧ ∀ e ∈ tr, e.2.1 ≠ j) ∨ (∃ e ∈ tr, e.2.1 = j) ∧
        (c.1 j).Guarantees (sem j) (R j) (G j) (fun _ _ => True) c.2 from hall.1
  induction h with
  | start heq =>
    subst heq
    exact ⟨⟨hJ, forall_mem_nil _⟩, fun j => .inl ⟨rfl, forall_mem_nil _⟩⟩
  | @next tr c c' a hrun hstep ih =>
    obtain ⟨⟨hc, htr⟩, hprogs⟩ := ih fun e before t hsuffix =>
      hrely e before t (hsuffix.trans (suffix_cons _ _))
    have hown : (c.1 a.1).Guarantees (sem a.1) (R a.1) (G a.1) (fun _ _ => True) c.2 := by
      rcases hprogs a.1 with ⟨hi, -⟩ | ⟨-, hi⟩
      · rw [hi]
        exact hstart a.1 c.2 hc
      · exact hi
    have hlast : G a.1 a.2 c.2 c'.2 ∧
        (c'.1 a.1).Guarantees (sem a.1) (R a.1) (G a.1) (fun _ _ => True) c'.2 := by
      obtain ⟨hi, ho⟩ := hstep
      simp only [hi] at hown
      simpa using hown _ (hrefl _ _) _ _ ho
    have hc' : J c'.2 := hguar _ _ _ _ hc hlast.1
    refine ⟨⟨hc', forall_mem_cons.mpr ⟨⟨hc, c', hstep, hlast.1⟩, htr⟩⟩, fun j => ?_⟩
    by_cases hj : j = a.1
    · subst hj
      exact .inr ⟨⟨_, mem_cons_self, rfl⟩, hlast.2⟩
    · have hsame : c'.1 j = c.1 j := by
        obtain ⟨hi, ho⟩ := hstep
        exact update_of_ne hj _ _
      rcases hprogs j with ⟨hfirst, hnone⟩ | ⟨⟨e, he, hstarted⟩, hprog⟩
      · exact .inl ⟨hsame.trans hfirst, forall_mem_cons.mpr ⟨Ne.symm hj, hnone⟩⟩
      · refine .inr ⟨⟨e, mem_cons_of_mem _ he, hstarted⟩, ?_⟩
        rw [hsame]
        cases hend : (c.1 j).ended with
        | true =>
          cases hdone : c.1 j with
          | done a => exact fun _ _ => trivial
          | op o next =>
            rw [hdone] at hend
            cases hend
        | false =>
          exact hprog.later (htrans j)
            (hrely _ _ c' suffix_rfl hstep hc' j hj ⟨e, he, hstarted⟩ hend)

/-- A run whose steps meet a condition is one of the semantics with that condition. -/
lemma Interleaving.restrict (h : Interleaving sem start tr c) {C : ι → I.Op → σ → Prop}
    (hC : ∀ e ∈ tr, C e.2.1 e.2.2 e.1.2) :
    Interleaving (fun i o s r t => C i o s ∧ sem i o s r t) start tr c := by
  induction h with
  | start heq => exact .start heq
  | next _ hstep ih =>
    refine .next (ih fun e he => hC e (mem_cons_of_mem _ he)) ?_
    have hlast := hC _ mem_cons_self
    obtain ⟨hi, ho⟩ := hstep
    exact .perform hi ⟨hlast, ho⟩

/-- A program that runs alone. -/
theorem exists_interleaving_of_runs (sem : ι → Semantics I σ) (pool : ι → Prog I α)
    (hi : pool i = p) (h : p.Runs (sem i) s a t) :
    ∃ tr, Interleaving sem (pool, s) tr (Function.update pool i (.done a), t) := by
  suffices hruns : ∀ {start : Pool ι I α σ} {tr : List (Pool ι I α σ × (ι × I.Op))},
      Interleaving sem start tr (pool, s) →
        ∃ tr, Interleaving sem start tr (update pool i (.done a), t) from
    hruns (.start rfl)
  induction h generalizing pool with
  | @done a s =>
    intro start tr hrun
    rw [← hi, update_eq_self]
    exact ⟨tr, hrun⟩
  | @op o next s t u r a ho _ ih =>
    intro start tr hrun
    obtain ⟨tr', hrun'⟩ := ih _ (update_self i (next r) pool)
      (.next hrun (.perform hi ho))
    rw [update_idem] at hrun'
    exact ⟨tr', hrun'⟩

/-- The pool after the programs named in `turns`, most recent first, have each performed their
next operation, which `exec` carries out with the choice that comes with the turn. -/
def schedule {χ : Type} (exec : ι → χ → (o : I.Op) → σ → Option (I.Reply o × σ))
    (start : Pool ι I α σ) : List (ι × χ) →
      Option (List (Pool ι I α σ × (ι × I.Op)) × Pool ι I α σ)
  | [] => some ([], start)
  | (i, choice) :: turns => do
    let (tr, c) ← schedule exec start turns
    match c.1 i with
    | .done _ => none
    | .op o next =>
      let (r, t) ← exec i choice o c.2
      return ((c, (i, o)) :: tr, (Function.update c.1 i (next r), t))

theorem interleaving_of_schedule
    (hexec : ∀ i choice o s r t, exec i choice o s = some (r, t) → sem i o s r t)
    (h : schedule exec start turns = some (tr, c)) : Interleaving sem start tr c := by
  induction turns generalizing tr c with
  | nil =>
    cases h
    exact .start rfl
  | cons turn turns ih =>
    obtain ⟨i, choice⟩ := turn
    obtain ⟨⟨tr', c'⟩, hbefore, h⟩ := Option.bind_eq_some_iff.mp h
    cases hi : c'.1 i with
    | done a => simp [hi] at h
    | op o next =>
      simp only [hi] at h
      obtain ⟨⟨r, t⟩, hr, h⟩ := Option.bind_eq_some_iff.mp h
      cases h
      exact .next (ih hbefore) (.perform hi (hexec i choice o _ r t hr))

/-- A schedule that runs to its end and passes a check is an interleaving that does. -/
theorem exists_interleaving
    (hexec : ∀ i choice o s r t, exec i choice o s = some (r, t) → sem i o s r t)
    (h : (schedule exec start turns).any check = true) :
    ∃ tr c, Interleaving sem start tr c ∧ check (tr, c) = true := by
  cases hs : schedule exec start turns with
  | none =>
    rw [hs] at h
    cases h
  | some p =>
    rw [hs] at h
    exact ⟨p.1, p.2, interleaving_of_schedule hexec hs, h⟩

end Pools

end AstraStorage.Lib
