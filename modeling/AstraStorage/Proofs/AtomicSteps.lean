import AstraStorage.Proofs.ControllerSteps

/-!
# Programs that run at the same time

What every write and every call on the service keeps is kept in every interleaving, although a
transaction puts a copy of an earlier state in the place of the current one.
-/

namespace AstraStorage.Proofs
open Lib Prog Store Coordinator List

variable {o : CoordinatorOp} {ok : CoordinatorOp → Prop} {J : MemoryState → Prop}

lemma perform_endTx {r : Except Fault Unit} (h : atomicSemantics (.endTx tx callback) w r w') :
    w'.store = w.store ∨ Yields callback.run tx.state () w'.store := by
  obtain ⟨env, h⟩ := h
  unfold Environment.performAtomic at h
  cases hrun : callback.run tx.state with
  | error e s =>
    simp only [hrun, Option.some.injEq] at h
    cases h
    exact .inl rfl
  | ok a s =>
    simp only [hrun, Option.some.injEq] at h
    cases h
    by_cases hclosed : tx.closed = true
    · exact .inl (by simp [RepositoryOp.run, hclosed])
    · exact .inr (by simpa [RepositoryOp.run, hclosed, Yields] using hrun)

def Carries (ok : CoordinatorOp → Prop) : AtomicOp → Prop
  | .single o => ok o
  | .beginTx => True
  | .endTx _ (.repo writes) => ok (.repo (.inTx writes))
  | .endTx _ (.service now call) => ok (.service now call)

lemma atomically_cases (o : CoordinatorOp) : (∃ writes, o = .repo (.inTx writes)) ∨
    (∃ now call, o = .service now call) ∨
      atomically o = Prog.perform (I := atomicSteps) (.single o) := by
  cases o with
  | repo call =>
    cases call with
    | inTx writes => exact .inl ⟨writes, rfl⟩
    | _ => exact .inr (.inr rfl)
  | service now call => exact .inr (.inl ⟨now, call, rfl⟩)
  | _ => exact .inr (.inr rfl)

lemma asks_atomically (h : ok o) : (atomically o).Asks (Carries ok) := by
  rcases atomically_cases o with ⟨writes, rfl⟩ | ⟨now, call, rfl⟩ | hsingle
  · exact ⟨trivial, fun tx => ⟨h, fun _ => trivial⟩⟩
  · exact ⟨trivial, fun tx => ⟨h, fun _ => trivial⟩⟩
  · rw [hsingle]
    exact ⟨h, fun _ => trivial⟩

def KeptBy (J : MemoryState → Prop) : CoordinatorOp → Prop
  | .repo call => ∀ v ∈ writesOf call, ∀ s t, J s → Yields v.run s () t → J t
  | .service now call => ∀ s t, J s → Yields (call.run now) s () t → J t
  | _ => True

lemma guarantees_inTwoSteps (hcallback : ∀ s t, J s → Yields callback.run s () t → J t)
    (hw : J w.store) : (inTwoSteps callback).Guarantees atomicSemantics
      (fun w w' => J w.store → J w'.store) (fun _ w w' => J w.store → J w'.store)
      (fun _ w => J w.store) w := by
  intro w1 hw1 tx _ hbegin
  obtain ⟨env, ⟨⟩⟩ := hbegin
  refine ⟨id, fun w2 hw2 r w3 hend => ?_⟩
  -- the copy is the state of `BeginTx`, where the condition held as well
  have hw3 : J w3.store := by
    rcases perform_endTx hend with hsame | hyields
    · rw [hsame]
      exact hw2 (hw1 hw)
    · exact hcallback _ _ (hw1 hw) hyields
  exact ⟨fun _ => hw3, fun _ h => h hw3⟩

lemma guarantees_atomically (ho : KeptBy J o) (hw : J w.store) :
    (atomically o).Guarantees atomicSemantics (fun w w' => J w.store → J w'.store)
      (fun _ w w' => J w.store → J w'.store) (fun _ w => J w.store) w := by
  rcases atomically_cases o with ⟨writes, rfl⟩ | ⟨now, call, rfl⟩ | hsingle
  · exact guarantees_inTwoSteps (fun s t hs hyields => hyields.forM_preserves
      (fun v hv s _ t hs hrun => ho v hv s t hs hrun) hs) hw
  · refine guarantees_bind (fun _ h => h) ((guarantees_inTwoSteps ?_ hw).mono ?_)
    · exact ho
    · exact fun _ _ h _ h' => h' h
  · rw [hsingle]
    intro w1 hw1 r w2 hstep
    have hw2 : J w2.store := by
      refine step_keeps hstep (hw1 hw) ?_ ?_
      · rintro call rfl
        exact ho
      · rintro now call rfl
        rcases exec_cases now call w1.store with hsame | hyields
        · rw [hsame]
          exact hw1 hw
        · exact ho _ _ (hw1 hw) hyields
    exact ⟨fun _ => hw2, fun _ h => h hw2⟩

section Runs

variable {ι α : Type} [DecidableEq ι] {programs : ι → Prog coordinatorSteps α}
  {tr : List (SystemPool ι α × (ι × AtomicOp))} {c : SystemPool ι α} (h : SystemRun programs w tr c)
include h

lemma carries_of_run (hp : ∀ i, (programs i).Asks ok) : ∀ e ∈ tr, Carries ok e.2.2 :=
  h.asks fun i => (hp i).expand fun _ => asks_atomically

/-- What the steps of all programs keep holds at every moment. -/
theorem run_keeps (hp : ∀ i, (programs i).Asks (KeptBy J)) (hw : J w.store) :
    J c.2.store ∧ ∀ e ∈ tr, J e.1.2.store := by
  have hsteps := h.steps (J := fun w => J w.store) (R := fun _ w w' => J w.store → J w'.store)
    (G := fun _ _ w w' => J w.store → J w'.store) (fun _ _ h => h)
    (fun _ _ _ _ h h' hs => h' (h hs)) hw (fun _ _ _ _ hs h => h hs)
    (fun _ _ _ _ _ ht _ _ _ _ _ => ht)
    (fun i s hs => (hp i).guarantees_expand (fun _ ho _ hs => guarantees_atomically ho hs) hs)
  exact ⟨hsteps.1, fun e he => (hsteps.2 e he).1⟩

end Runs

end AstraStorage.Proofs
