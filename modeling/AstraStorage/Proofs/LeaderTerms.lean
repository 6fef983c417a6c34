import AstraStorage.Model.Supervisor

/-!
# The loops of two leadership terms

A `StartLeading` call waits for the loops of the group that it replaces. The chain breaks where a
`StopLeading` call has taken the group out of the supervisor and not yet waited for it.
-/

namespace AstraStorage.Proofs
open Lib Coordinator Function Option

variable {k : Nat}

section LeaderTerms

variable {n : Nat} {ι : Type} {s : Supervisor n ι}

def RunsLoop (s : Supervisor n ι) (group : Nat) : Prop :=
  ∃ loop, (s.groups group).loops loop = .running

def takenGroup : LeadingCall → Option Nat
  | .cancelling _ done => done
  | .draining done => done
  | _ => none

def StartsSettled (s : Supervisor n ι) : SupervisorAction n ι → Prop
  | .lock call => s.calls call = .startLeading → s.cancel = none →
      ∀ stopping group, takenGroup (s.calls stopping) = some group →
        (s.groups group).closed = true
  | _ => True

structure Chained (s : Supervisor n ι) : Prop where
  fields : s.done = s.cancel
  current : ∀ g, s.cancel = some g → g + 1 = s.created
  last : s.cancel = none → ∀ g, g + 1 = s.created →
    (s.groups g).closed = true ∨ ∃ call, takenGroup (s.calls call) = some g
  ordered : ∀ g h, g < h → (s.groups h).spawned = true → (s.groups g).closed = true
  waiting : ∀ call waitFor h, s.calls call = .waiting waitFor h →
    h < s.created ∧ (s.groups h).spawned = false ∧
      (waitFor = none ∧ (∀ g < h, (s.groups g).closed = true) ∨
        ∃ g, waitFor = some g ∧ g + 1 = h)
  waiting_unique : ∀ call call' waitFor waitFor' h, s.calls call = .waiting waitFor h →
    s.calls call' = .waiting waitFor' h → call = call'
  spawned : ∀ g, (s.groups g).spawned = true → g < s.created
  closed : ∀ g, (s.groups g).closed = true →
    (s.groups g).spawned = true ∧ ∀ loop, (s.groups g).loops loop = .returned
  idle : ∀ g, (s.groups g).spawned = false → ∀ loop, (s.groups g).loops loop = .ready

section

variable (h : Chained s)
include h

lemma Chained.not_both (hlt : g < k) : ¬(RunsLoop s g ∧ RunsLoop s k) := by
  rintro ⟨⟨loop, hloop⟩, ⟨loop', hloop'⟩⟩
  cases hspawned : (s.groups k).spawned with
  | false =>
    rw [h.idle k hspawned loop'] at hloop'
    cases hloop'
  | true =>
    rw [(h.closed g (h.ordered g k hlt hspawned)).2 loop] at hloop
    cases hloop

lemma Chained.all_closed (hlast : ∀ g, g + 1 = s.created → (s.groups g).closed = true) :
    ∀ g < s.created, (s.groups g).closed = true := by
  intro g hg
  have hpred := hlast (s.created - 1) (by omega)
  by_cases heq : g = s.created - 1
  · rw [heq]
    exact hpred
  · exact h.ordered g (s.created - 1) (by omega) (h.closed _ hpred).1

lemma Chained.setGroup (hspawned : x.spawned = (s.groups k).spawned)
    (hclosed : (s.groups k).closed = true → x.closed = true)
    (hreturned : x.closed = true → x.spawned = true ∧ ∀ loop, x.loops loop = .returned)
    (hidle : x.spawned = false → ∀ loop, x.loops loop = .ready) : Chained (s.setGroup k x) := by
  have hsame : ∀ g, ((s.setGroup k x).groups g).spawned = (s.groups g).spawned := by
    intro g
    by_cases hg : g = k
    · subst hg
      simpa [Supervisor.setGroup] using hspawned
    · simp [Supervisor.setGroup, hg]
  have hkept : ∀ g, (s.groups g).closed = true → ((s.setGroup k x).groups g).closed = true := by
    intro g hg
    by_cases hgk : g = k
    · subst hgk
      simpa [Supervisor.setGroup] using hclosed hg
    · simpa [Supervisor.setGroup, hgk] using hg
  refine ⟨h.fields, h.current, fun hnone g hg => (h.last hnone g hg).imp_left (hkept g), ?_, ?_,
    h.waiting_unique, fun g hg => h.spawned g (hsame g ▸ hg), ?_, ?_⟩
  · intro g j hlt hj
    exact hkept g (h.ordered g j hlt (hsame j ▸ hj))
  · intro call waitFor j hcall
    obtain ⟨hlt, hj, hwait⟩ := h.waiting call waitFor j hcall
    refine ⟨hlt, (hsame j).trans hj, hwait.imp_left fun hall => ⟨hall.1, fun g hg => ?_⟩⟩
    exact hkept g (hall.2 g hg)
  · intro g hg
    by_cases hgk : g = k
    · subst hgk
      simp only [Supervisor.setGroup, update_self] at hg ⊢
      exact hreturned hg
    · simp only [Supervisor.setGroup, update_of_ne hgk] at hg ⊢
      exact h.closed g hg
  · intro g hg
    by_cases hgk : g = k
    · subst hgk
      simp only [Supervisor.setGroup, update_self] at hg ⊢
      exact hidle hg
    · simp only [Supervisor.setGroup, update_of_ne hgk] at hg ⊢
      exact h.idle g hg

lemma Chained.cancelContext (cancel : Option Nat) : Chained (s.cancelContext cancel) := by
  cases cancel with
  | none => exact h
  | some g => exact h.setGroup rfl (fun hclosed => hclosed) (h.closed g) (h.idle g)

lemma Chained.spawn (hk : k < s.created) (hbefore : ∀ g < k, (s.groups g).closed = true)
    (hcalls : ∀ call waitFor, s.calls call ≠ .waiting waitFor k) :
    Chained (s.setGroup k { s.groups k with spawned := true }) := by
  have hclosed : ∀ g, ((s.setGroup k { s.groups k with spawned := true }).groups g).closed =
      (s.groups g).closed := by
    intro g
    by_cases hg : g = k
    · subst hg
      simp [Supervisor.setGroup]
    · simp [Supervisor.setGroup, hg]
  have hother : ∀ g, g ≠ k →
      (s.setGroup k { s.groups k with spawned := true }).groups g = s.groups g := by
    intro g hg
    simp [Supervisor.setGroup, hg]
  refine ⟨h.fields, h.current, ?_, ?_, ?_, h.waiting_unique, ?_, ?_, ?_⟩
  · intro hnone g hg
    rw [hclosed g]
    exact h.last hnone g hg
  · intro g j hlt hj
    rw [hclosed g]
    by_cases hjk : j = k
    · exact hbefore g (hjk ▸ hlt)
    · rw [hother j hjk] at hj
      exact h.ordered g j hlt hj
  · intro call waitFor j hcall
    obtain ⟨hlt, hj, hwait⟩ := h.waiting call waitFor j hcall
    have hjk : j ≠ k := by
      rintro rfl
      exact hcalls call waitFor hcall
    refine ⟨hlt, by rwa [hother j hjk], hwait.imp_left fun hall => ⟨hall.1, fun g hg => ?_⟩⟩
    rw [hclosed g]
    exact hall.2 g hg
  · intro g hg
    by_cases hgk : g = k
    · rw [hgk]
      exact hk
    · rw [hother g hgk] at hg
      exact h.spawned g hg
  · intro g hg
    rw [hclosed g] at hg
    by_cases hgk : g = k
    · subst hgk
      simpa [Supervisor.setGroup] using (h.closed g hg).2
    · rw [hother g hgk]
      exact h.closed g hg
  · intro g hg
    by_cases hgk : g = k
    · subst hgk
      simp [Supervisor.setGroup] at hg
    · rw [hother g hgk] at hg ⊢
      exact h.idle g hg

lemma Chained.clear (htaken : ∀ g, s.cancel = some g → ∃ call, takenGroup (s.calls call) = some g) :
    Chained { s with cancel := none, done := none } := by
  refine { h with fields := rfl, current := ?_, last := ?_ }
  · intro g hg
    cases hg
  · intro _ g hg
    cases hcancel : s.cancel with
    | none => exact h.last hcancel g hg
    | some k =>
      have hk := h.current k hcancel
      change g + 1 = s.created at hg
      obtain rfl : k = g := by omega
      exact .inr (htaken k hcancel)

end

variable [DecidableEq ι] {call : ι}

section

variable (h : Chained s)
include h

lemma Chained.setCall (hposition : ∀ waitFor g, position ≠ .waiting waitFor g)
    (htaken : ∀ g, takenGroup (s.calls call) = some g →
      takenGroup position = some g ∨ (s.groups g).closed = true) :
    Chained (s.setCall call position) := by
  have hwaiting : ∀ call' waitFor g, (s.setCall call position).calls call' = .waiting waitFor g →
      s.calls call' = .waiting waitFor g := by
    intro call' waitFor g hcall'
    by_cases heq : call' = call
    · subst heq
      simp only [Supervisor.setCall, update_self] at hcall'
      exact absurd hcall' (hposition waitFor g)
    · simpa [Supervisor.setCall, heq] using hcall'
  refine { h with last := ?_, waiting := ?_, waiting_unique := ?_ }
  · intro hnone g hg
    rcases h.last hnone g hg with hclosed | ⟨call', hcall'⟩
    · exact .inl hclosed
    by_cases heq : call' = call
    · subst heq
      refine (htaken g hcall').symm.imp_right fun hpos => ⟨call', ?_⟩
      simpa [Supervisor.setCall] using hpos
    · exact .inr ⟨call', by simpa [Supervisor.setCall, heq] using hcall'⟩
  · exact fun call' waitFor g hcall' => h.waiting call' waitFor g (hwaiting call' waitFor g hcall')
  · intro c c' w w' g hc hc'
    exact h.waiting_unique c c' w w' g (hwaiting c w g hc) (hwaiting c' w' g hc')

lemma Chained.create
    (hwait : waitFor = none ∧ (∀ g < s.created, (s.groups g).closed = true) ∨
      ∃ g, waitFor = some g ∧ g + 1 = s.created) :
    Chained ({ s with
      cancel := some s.created
      done := some s.created
      created := s.created + 1 }.setCall call (.waiting waitFor s.created)) := by
  have hcases : ∀ call' w g,
      update s.calls call (.waiting waitFor s.created) call' = .waiting w g →
        call' = call ∧ w = waitFor ∧ g = s.created ∨ s.calls call' = .waiting w g := by
    intro call' w g hcall'
    by_cases heq : call' = call
    · subst heq
      rw [update_self] at hcall'
      cases hcall'
      exact .inl ⟨rfl, rfl, rfl⟩
    · rw [update_of_ne heq] at hcall'
      exact .inr hcall'
  refine { h with fields := rfl, current := ?_, last := ?_, waiting := ?_, waiting_unique := ?_,
                  spawned := ?_ }
  · rintro g ⟨⟩
    rfl
  · intro hnone
    cases hnone
  · intro call' w g hcall'
    rcases hcases call' w g hcall' with ⟨-, rfl, rfl⟩ | hold
    · refine ⟨Nat.lt_succ_self _, ?_, hwait⟩
      exact Bool.eq_false_iff.mpr fun hspawned => Nat.lt_irrefl _ (h.spawned _ hspawned)
    · obtain ⟨hlt, hrest⟩ := h.waiting call' w g hold
      exact ⟨Nat.lt_succ_of_lt hlt, hrest⟩
  · intro c c' w w' g hc hc'
    rcases hcases c w g hc with ⟨rfl, -, rfl⟩ | hold
    · rcases hcases c' w' _ hc' with ⟨rfl, -⟩ | hold'
      · rfl
      · exact absurd (h.waiting c' w' _ hold').1 (Nat.lt_irrefl _)
    · rcases hcases c' w' g hc' with ⟨rfl, -, rfl⟩ | hold'
      · exact absurd (h.waiting c w _ hold).1 (Nat.lt_irrefl _)
      · exact h.waiting_unique c c' w w' g hold hold'
  · exact fun g hg => Nat.lt_succ_of_lt (h.spawned g hg)

lemma Chained.lockStart (hcall : s.calls call = .startLeading)
    (hsettled : StartsSettled s (.lock call)) : Chained (s.lockStart call) := by
  unfold Supervisor.lockStart
  split
  · refine h.setCall (fun _ _ => by simp) fun g hg => ?_
    rw [hcall] at hg
    cases hg
  · cases hcancel : s.cancel with
    | none =>
      refine h.create (.inl ⟨rfl, h.all_closed fun g hg => ?_⟩)
      rcases h.last hcancel g hg with hclosed | ⟨stopping, htaken⟩
      · exact hclosed
      · exact hsettled hcall hcancel stopping g htaken
    | some k =>
      refine (h.cancelContext (some k)).create (.inr ⟨k, ?_, h.current k hcancel⟩)
      exact h.fields.trans hcancel

lemma Chained.lockStop (hcall : s.calls call = .stopLeading) : Chained (s.lockStop call) := by
  have htaken : Chained (s.setCall call (.cancelling s.cancel s.done)) := by
    refine h.setCall (fun _ _ => by simp) fun g hg => ?_
    rw [hcall] at hg
    cases hg
  refine htaken.clear fun g hg => ⟨call, ?_⟩
  have hdone : s.done = some g := h.fields.trans hg
  simp [Supervisor.setCall, takenGroup, hdone]

lemma Chained.step (hsettled : StartsSettled s action)
    (hstep : s.next action = some t) : Chained t := by
  cases action with
  | lock call =>
    cases hcall : s.calls call with
    | startLeading =>
      simp only [Supervisor.next, hcall, some.injEq] at hstep
      exact hstep ▸ h.lockStart hcall hsettled
    | stopLeading =>
      simp only [Supervisor.next, hcall, some.injEq] at hstep
      exact hstep ▸ h.lockStop hcall
    | _ => simp [Supervisor.next, hcall] at hstep
  | cancel call =>
    cases hcall : s.calls call with
    | cancelling cancel done =>
      simp only [Supervisor.next, hcall, some.injEq] at hstep
      subst hstep
      refine (h.cancelContext cancel).setCall (fun _ _ => by simp) fun g hg => .inl ?_
      have hcalls : (s.cancelContext cancel).calls = s.calls := by
        unfold Supervisor.cancelContext
        split <;> rfl
      rw [hcalls, hcall] at hg
      exact hg
    | _ => simp [Supervisor.next, hcall] at hstep
  | await call =>
    cases hcall : s.calls call with
    | waiting waitFor k =>
      simp only [Supervisor.next, hcall, ite_none_right_eq_some, some.injEq] at hstep
      obtain ⟨hreceived, rfl⟩ := hstep
      obtain ⟨hk, -, hwait⟩ := h.waiting call waitFor k hcall
      have hreturned : Chained (s.setCall call .returned) := by
        refine h.setCall (fun _ _ => by simp) fun g hg => ?_
        rw [hcall] at hg
        cases hg
      refine hreturned.spawn hk ?_ ?_
      · rcases hwait with ⟨-, hall⟩ | ⟨w, rfl, rfl⟩
        · exact hall
        · have hclosed : (s.groups w).closed = true := hreceived
          intro g hg
          by_cases hgw : g = w
          · rw [hgw]
            exact hclosed
          · exact h.ordered g w (by omega) (h.closed w hclosed).1
      · intro call' waitFor' hcall'
        by_cases heq : call' = call
        · subst heq
          simp [Supervisor.setCall] at hcall'
        · simp only [Supervisor.setCall, update_of_ne heq] at hcall'
          exact heq (h.waiting_unique call' call waitFor' waitFor k hcall' hcall)
    | draining done =>
      simp only [Supervisor.next, hcall, ite_none_right_eq_some, some.injEq] at hstep
      obtain ⟨hreceived, rfl⟩ := hstep
      refine h.setCall (fun _ _ => by simp) fun g hg => .inr ?_
      rw [hcall] at hg
      obtain rfl : done = some g := hg
      exact hreceived
    | _ => simp [Supervisor.next, hcall] at hstep
  | startLoop k loop =>
    simp only [Supervisor.next, ite_none_right_eq_some, some.injEq,
      Bool.and_eq_true, decide_eq_true_eq] at hstep
    obtain ⟨⟨hspawned, hready⟩, rfl⟩ := hstep
    have hopen : ¬(s.groups k).closed = true := by
      intro hclosed
      rw [(h.closed k hclosed).2 loop] at hready
      cases hready
    refine h.setGroup rfl (fun hclosed => hclosed) (fun hclosed => absurd hclosed hopen) ?_
    intro hidle
    rw [hspawned] at hidle
    cases hidle
  | returnLoop k loop =>
    simp only [Supervisor.next, ite_none_right_eq_some, some.injEq] at hstep
    obtain ⟨hrunning, rfl⟩ := hstep
    have hopen : ¬(s.groups k).closed = true := by
      intro hclosed
      rw [(h.closed k hclosed).2 loop] at hrunning
      cases hrunning
    refine h.setGroup rfl (fun hclosed => hclosed) (fun hclosed => absurd hclosed hopen) ?_
    intro hidle
    rw [h.idle k hidle loop] at hrunning
    cases hrunning
  | closeDone k =>
    simp only [Supervisor.next, ite_none_right_eq_some, some.injEq,
      Bool.and_eq_true, decide_eq_true_eq] at hstep
    obtain ⟨⟨hspawned, hreturned⟩, rfl⟩ := hstep
    exact h.setGroup rfl (fun _ => rfl) (fun _ => ⟨hspawned, hreturned⟩) (h.idle k)

end

/-- Whatever the order of the steps, loops of two `StartLeading` calls never run at the same time,
if no call starts while a `StopLeading` call still waits. -/
theorem leader_terms_disjoint {history : List (Supervisor n ι × SupervisorAction n ι)}
    (hrun : SupervisorRun history s) (hsettled : ∀ e ∈ history, StartsSettled e.1 e.2)
    {g k : Nat} (hlt : g < k) : ¬(RunsLoop s g ∧ RunsLoop s k) := by
  have hchained : Chained s := by
    refine hrun.invariant_of hsettled ?_ fun _ _ _ h hC hs => h.step hC hs
    rintro s ⟨calls, hcalls, rfl⟩
    have hnowait : ∀ call waitFor g, calls call ≠ .waiting waitFor g := by
      intro call waitFor g
      rcases hcalls call with h | h
      · rw [h]
        simp
      · rw [h]
        simp
    exact
      { fields := rfl
        current := fun _ h => by cases h
        last := fun _ _ h => by cases h
        ordered := fun _ _ _ h => by cases h
        waiting := fun call waitFor g h => absurd h (hnowait call waitFor g)
        waiting_unique := fun call _ waitFor _ g h => absurd h (hnowait call waitFor g)
        spawned := fun _ h => by cases h
        closed := fun _ h => by cases h
        idle := fun _ _ _ => rfl }
  exact hchained.not_both hlt

end LeaderTerms

def twoStarts : Supervisor 1 (Fin 3) where
  calls
    | 0 => .startLeading
    | 1 => .stopLeading
    | 2 => .startLeading

lemma exists_of_replay_twoStarts
    (h : (replay Supervisor.next id twoStarts actions).any check = true) :
    ∃ history s, SupervisorRun history s ∧ history.map Prod.snd = actions.map id ∧
      check (history, s) = true := by
  refine exists_run_of_replay ⟨twoStarts.calls, fun call => ?_, rfl⟩ (fun _ _ _ h => h) h
  match call with
  | 0 => exact .inl rfl
  | 1 => exact .inr rfl
  | 2 => exact .inl rfl

def startsSettled {n : Nat} {ι : Type} [Fintype ι] (s : Supervisor n ι) :
    SupervisorAction n ι → Bool
  | .lock _ => decide (∀ stopping, s.received (takenGroup (s.calls stopping)) = true)
  | _ => true

lemma startsSettled_sound {n : Nat} {ι : Type} [Fintype ι] {s : Supervisor n ι}
    {action : SupervisorAction n ι} (h : startsSettled s action = true) :
    StartsSettled s action := by
  cases action with
  | lock call =>
    intro _ _ stopping group htaken
    have hreceived := of_decide_eq_true h stopping
    rw [htaken] at hreceived
    exact hreceived
  | _ => trivial

/-- The second start comes after the stop has waited: its loop runs, the first one does not. -/
theorem disjoint_afterStop :
    ∃ history, ∃ s : Supervisor 1 (Fin 3), SupervisorRun history s ∧
      (∀ e ∈ history, StartsSettled e.1 e.2) ∧ RunsLoop s 1 ∧ ¬(RunsLoop s 0 ∧ RunsLoop s 1) := by
  have hrun : (replay Supervisor.next id twoStarts
      [.startLoop 1 0, .await 2, .lock 2, .await 1, .closeDone 0, .returnLoop 0 0, .cancel 1,
        .lock 1, .startLoop 0 0, .await 0, .lock 0]).any (fun run =>
          (run.1.all fun e => startsSettled e.1 e.2) &&
            (run.2.groups 1).loops 0 = .running) = true := by decide
  obtain ⟨history, s, h, -, hcheck⟩ := exists_of_replay_twoStarts hrun
  rw [Bool.and_eq_true] at hcheck
  have hsettled : ∀ e ∈ history, StartsSettled e.1 e.2 :=
    fun e he => startsSettled_sound (List.all_eq_true.mp hcheck.1 e he)
  exact ⟨history, s, h, hsettled, ⟨0, of_decide_eq_true hcheck.2⟩,
    leader_terms_disjoint h hsettled Nat.zero_lt_one⟩

/-- The second start comes between the mutex section of the stop and its `cancel()`: both loops
run. -/
theorem overlap_betweenStopAndWait :
    ∃ history, ∃ s : Supervisor 1 (Fin 3), SupervisorRun history s ∧ RunsLoop s 0 ∧ RunsLoop s 1 := by
  have hrun : (replay Supervisor.next id twoStarts
      [.startLoop 1 0, .await 2, .lock 2, .lock 1, .startLoop 0 0, .await 0, .lock 0]).any
        (fun run => (run.2.groups 0).loops 0 = .running &&
          (run.2.groups 1).loops 0 = .running) = true := by decide
  obtain ⟨history, s, h, -, hcheck⟩ := exists_of_replay_twoStarts hrun
  rw [Bool.and_eq_true] at hcheck
  exact ⟨history, s, h, ⟨0, of_decide_eq_true hcheck.1⟩, ⟨0, of_decide_eq_true hcheck.2⟩⟩

end AstraStorage.Proofs
