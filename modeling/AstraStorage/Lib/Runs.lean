import Mathlib.Logic.Basic

/-!
# Runs of a transition system

A run is recorded with the state in which each action was taken, most recent first. What
holds at the start and is kept by every step holds after every run; the step rule may use
a condition that every recorded step meets.
-/

namespace AstraStorage.Lib

variable {σ α β : Type}

/-- `Run init step tr s`: the steps recorded in `tr` lead from an initial state to `s`. -/
inductive Run (init : σ → Prop) (step : σ → α → σ → Prop) : List (σ × α) → σ → Prop
  | start {s : σ} (h : init s) : Run init step [] s
  | next {tr : List (σ × α)} {s t : σ} {a : α} (h : Run init step tr s) (hs : step s a t) :
      Run init step ((s, a) :: tr) t

namespace Run

variable {init : σ → Prop} {step : σ → α → σ → Prop} {tr : List (σ × α)} {s : σ}

section

variable (hrun : Run init step tr s)
include hrun

/-- Invariant rule for runs whose steps all meet the condition `C`. -/
theorem invariant_of {I : σ → Prop} {C : σ → α → Prop} (hC : ∀ p ∈ tr, C p.1 p.2)
    (hinit : ∀ s, init s → I s) (hstep : ∀ s a t, I s → C s a → step s a t → I t) : I s := by
  induction hrun with
  | start h => exact hinit _ h
  | next _ hs ih =>
    have hI := ih (fun p hp => hC p (List.mem_cons_of_mem _ hp))
    exact hstep _ _ _ hI (hC _ List.mem_cons_self) hs

theorem invariant {I : σ → Prop} (hinit : ∀ s, init s → I s)
    (hstep : ∀ s a t, I s → step s a t → I t) : I s :=
  hrun.invariant_of (C := fun _ _ => True) (fun _ _ => trivial) hinit
    (fun s a t hI _ hs => hstep s a t hI hs)

/-- Invariant rule for properties that speak about the recorded history as well. -/
theorem invariant_history {I : List (σ × α) → σ → Prop} (hinit : ∀ s, init s → I [] s)
    (hstep : ∀ tr s a t, Run init step tr s → I tr s → step s a t → I ((s, a) :: tr) t) :
    I tr s := by
  induction hrun with
  | start h => exact hinit _ h
  | next h hs ih => exact hstep _ _ _ _ h ih hs

end

end Run

/-- The run that `next` makes of the commands, most recent first, if none of them fails. -/
def replay (next : σ → β → Option σ) (action : β → α) (start : σ) :
    List β → Option (List (σ × α) × σ)
  | [] => some ([], start)
  | b :: commands => do
    let (tr, s) ← replay next action start commands
    let t ← next s b
    return ((s, action b) :: tr, t)

section Replay

variable {init : σ → Prop} {step : σ → α → σ → Prop} {next : σ → β → Option σ} {action : β → α}
  {start t : σ} {commands : List β} {tr : List (σ × α)} (hinit : init start)
  (hnext : ∀ s b t, next s b = some t → step s (action b) t)
include hinit hnext

theorem run_of_replay (h : replay next action start commands = some (tr, t)) :
    Run init step tr t ∧ tr.map Prod.snd = commands.map action := by
  induction commands generalizing tr t with
  | nil =>
    cases h
    exact ⟨.start hinit, rfl⟩
  | cons b commands ih =>
    obtain ⟨⟨tr', s⟩, hbefore, h⟩ := Option.bind_eq_some_iff.mp h
    obtain ⟨t', ht, h⟩ := Option.bind_eq_some_iff.mp h
    cases h
    obtain ⟨hrun, hactions⟩ := ih hbefore
    refine ⟨.next hrun (hnext s b _ ht), ?_⟩
    rw [List.map_cons, List.map_cons, hactions]

/-- A replay that passes a check is a run that does. -/
theorem exists_run_of_replay (h : (replay next action start commands).any check = true) :
    ∃ tr t, Run init step tr t ∧ tr.map Prod.snd = commands.map action ∧ check (tr, t) = true := by
  obtain ⟨⟨tr, t⟩, hreplay, hcheck⟩ := (Option.any_eq_true ..).mp h
  obtain ⟨hrun, hactions⟩ := run_of_replay hinit hnext hreplay
  exact ⟨tr, t, hrun, hactions, hcheck⟩

end Replay

end AstraStorage.Lib
