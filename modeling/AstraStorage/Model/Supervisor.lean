import AstraStorage.Lib.Runs
import Mathlib.Data.Fintype.Basic

/-!
# The supervisor of the leader's loops

`internal/mds/coordinator/supervisor.go`. Any number of `StartLeading` and `StopLeading` calls run
at the same time, in single steps.
-/

namespace AstraStorage.Coordinator
open Lib

/-- The goroutine of one controller. -/
inductive LoopState where
  | ready
  | running
  | returned
  deriving DecidableEq

/-- What one `StartLeading` call creates: the context and the done channel of its goroutine, and
the loops that the goroutine runs. -/
structure LoopGroup (n : Nat) where
  cancelled : Bool := false
  spawned : Bool := false
  loops : Fin n → LoopState := fun _ => .ready
  closed : Bool := false

/-- Where a call is. A group stands for the cancel function of its context and for its done
channel. -/
inductive LeadingCall where
  | startLeading
  | stopLeading
  /-- `StartLeading` after its mutex section, with `waitFor` and the group it has created. -/
  | waiting (waitFor : Option Nat) (group : Nat)
  /-- `StopLeading` after its mutex section, before it calls `cancel`. -/
  | cancelling (cancel done : Option Nat)
  /-- `StopLeading` before it has received from `done`. -/
  | draining (done : Option Nat)
  | returned
  deriving DecidableEq

/-- The fields of the supervisor, the groups `0, …, created - 1`, and the calls. -/
structure Supervisor (n : Nat) (ι : Type) where
  cancel : Option Nat := none
  done : Option Nat := none
  created : Nat := 0
  groups : Nat → LoopGroup n := fun _ => {}
  calls : ι → LeadingCall

/-- The steps of calls and goroutines. -/
inductive SupervisorAction (n : Nat) (ι : Type) where
  /-- The mutex section of a call. -/
  | lock (call : ι)
  /-- The `cancel()` of `StopLeading` after its mutex section. -/
  | cancel (call : ι)
  /-- The receive from the done channel, after which the call returns or starts its goroutine. -/
  | await (call : ι)
  | startLoop (group : Nat) (loop : Fin n)
  | returnLoop (group : Nat) (loop : Fin n)
  /-- The goroutine's wait for its loops, and `close(done)`. -/
  | closeDone (group : Nat)

namespace Supervisor

variable {n : Nat} {ι : Type} [DecidableEq ι] (s : Supervisor n ι)

def setCall (call : ι) (position : LeadingCall) : Supervisor n ι :=
  { s with calls := Function.update s.calls call position }

def setGroup (group : Nat) (g : LoopGroup n) : Supervisor n ι :=
  { s with groups := Function.update s.groups group g }

/-- `cancel()` of a context. -/
def cancelContext : Option Nat → Supervisor n ι
  | none => s
  | some group => s.setGroup group { s.groups group with cancelled := true }

/-- The mutex section of `StartLeading`. -/
def lockStart (call : ι) : Supervisor n ι :=
  if n = 0 then s.setCall call .returned
  else
    let waitFor := if s.cancel.isSome then s.done else none
    { s.cancelContext s.cancel with
      cancel := some s.created
      done := some s.created
      created := s.created + 1 }.setCall call (.waiting waitFor s.created)

/-- The mutex section of `StopLeading`. -/
def lockStop (call : ι) : Supervisor n ι :=
  { s with cancel := none, done := none }.setCall call (.cancelling s.cancel s.done)

/-- Whether a receive from the channel, if there is one, goes through. -/
def received (done : Option Nat) : Bool := done.all fun group => (s.groups group).closed

def next : SupervisorAction n ι → Option (Supervisor n ι)
  | .lock call =>
    match s.calls call with
    | .startLeading => some (s.lockStart call)
    | .stopLeading => some (s.lockStop call)
    | _ => none
  | .cancel call =>
    match s.calls call with
    | .cancelling cancel done => some ((s.cancelContext cancel).setCall call (.draining done))
    | _ => none
  | .await call =>
    match s.calls call with
    | .waiting waitFor group =>
      if s.received waitFor then
        some ((s.setGroup group { s.groups group with spawned := true }).setCall call .returned)
      else none
    | .draining done => if s.received done then some (s.setCall call .returned) else none
    | _ => none
  | .startLoop group loop =>
    let g := s.groups group
    if g.spawned && g.loops loop = .ready then
      some (s.setGroup group { g with loops := Function.update g.loops loop .running })
    else none
  | .returnLoop group loop =>
    let g := s.groups group
    if g.loops loop = .running then
      some (s.setGroup group { g with loops := Function.update g.loops loop .returned })
    else none
  | .closeDone group =>
    let g := s.groups group
    if g.spawned && decide (∀ loop, g.loops loop = .returned) then
      some (s.setGroup group { g with closed := true })
    else none

end Supervisor

/-- The steps of the calls and loops of a new supervisor, in any order. -/
abbrev SupervisorRun {n : Nat} {ι : Type} [DecidableEq ι] :
    List (Supervisor n ι × SupervisorAction n ι) → Supervisor n ι → Prop :=
  Run (fun s => ∃ calls : ι → LeadingCall,
      (∀ call, calls call = .startLeading ∨ calls call = .stopLeading) ∧ s = { calls := calls })
    fun s action t => s.next action = some t

end AstraStorage.Coordinator
