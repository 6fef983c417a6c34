import AstraStorage.Lib.Programs
import AstraStorage.Model.Store

/-!
# The in-memory repository: transactions

`internal/mds/store/memory_tx.go`. `BeginTx`, `Commit` and every direct repository call hold
the repository's lock while they run and are the atomic steps here. What a transaction does in
between happens on its own copy, which no one else sees.
-/

namespace AstraStorage.Store
open Lib

/-- `memoryTx`: the transaction's copy of the state, and whether it has ended. -/
structure MemoryTx where
  state : MemoryState
  closed : Bool := false

/-- The steps of the memory repository under its mutex. -/
inductive RepositoryOp where
  | beginTx
  | commit (tx : MemoryTx)
  | call (x : StoreM Unit)

def repositorySteps : Interface where
  Op := RepositoryOp
  Reply
    | .beginTx => MemoryTx
    | .commit _ => Except Fault Unit
    | .call _ => Except Fault Unit

/-- The reply to an atomic step and the state that it leaves. `Commit` puts the copy in the
place of the whole state and compares nothing. -/
def RepositoryOp.run : (o : RepositoryOp) → MemoryState → repositorySteps.Reply o × MemoryState
  | .beginTx, s => ({ state := s }, s)
  | .commit tx, s =>
    if tx.closed then (.error (.error ⟨.conflict, "", []⟩), s) else (.ok (), tx.state)
  | .call x, s =>
    match x s with
    | .ok _ s' => (.ok (), s')
    | .error e s' => (.error e, s')

def repositorySemantics : Semantics repositorySteps MemoryState :=
  fun o s r t => RepositoryOp.run o s = (r, t)

/-- `InTx` as its two atomic steps. `Rollback` only gives up the copy. -/
def InTx (fn : StoreM Unit) : Prog repositorySteps (Except Fault Unit) := do
  let tx ← Prog.perform (I := repositorySteps) .beginTx
  match fn tx.state with
  | .ok _ state => Prog.perform (I := repositorySteps) (.commit { tx with state := state })
  | .error e _ => return .error e

/-- What a client of the repository runs: a transaction or one call outside of any. -/
inductive Job where
  | tx (fn : StoreM Unit)
  | call (x : StoreM Unit)

/-- A transaction takes two steps and a single call one. -/
def Job.program : Job → Prog repositorySteps (Except Fault Unit)
  | .tx fn => InTx fn
  | .call x => Prog.perform (I := repositorySteps) (.call x)

/-- The job when nothing else runs. -/
def Job.alone : Job → StoreM Unit
  | .tx fn => inTx fn
  | .call x => x

end AstraStorage.Store
