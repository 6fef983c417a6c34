import AstraStorage.Model.Allocator
import AstraStorage.Model.Calls
import AstraStorage.Model.StorePlans
import AstraStorage.Model.Transactions

/-!
# What the background controllers can do

The controllers of `internal/mds/coordinator` and the consumers of `internal/mds/mq` are programs
of single steps: repository calls, looks at the clock, requests to datanodes, exchanges with the
broker, and the repairer's table of next attempts. The environment chooses the answers. Where
programs run at the same time, a transaction is not a single step but two.
-/

namespace AstraStorage.Coordinator
open Lib Store

/-! ### Calls on the repository -/

/-- The writes that controllers make through the repository. -/
inductive Write where
  | createReplicaPlan (plan : ReplicaPlan)
  | updateReplicaPlan (patch : ReplicaPlanPatch)
  | deleteReplicaPlan (id : ReplicaPlanID)
  | updateChunkReplicas (patch : ChunkReplicaPatch)
  | removeChunkReplica (selector : ChunkSelector) (nodeID : NodeID) (updatedAt : Time)

def Write.run : Write → StoreM Unit
  | .createReplicaPlan plan => Store.createReplicaPlan (some plan)
  | .updateReplicaPlan patch => Store.updateReplicaPlan patch
  | .deleteReplicaPlan id => Store.deleteReplicaPlan id
  | .updateChunkReplicas patch => Store.updateChunkReplicas patch
  | .removeChunkReplica selector nodeID updatedAt =>
    Store.removeChunkReplica selector nodeID updatedAt

/-- `inTx` stands for `InTx` with a callback that makes these writes and nothing else. -/
inductive RepositoryCall where
  | listNodes (filter : NodeFilter)
  | getNode (nodeID : NodeID)
  | getFile (selector : FileSelector)
  | listFiles (filter : FileFilter)
  | getChunk (selector : ChunkSelector)
  | listChunksByFile (fileID : FileID)
  | listChunksByNode (nodeID : NodeID)
  | getReplicaPlan (id : ReplicaPlanID)
  | listReplicaPlans (filter : ReplicaPlanFilter)
  | write (w : Write)
  | inTx (writes : List Write)

def RepositoryCall.Result : RepositoryCall → Type
  | .listNodes _ => List NodeInfo
  | .getNode _ => NodeInfo
  | .getFile _ => FileMetadata
  | .listFiles _ => List FileMetadata
  | .getChunk _ => ChunkMetadata
  | .listChunksByFile _ => List ChunkMetadata
  | .listChunksByNode _ => List ChunkMetadata
  | .getReplicaPlan _ => ReplicaPlan
  | .listReplicaPlans _ => List ReplicaPlan
  | .write _ => Unit
  | .inTx _ => Unit

def RepositoryCall.run : (call : RepositoryCall) → StoreM call.Result
  | .listNodes filter => Store.listNodes filter
  | .getNode nodeID => Store.getNode nodeID
  | .getFile selector => Store.getFile selector
  | .listFiles filter => Store.listFiles filter
  | .getChunk selector => Store.getChunk selector
  | .listChunksByFile fileID => Store.listChunksByFile fileID
  | .listChunksByNode nodeID => Store.listChunksByNode nodeID
  | .getReplicaPlan id => Store.getReplicaPlan id
  | .listReplicaPlans filter => Store.listReplicaPlans filter
  | .write w => w.run
  | .inTx writes => Store.inTx (writes.forM Write.run)

/-! ### Datanodes and tasks -/

structure ReplicaTarget where
  nodeID : NodeID
  address : String

structure ReplicateChunkRequest where
  chunkID : ChunkID
  targets : List ReplicaTarget

/-- What a source datanode reports for one target. -/
structure ReplicaWriteResult where
  nodeID : NodeID
  state : ReplicaState
  error : String := ""
  address : String := ""

structure ReplicaRepairTask where
  planID : String
  fileID : FileID
  chunkID : ChunkID
  sourceNodeID : NodeID
  targetNodeID : NodeID
  deriving DecidableEq

structure CleanupTask where
  planID : ReplicaPlanID
  fileID : FileID
  nodeID : NodeID
  reason : ReplicaPlanType
  deriving DecidableEq

structure RebalanceTask where
  planID : ReplicaPlanID
  sourceNodeID : NodeID
  targetNodeID : NodeID
  reason : String
  deriving DecidableEq

structure FailoverTask where
  planID : ReplicaPlanID
  nodeID : NodeID
  targetNodeID : NodeID
  reason : String
  deriving DecidableEq

/-- The tasks that controllers publish. -/
inductive Task where
  | replicaRepair (task : ReplicaRepairTask)
  | cleanup (task : CleanupTask)
  | rebalance (task : RebalanceTask)
  | failover (task : FailoverTask)
  deriving DecidableEq

/-- The plan of a repair is named after the chunk and its target. -/
def newReplicaRepairTask (chunkID : ChunkID) (fileID : FileID) (sourceNodeID targetNodeID : NodeID) :
    ReplicaRepairTask :=
  { planID := "repair-" ++ chunkID ++ "-" ++ targetNodeID
    fileID := fileID
    chunkID := chunkID
    sourceNodeID := sourceNodeID
    targetNodeID := targetNodeID }

/-- Cleanup removes the replica on the plan's source. -/
def newCleanupTask (plan : ReplicaPlan) : CleanupTask :=
  { planID := plan.id, fileID := plan.fileID, nodeID := plan.sourceNodeID, reason := plan.type }

def newRebalanceTask (plan : ReplicaPlan) : RebalanceTask :=
  { planID := plan.id
    sourceNodeID := plan.sourceNodeID
    targetNodeID := plan.targetNodeID
    reason := "rebalance_plan_materialized" }

def newFailoverTask (plan : ReplicaPlan) : FailoverTask :=
  { planID := plan.id
    nodeID := plan.sourceNodeID
    targetNodeID := plan.targetNodeID
    reason := "failover_plan_materialized" }

/-! ### Steps -/

/-- `deleteReplica` is the `DELETE` request for `/chunks/<chunkID>` at the node's address,
`receive` and `acknowledge` begin and end the delivery of a task, and `service` is a call of a
client or a datanode on the service. -/
inductive CoordinatorOp where
  | repo (call : RepositoryCall)
  | now
  | replicateChunk (address : String) (req : ReplicateChunkRequest)
  | deleteReplica (node : NodeInfo) (chunkID : ChunkID)
  | publish (task : Task)
  | receive (task : Task)
  | acknowledge (task : Task)
  | selectDueTargets (chunkID : ChunkID) (nodeIDs : List NodeID) (limit : Int) (now : Time)
  | deferTargets (chunkID : ChunkID) (nodeIDs : List NodeID) (retryAt : Time)
  | clearRetry (chunkID : ChunkID) (nodeID : NodeID)
  | service (now : Time) (call : Service.Call)

/-- The steps of the coordinator and what each is answered. -/
def coordinatorSteps : Interface where
  Op := CoordinatorOp
  Reply
    | .repo call => Except Fault call.Result
    | .now => Time
    | .replicateChunk .. => Except String (List ReplicaWriteResult)
    | .deleteReplica .. => Except String Nat
    | .publish _ => Except String Unit
    | .receive _ => Unit
    | .acknowledge _ => Unit
    | .selectDueTargets .. => List NodeID
    | .deferTargets .. => Unit
    | .clearRetry .. => Unit
    | .service .. => Unit

/-- The repository, the repairer's table of next attempts, and the tasks that are queued, wait
for a retry, are being handled or ended in the dead-letter queue. -/
structure World where
  store : MemoryState
  nextAttemptByKey : Table String Time := ∅
  tasks : List Task := []

/-- The key under which a target's next attempt is remembered. -/
def repairTargetKey (chunkID : ChunkID) (nodeID : NodeID) : String := chunkID ++ "::" ++ nodeID

/-- The targets without a later next attempt, as many as the limit allows; a negative limit is
never reached. -/
def dueTargets (nextAttemptByKey : Table String Time) (chunkID : ChunkID) (limit : Int)
    (now : Time) (nodeIDs : List NodeID) : List NodeID :=
  let due := nodeIDs.filter fun nodeID =>
    !(nextAttemptByKey.lookup (repairTargetKey chunkID nodeID)).any (· > now)
  if limit < 0 then due else due.take limit.toNat

/-- The clock, the datanodes and the broker. A task whose publishing failed may have been queued
all the same, and an acknowledgement may get lost, in which case the task is delivered again. -/
structure Environment where
  now : Time
  replicateChunk : String → ReplicateChunkRequest → Except String (List ReplicaWriteResult)
  deleteReplica : NodeInfo → ChunkID → Except String Nat
  publish : Task → Except String Unit
  queued : Task → Bool
  acknowledged : Task → Bool

/-- What a step answers and leaves; a task is received only if it is there. -/
def Environment.perform (env : Environment) :
    (o : CoordinatorOp) → World → Option (coordinatorSteps.Reply o × World)
  | .repo call, w =>
    match call.run w.store with
    | .ok a s => some (.ok a, { w with store := s })
    | .error e s => some (.error e, { w with store := s })
  | .now, w => some (env.now, w)
  | .replicateChunk address req, w => some (env.replicateChunk address req, w)
  | .deleteReplica node chunkID, w => some (env.deleteReplica node chunkID, w)
  | .publish task, w =>
    match env.publish task with
    | .ok _ => some (.ok (), { w with tasks := task :: w.tasks })
    | .error e =>
      some (.error e, if env.queued task then { w with tasks := task :: w.tasks } else w)
  | .receive task, w => if task ∈ w.tasks then some ((), w) else none
  | .acknowledge task, w =>
    some ((), if env.acknowledged task then { w with tasks := w.tasks.erase task } else w)
  | .selectDueTargets chunkID nodeIDs limit now, w =>
    some (dueTargets w.nextAttemptByKey chunkID limit now nodeIDs, w)
  | .deferTargets chunkID nodeIDs retryAt, w =>
    some ((), { w with nextAttemptByKey := nodeIDs.foldl (fun table nodeID =>
      table.insert (repairTargetKey chunkID nodeID) retryAt) w.nextAttemptByKey })
  | .clearRetry chunkID nodeID, w =>
    some ((), { w with nextAttemptByKey :=
      w.nextAttemptByKey.erase (repairTargetKey chunkID nodeID) })
  | .service now call, w => some ((), { w with store := call.exec now w.store })

/-- The steps in one environment. -/
def Environment.semantics (env : Environment) : Semantics coordinatorSteps World :=
  fun o w r w' => env.perform o w = some (r, w')

/-- The steps in an environment that may be another one at each step. -/
def coordinatorSemantics : Semantics coordinatorSteps World :=
  fun o w r w' => ∃ env : Environment, env.semantics o w r w'

/-- The steps in the environments of `envs`, which may be another one at each step. -/
def semanticsIn (envs : Environment → Prop) : Semantics coordinatorSteps World :=
  fun o w r w' => ∃ env, envs env ∧ env.semantics o w r w'

/-! ### Steps that nothing interrupts -/

/-- What a transaction does on its copy: writes of a controller, or a call on the service. -/
inductive Callback where
  | repo (writes : List Write)
  | service (now : Time) (call : Service.Call)

/-- The callback runs on the copy that `BeginTx` has taken. -/
def Callback.run : Callback → StoreM Unit
  | .repo writes => writes.forM Write.run
  | .service now call => call.run now

/-- The steps between which other activities may come. `InTx` has two of them, as in
`Store.InTx`: `BeginTx`, and `endTx`, which is `Commit` or, if the callback failed, `Rollback`. -/
inductive AtomicOp where
  | single (o : CoordinatorOp)
  | beginTx
  | endTx (tx : MemoryTx) (callback : Callback)

/-- The steps between which other activities may come. -/
def atomicSteps : Interface where
  Op := AtomicOp
  Reply
    | .single o => coordinatorSteps.Reply o
    | .beginTx => MemoryTx
    | .endTx .. => Except Fault Unit

/-- The end of a transaction writes its whole copy back. -/
def Environment.performAtomic (env : Environment) :
    (o : AtomicOp) → World → Option (atomicSteps.Reply o × World)
  | .single o, w => env.perform o w
  | .beginTx, w => some ((RepositoryOp.run .beginTx w.store).1, w)
  | .endTx tx callback, w =>
    match callback.run tx.state with
    | .ok _ state =>
      let committed := RepositoryOp.run (.commit { tx with state := state }) w.store
      some (committed.1, { w with store := committed.2 })
    | .error e _ => some (.error e, w)

/-- A step may get any answer that some environment gives. -/
def atomicSemantics : Semantics atomicSteps World :=
  fun o w r w' => ∃ env : Environment, env.performAtomic o w = some (r, w')

/-- `InTx` begins and ends a transaction; others may run in between. -/
def inTwoSteps (callback : Callback) : Prog atomicSteps (Except Fault Unit) := do
  let tx ← Prog.perform (I := atomicSteps) .beginTx
  Prog.perform (I := atomicSteps) (.endTx tx callback)

/-- A step as it is carried out. Every call on the service is one transaction. -/
def atomically : (o : CoordinatorOp) → Prog atomicSteps (coordinatorSteps.Reply o)
  | .repo (.inTx writes) => inTwoSteps (.repo writes)
  | .service now call => inTwoSteps (.service now call) >>= fun _ => pure ()
  | o => Prog.perform (I := atomicSteps) (.single o)

section SystemRun

variable {ι α : Type} [DecidableEq ι]

abbrev SystemPool (ι α : Type) := Pool ι atomicSteps α World

/-- The programs start in `w`, and their steps interleave in any order. -/
abbrev SystemRun (programs : ι → Prog coordinatorSteps α) (w : World) :
    List (SystemPool ι α × (ι × AtomicOp)) → SystemPool ι α → Prop :=
  Interleaving (fun _ => atomicSemantics) (fun i => (programs i).expand atomically, w)

end SystemRun

/-! ### Errors -/

def ErrorKind.text : ErrorKind → String
  | .notFound => "store: not found"
  | .alreadyExists => "store: already exists"
  | .invalidArgument => "store: invalid argument"
  | .conflict => "store: conflict"

/-- `fmt.Sprintf` for the verbs `%q`, `%s`, `%w`, `%v` and `%d`. -/
def sprintf : List Char → List ErrorArg → String
  | '%' :: 'q' :: format, .text s :: args => s.quote ++ sprintf format args
  | '%' :: 's' :: format, .text s :: args => s ++ sprintf format args
  | '%' :: 'w' :: format, .text s :: args => s ++ sprintf format args
  | '%' :: 'v' :: format, .text s :: args => s ++ sprintf format args
  | '%' :: 'd' :: format, .number n :: args => toString n ++ sprintf format args
  | c :: format, args => c.toString ++ sprintf format args
  | [], _ => ""

/-- An error of the repository, one from outside (a datanode, the broker, building a request),
or one that a controller makes itself. -/
inductive CoordinatorError where
  | store (fault : Fault)
  | outside (message : String)
  | own (format : String) (args : List ErrorArg)

/-- `err.Error()`. -/
def CoordinatorError.text : CoordinatorError → String
  | .store (.error e) =>
    if e.format = "" then ErrorKind.text e.kind
    else ErrorKind.text e.kind ++ ": " ++ sprintf e.format.toList e.args
  | .store _ => ""
  | .outside message => message
  | .own format args => sprintf format.toList args

/-! ### Programs -/

abbrev CoordinatorM := ExceptT CoordinatorError (Prog coordinatorSteps)

/-- One step and its answer. -/
def step (o : CoordinatorOp) : CoordinatorM (coordinatorSteps.Reply o) :=
  ExceptT.mk (Prog.op (I := coordinatorSteps) o fun r => pure (.ok r))

/-- A step that may fail, with the error that the caller gets to see. -/
def fallible {ε α : Type} (x : CoordinatorM (Except ε α)) (error : ε → CoordinatorError) :
    CoordinatorM α := do
  match ← x with
  | .ok a => return a
  | .error e => throw (error e)

/-- A repository call, whose error ends the program. -/
def repo (call : RepositoryCall) : CoordinatorM call.Result :=
  fallible (step (.repo call)) .store

def timeNow : CoordinatorM Time := step .now

/-- The error of the broker ends the program. -/
def publish (task : Task) : CoordinatorM Unit := fallible (step (.publish task)) .outside

/-- `t.Sub(u)`, which stays within the range of a duration. -/
def timeSub (t u : Time) : Int64 :=
  if t - u > Int64.maxValue.toInt then Int64.maxValue
  else if t - u < Int64.minValue.toInt then Int64.minValue
  else Int64.ofInt (t - u)

end AstraStorage.Coordinator
