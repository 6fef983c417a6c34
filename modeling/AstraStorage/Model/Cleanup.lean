import AstraStorage.Model.Repairer

/-!
# The cleanup controller and the task consumers

`internal/mds/coordinator/cleanup.go`, and what the consumers of `internal/mds/mq` do with a
task that is delivered to them.
-/

namespace AstraStorage.Coordinator
open Lib Store Allocator

/-- With a producer the controller publishes tasks and does not delete itself. -/
structure CleanupController where
  retryBackoff : Int64
  maxPlansPerRun : Int
  taskProducer : Bool := false
  retryBackoff_pos : 0 < retryBackoff.toInt
  maxPlansPerRun_pos : 0 < maxPlansPerRun

namespace CleanupController

variable (c : CleanupController)

/-- The writes that remove the source replica and end the plan. -/
def finishWrites (plan : ReplicaPlan) (now : Time) : List Write :=
  [.removeChunkReplica { id := plan.chunkID } plan.sourceNodeID now,
   .updateReplicaPlan
    { id := plan.id, state := some .done, completedAt := some now, updatedAt := now }]

/-- The source is lost: only the records are changed. -/
def purgeLostReplicaMetadata (plan : ReplicaPlan) (now : Time) : CoordinatorM Unit :=
  repo (.inTx (finishWrites plan now))

/-- The bytes are deleted first and the records afterwards. -/
def deleteSourceReplica (plan : ReplicaPlan) (now : Time) : CoordinatorM Unit := do
  let sourceNode ← repo (.getNode plan.sourceNodeID)
  let status ← fallible (step (.deleteReplica sourceNode plan.chunkID)) .outside
  if status ≠ 204 ∧ status ≠ 200 then
    throw (.own "cleanup delete source replica returned status %d" [.number (Int64.ofNat status)])
  else repo (.inTx (finishWrites plan now))

/-- A failed plan is kept and tried again after the backoff. -/
def failOrRetryPlan (plan : ReplicaPlan) (err : CoordinatorError) (now : Time) :
    CoordinatorM Unit :=
  repo (.write (.updateReplicaPlan
    { id := plan.id
      retryCount := some (plan.retryCount + 1)
      nextRetryAt := some (now + c.retryBackoff.toInt)
      lastErrorCode := some "cleanup_failed"
      lastErrorMessage := some err.text
      updatedAt := now }))

/-- Deleting the source replica, where a failure is only noted in the plan. -/
def deleteOrRetry (plan : ReplicaPlan) (now : Time) : CoordinatorM Unit := do
  match ← Prog.attempt (deleteSourceReplica plan now) with
  | .ok _ => return ()
  | .error err => c.failOrRetryPlan plan err now

/-- A plan is finished only once its target has a ready replica. -/
def finalizeCompletedPlan (plan : ReplicaPlan) (now : Time) : CoordinatorM Unit := do
  let chunk ← repo (.getChunk { id := plan.chunkID })
  if !(replicaOn chunk.replicas plan.targetNodeID).any (·.state = .ready) then return ()
  else if c.taskProducer then
    if plan.state = .cleanupReady then return ()
    else
      match ← Prog.attempt (publish (.cleanup (newCleanupTask plan))) with
      | .error err => c.failOrRetryPlan plan err now
      | .ok _ =>
        repo (.write (.updateReplicaPlan
          { id := plan.id, state := some .cleanupReady, updatedAt := now }))
  else
    match plan.type with
    | .failover => purgeLostReplicaMetadata plan now
    | .rebalance => c.deleteOrRetry plan now
    | _ => return ()

/-- The plans that a run examines. -/
def examined : ReplicaPlanFilter :=
  { types := [.failover, .rebalance]
    states := [.materialized, .copyReady, .cleanupReady]
    limit := c.maxPlansPerRun }

/-- One run over at most `maxPlansPerRun` open plans. -/
def cleanupOnce : CoordinatorM Unit := do
  let now ← timeNow
  let plans ← repo (.listReplicaPlans c.examined)
  plans.forM fun plan => c.finalizeCompletedPlan plan now

/-- The text of a plan type, as error messages print it. -/
def typeText : ReplicaPlanType → String
  | .failover => "failover"
  | .rebalance => "rebalance"
  | .cleanup => "cleanup"
  | .other text => text

/-- A cleanup task is carried out without another look at the target replica. -/
def executeCleanup (task : CleanupTask) : CoordinatorM Unit := do
  let plan ← repo (.getReplicaPlan task.planID)
  let now ← timeNow
  match plan.type with
  | .failover => purgeLostReplicaMetadata plan now
  | .rebalance => c.deleteOrRetry plan now
  | _ => throw (.own "cleanup controller: unsupported replica plan type %q"
      [.text (typeText plan.type)])

end CleanupController

/-- The handlers of the consumers for the four kinds of tasks. -/
def handle (r : PendingReplicaRepairer) (c : CleanupController) : Task → CoordinatorM Unit
  | .replicaRepair task => r.executeReplicaRepair task
  | .cleanup task => c.executeCleanup task
  | .rebalance task => r.executeReplicaPlanCopy task.planID
  | .failover task => r.executeReplicaPlanCopy task.planID

/-- A delivery. A task whose handler failed goes to the retry queue or, after the last attempt,
to the dead-letter queue. That a consumer's `Handle` skips a task whose idempotency key is done is
left out here; `TaskQueue` has it. -/
def deliver (r : PendingReplicaRepairer) (c : CleanupController) (task : Task) :
    CoordinatorM Unit := do
  step (.receive task)
  handle r c task
  step (.acknowledge task)

/-- The background loops, each with a run that its ticker starts. -/
inductive Controller where
  | failover (f : FailoverPlanner)
  | rebalance (r : RebalancePlanner)
  | repair (r : PendingReplicaRepairer)
  | cleanup (c : CleanupController)

/-- One run of a controller. -/
def Controller.program : Controller → CoordinatorM Unit
  | .failover f => f.planOnce
  | .rebalance r => r.planOnce
  | .repair r => r.repairOnce
  | .cleanup c => c.cleanupOnce

/-- What may go on at the same time: runs of controllers, deliveries, heartbeats. -/
inductive Activity where
  | controller (run : Controller)
  | delivery (r : PendingReplicaRepairer) (c : CleanupController) (task : Task)
  | heartbeat (now : Time) (req : Service.HeartbeatNodeRequest)

/-- What an activity executes. -/
def Activity.program : Activity → CoordinatorM Unit
  | .controller run => run.program
  | .delivery r c task => deliver r c task
  | .heartbeat now req => step (.service now (.heartbeatNode req))

abbrev ControllerPool (ι : Type) := SystemPool ι (Except CoordinatorError Unit)

/-- The steps of the activities interleave in any order, starting in `w`. -/
abbrev ControllerRun {ι : Type} [DecidableEq ι] (activities : ι → Activity) (w : World) :
    List (ControllerPool ι × (ι × AtomicOp)) → ControllerPool ι → Prop :=
  SystemRun (fun i => (activities i).program.run) w

/-! ### Whole runs -/

/-- Calls on the service and whole runs of controllers, one after the other. -/
inductive RoundAction where
  | service (action : Service.Action)
  | controller (run : Controller)

/-- A call of the service, or a whole run of a controller. -/
inductive RoundStep : World → RoundAction → World → Prop
  | service {w : World} {action : Service.Action} {s : MemoryState}
      (h : Service.Step w.store action s) : RoundStep w (.service action) { w with store := s }
  | controller {w w' : World} {run : Controller} {r : Except CoordinatorError Unit}
      (h : run.program.run.Runs coordinatorSemantics w r w') : RoundStep w (.controller run) w'

/-- A run of calls and controllers that starts with the root directory alone. -/
abbrev RoundRun (history : List (World × RoundAction)) (w : World) : Prop :=
  Run (fun w => ∃ s, Service.Bootstrapped s ∧ w = { store := s }) RoundStep history w

/-- A call, a run of a controller, or a task that is carried out. A task may come at any time and
more than once. -/
inductive AtomicAction where
  | round (action : RoundAction)
  | task (r : PendingReplicaRepairer) (c : CleanupController) (task : Task)

/-- A round, or a task handled without interruption. -/
inductive AtomicStep : World → AtomicAction → World → Prop
  | round {w w' : World} {action : RoundAction} (h : RoundStep w action w') :
      AtomicStep w (.round action) w'
  | task {w w' : World} {r : PendingReplicaRepairer} {c : CleanupController} {task : Task}
      {result : Except CoordinatorError Unit}
      (h : (handle r c task).run.Runs coordinatorSemantics w result w') :
      AtomicStep w (.task r c task) w'

/-- Calls, controllers and tasks, one after the other, starting with the root directory alone. -/
abbrev AtomicRun (history : List (World × AtomicAction)) (w : World) : Prop :=
  Run (fun w => ∃ s, Service.Bootstrapped s ∧ w = { store := s }) AtomicStep history w

/-- A whole run of an activity, with the environments that it may meet. -/
structure ActivityAction where
  activity : Activity
  environments : Environment → Prop

/-- A whole activity in one of the environments it may meet. -/
inductive ActivityStep : World → ActivityAction → World → Prop
  | run {w w' : World} {action : ActivityAction} {r : Except CoordinatorError Unit}
      (h : action.activity.program.run.Runs (semanticsIn action.environments) w r w') :
      ActivityStep w action w'

/-- Whole runs of activities in any order, from a repository without plans and empty queues. -/
abbrev ActivityRun (history : List (World × ActivityAction)) (w : World) : Prop :=
  Run (fun w => w.store.replicaPlans = ∅ ∧ w.tasks = []) ActivityStep history w

end AstraStorage.Coordinator
