import AstraStorage.Model.CoordinatorSteps

/-!
# The failover planner and the rebalance planner

`internal/mds/coordinator/failover.go` and `rebalance.go`. A planner finds a chunk and a target
node, writes a plan together with a pending replica on the target, and publishes a task for the
plan if it has a task producer.
-/

namespace AstraStorage.Coordinator
open Lib Store Allocator

/-- `len(chunk.Replicas)`. -/
def replicaLen (chunk : ChunkMetadata) : Int := (replicaEntries chunk.replicas).length

/-- The states of an open plan. -/
def activeReplicaPlanStates : List ReplicaPlanState :=
  [.planned, .materialized, .copyReady, .cleanupReady]

/-- The replica that waits on the target of a plan for its copy. -/
def pendingReplica (role : ReplicaRole) (chunk : ChunkMetadata) (nodeID : NodeID) (now : Time) :
    ReplicaMetadata where
  id := chunk.id ++ "-" ++ nodeID
  fileID := chunk.fileID
  chunkID := chunk.id
  nodeID := nodeID
  role := role
  state := .pending
  storedSize := 0
  createdAt := now
  updatedAt := now

/-- The patch that adds it to the chunk. -/
def pendingPatch (role : ReplicaRole) (plan : ReplicaPlan) (chunk : ChunkMetadata) (now : Time) :
    ChunkReplicaPatch where
  selector := { id := chunk.id }
  upserts := some ((∅ : Table NodeID ReplicaMetadata).insert plan.targetNodeID
    (pendingReplica role chunk plan.targetNodeID now))
  replicaCount := some (replicaLen chunk + 1)
  replicaPolicy := some { chunk.replicaPolicy with
    desiredReplicaCount :=
      if chunk.replicaPolicy.desiredReplicaCount ≤ 0 then defaultReplicaCount
      else chunk.replicaPolicy.desiredReplicaCount
    currentReplicaCount := replicaLen chunk + 1 }
  updatedAt := now

/-- The writes that create a plan and the pending replica on its target. -/
def pendingReplicaWrites (role : ReplicaRole) (plan : ReplicaPlan) (chunk : ChunkMetadata)
    (now : Time) : List Write :=
  [.createReplicaPlan plan, .updateChunkReplicas (pendingPatch role plan chunk now)]

/-- The patch that removes it again. -/
def rollbackPatch (chunk : ChunkMetadata) (targetNodeID : NodeID) (now : Time) :
    ChunkReplicaPatch where
  selector := { id := chunk.id }
  removeNodeIDs := [targetNodeID]
  replicaCount := some (replicaLen chunk)
  replicaPolicy := some { chunk.replicaPolicy with currentReplicaCount := replicaLen chunk }
  updatedAt := now

/-- The writes that take a planned replica and its plan back. -/
def rollbackWrites (planID : ReplicaPlanID) (chunk : ChunkMetadata) (targetNodeID : NodeID)
    (now : Time) : List Write :=
  [.updateChunkReplicas (rollbackPatch chunk targetNodeID now), .deleteReplicaPlan planID]

/-! ### Failover -/

/-- One run makes at most `maxPlansPerRun` plans. -/
structure FailoverPlanner where
  nodeTimeout : Int64
  maxPlansPerRun : Int
  taskProducer : Bool := false
  maxPlansPerRun_pos : 0 < maxPlansPerRun

/-- A budget that is not positive becomes 32. -/
def newFailoverPlanner (nodeTimeout : Int64) (maxPlansPerRun : Int) : FailoverPlanner where
  nodeTimeout := nodeTimeout
  maxPlansPerRun := if maxPlansPerRun ≤ 0 then 32 else maxPlansPerRun
  maxPlansPerRun_pos := by split <;> omega

namespace FailoverPlanner

variable (f : FailoverPlanner)

/-- Without a timeout only the mark of the node counts. -/
def isNodeUnavailable (node : NodeInfo) (now : Time) : Bool :=
  if !node.healthy then true
  else if f.nodeTimeout ≤ 0 then false
  else match node.lastSeenAt with
  | none => true
  | some lastSeenAt => timeSub now lastSeenAt > f.nodeTimeout

/-- The nodes whose replicas are to be replaced. -/
def listUnavailableNodes (now : Time) : CoordinatorM (List NodeInfo) := do
  let nodes ← repo (.listNodes {})
  return nodes.filter fun node => f.isNodeUnavailable node now

/-- The chunk's own policy comes before that of the file. -/
def desiredReplicaCount (chunk : ChunkMetadata) (file : FileMetadata) : Int :=
  if chunk.replicaPolicy.desiredReplicaCount > 0 then chunk.replicaPolicy.desiredReplicaCount
  else if file.replicaPolicy.desiredReplicaCount > 0 then file.replicaPolicy.desiredReplicaCount
  else defaultReplicaCount

/-- The filter for the plans that keep a chunk from being planned again. -/
def activePlans (chunk : ChunkMetadata) : ReplicaPlanFilter :=
  { types := [.failover], states := activeReplicaPlanStates, chunkID := chunk.id }

def placementRequest (chunk : ChunkMetadata) (nodes : List NodeInfo) : PlacementRequest :=
  { candidates := nodes
    excluded := buildReplicaExclusionSet chunk
    requiredBytes := requiredPlacementBytes chunk
    count := 1 }

/-- The time makes the id of a second plan differ. -/
def newPlan (chunk : ChunkMetadata) (failedNodeID : NodeID) (target : NodeInfo) (now : Time) :
    ReplicaPlan :=
  { id := "failover-" ++ chunk.id ++ "-" ++ target.id ++ "-" ++ toString (unixNano now).toInt
    type := .failover
    chunkID := chunk.id
    fileID := chunk.fileID
    sourceNodeID := failedNodeID
    targetNodeID := target.id
    requiredBytes := requiredPlacementBytes chunk
    state := .materialized
    createdAt := now
    updatedAt := now }

/-- The first replica of a chunk is its primary. -/
def materializePendingReplica (plan : ReplicaPlan) (chunk : ChunkMetadata) (now : Time) :
    CoordinatorM Unit :=
  repo (.inTx (pendingReplicaWrites
    (if replicaLen chunk = 0 then .primary else .secondary) plan chunk now))

def rollbackPendingReplica (planID : ReplicaPlanID) (chunk : ChunkMetadata)
    (targetNodeID : NodeID) (now : Time) : CoordinatorM Unit :=
  repo (.inTx (rollbackWrites planID chunk targetNodeID now))

/-- What follows once the plan is written: its task is published, and taken back on failure. -/
def announce (plan : ReplicaPlan) (chunk : ChunkMetadata) (now : Time) : CoordinatorM Bool := do
  if f.taskProducer then
    match ← Prog.attempt (publish (.failover (newFailoverTask plan))) with
    | .ok _ => return true
    | .error err =>
      match ← Prog.attempt (rollbackPendingReplica plan.id chunk plan.targetNodeID now) with
      | .ok _ => throw err
      | .error rollbackErr =>
        throw (.own "publish failover task: %w (rollback: %v)"
          [.text err.text, .text rollbackErr.text])
  else return true

/-- A plan is made if too few ready replicas are on healthy nodes. -/
def planChunkFailover (chunk : ChunkMetadata) (failedNodeID : NodeID) (now : Time) :
    CoordinatorM Bool := do
  let file ← repo (.getFile { id := chunk.fileID })
  let nodes ← repo (.listNodes {})
  if countEffectiveReadyReplicas chunk nodes ≥ desiredReplicaCount chunk file then return false
  else
    let active ← repo (.listReplicaPlans (activePlans chunk))
    if active.length > 0 then return false
    else
      match selectPlacementTargets (placementRequest chunk nodes) with
      | [] => return false
      | target :: _ =>
        let plan := newPlan chunk failedNodeID target now
        materializePendingReplica plan chunk now
        f.announce plan chunk now

/-- The loop of `planNodeFailover`, which stops when the budget is used up; its result is the
number of plans made. -/
def planChunks (failedNodeID : NodeID) (now : Time) :
    List ChunkMetadata → Int → CoordinatorM Int
  | [], _ => return 0
  | chunk :: chunks, remaining => do
    if remaining = 0 then return 0
    else if ← f.planChunkFailover chunk failedNodeID now then
      return (← planChunks failedNodeID now chunks (remaining - 1)) + 1
    else planChunks failedNodeID now chunks remaining

def planNodeFailover (node : NodeInfo) (now : Time) (remaining : Int) : CoordinatorM Int := do
  let chunks ← repo (.listChunksByNode node.id)
  f.planChunks node.id now chunks remaining

/-- The loop of `PlanOnce`. -/
def planNodes (now : Time) : List NodeInfo → Int → CoordinatorM Unit
  | [], _ => return ()
  | node :: nodes, remaining => do
    if remaining = 0 then return ()
    else
      let planned ← f.planNodeFailover node now remaining
      planNodes now nodes (remaining - planned)

/-- The budget is shared by all nodes. -/
def planOnce : CoordinatorM Unit := do
  let now ← timeNow
  let unavailableNodes ← f.listUnavailableNodes now
  f.planNodes now unavailableNodes f.maxPlansPerRun

end FailoverPlanner

/-! ### Rebalancing -/

/-- `nodeUsageRatio`: the quotient of two numbers, or 1 for a node without capacity. -/
inductive UsageRatio where
  | one
  | quotient (used capacity : Int64)

/-- A node without capacity counts as full. -/
def nodeUsageRatio (node : NodeInfo) : UsageRatio :=
  if node.capacity ≤ 0 then .one else .quotient node.used node.capacity

/-- How a usage ratio compares with the two watermarks is a comparison of floating-point numbers
and is left open. -/
structure RebalancePlanner where
  reachesHighWatermark : UsageRatio → Bool
  withinLowWatermark : UsageRatio → Bool
  maxPlansPerRun : Int
  taskProducer : Bool := false
  maxPlansPerRun_pos : 0 < maxPlansPerRun

/-- A replica to move and where to. -/
structure RebalanceMove where
  chunk : ChunkMetadata
  source : NodeInfo
  target : NodeInfo

namespace RebalancePlanner

variable (r : RebalancePlanner)

/-- The overfull and the underfull nodes. -/
def classifyNodePressure (nodes : List NodeInfo) : List NodeInfo × List NodeInfo :=
  (nodes.filter fun node => r.reachesHighWatermark (nodeUsageRatio node),
   nodes.filter fun node => !r.reachesHighWatermark (nodeUsageRatio node) &&
     r.withinLowWatermark (nodeUsageRatio node))

/-- The open plans for a chunk. -/
def activePlans (chunk : ChunkMetadata) : ReplicaPlanFilter :=
  { types := [.failover, .rebalance], states := activeReplicaPlanStates, chunkID := chunk.id }

/-- A policy without a count stands for the default. -/
def desiredReplicaCount (chunk : ChunkMetadata) : Int :=
  if chunk.replicaPolicy.desiredReplicaCount ≤ 0 then defaultReplicaCount
  else chunk.replicaPolicy.desiredReplicaCount

def placementRequest (chunk : ChunkMetadata) (targets : List NodeInfo) : PlacementRequest :=
  { candidates := targets
    excluded := buildReplicaExclusionSet chunk
    requiredBytes := requiredPlacementBytes chunk
    count := 1 }

/-- The loop of `selectReplicaToMove`: the first chunk that can be moved. -/
def selectMove (source : NodeInfo) (targets allNodes : List NodeInfo) :
    List ChunkMetadata → CoordinatorM (Option RebalanceMove)
  | [] => return none
  | chunk :: chunks => do
    let active ← repo (.listReplicaPlans (activePlans chunk))
    if active.length > 0 then selectMove source targets allNodes chunks
    else if countEffectiveReadyReplicas chunk allNodes < desiredReplicaCount chunk then
      selectMove source targets allNodes chunks
    else
      match selectPlacementTargets (placementRequest chunk targets) with
      | [] => selectMove source targets allNodes chunks
      | target :: _ => return some { chunk := chunk, source := source, target := target }

/-- The first chunk of the source that may be moved and fits a target. -/
def selectReplicaToMove (source : NodeInfo) (targets : List NodeInfo) :
    CoordinatorM (Option RebalanceMove) := do
  let chunks ← repo (.listChunksByNode source.id)
  let allNodes ← repo (.listNodes {})
  selectMove source targets allNodes chunks

/-- The same id as for failover, with another prefix. -/
def newPlan (move : RebalanceMove) (now : Time) : ReplicaPlan :=
  { id := "rebalance-" ++ move.chunk.id ++ "-" ++ move.target.id ++ "-" ++
      toString (unixNano now).toInt
    type := .rebalance
    chunkID := move.chunk.id
    fileID := move.chunk.fileID
    sourceNodeID := move.source.id
    targetNodeID := move.target.id
    requiredBytes := requiredPlacementBytes move.chunk
    state := .materialized
    createdAt := now
    updatedAt := now }

def rollbackPlannedReplica (planID : ReplicaPlanID) (chunk : ChunkMetadata)
    (targetNodeID : NodeID) (now : Time) : CoordinatorM Unit :=
  repo (.inTx (rollbackWrites planID chunk targetNodeID now))

/-- A task that cannot be published is not an error once its plan is taken back. -/
def planReplicaMove (move : RebalanceMove) (now : Time) : CoordinatorM Unit := do
  let plan := newPlan move now
  repo (.inTx (pendingReplicaWrites .secondary plan move.chunk now))
  if r.taskProducer then
    match ← Prog.attempt (publish (.rebalance (newRebalanceTask plan))) with
    | .ok _ => return ()
    | .error _ => rollbackPlannedReplica plan.id move.chunk move.target.id now
  else return ()

/-- The loop of `PlanOnce`. -/
def planSources (underfull : List NodeInfo) (now : Time) :
    List NodeInfo → Int → CoordinatorM Unit
  | [], _ => return ()
  | source :: overfull, remaining => do
    if remaining = 0 then return ()
    else
      match ← selectReplicaToMove source underfull with
      | none => planSources underfull now overfull remaining
      | some move =>
        r.planReplicaMove move now
        planSources underfull now overfull (remaining - 1)

/-- The budget is shared by all overfull nodes. -/
def planOnce : CoordinatorM Unit := do
  let now ← timeNow
  let nodes ← repo (.listNodes { healthyOnly := true })
  let (overfull, underfull) := r.classifyNodePressure nodes
  r.planSources underfull now overfull r.maxPlansPerRun

end RebalancePlanner

end AstraStorage.Coordinator
