import AstraStorage.Model.Planners

/-!
# The pending replica repairer

`internal/mds/coordinator/repairer.go`. The repairer asks a datanode with a ready replica to
copy a chunk to the nodes with a pending one and records what was copied. A target that was not
served is not tried again before its back-off is over.
-/

namespace AstraStorage.Coordinator
open Lib Allocator

/-- With a producer the repairer publishes tasks and does not copy itself. -/
structure PendingReplicaRepairer where
  retryBackoff : Int64
  maxReplicasPerRun : Int
  taskProducer : Bool := false
  retryBackoff_pos : 0 < retryBackoff.toInt
  maxReplicasPerRun_pos : 0 < maxReplicasPerRun

/-- Counts of one visit. -/
structure RepairOutcome where
  attempted : Int := 0
  succeeded : Int := 0
  failed : Int := 0
  deferred : Int := 0

/-- The source of a repair, empty if there is none, and the nodes with a pending replica. -/
def selectRepairTargets (replicas : ReplicaSet) : NodeID × List NodeID :=
  let entries := replicaEntries replicas
  let ready := ((entries.filter (·.2.state = .ready)).map Prod.fst).insertionSort (· ≤ ·)
  let pending := ((entries.filter (·.2.state = .pending)).map Prod.fst).insertionSort (· ≤ ·)
  let primary := entries.foldl (fun primary e =>
    if e.2.state = .ready ∧ e.2.role = .primary then e.1 else primary) ""
  if primary ≠ "" then (primary, pending) else (ready.headD "", pending)

/-- Whether the node is registered, healthy and has an address. -/
def canServe (nodes : List NodeInfo) (nodeID : NodeID) : Bool :=
  (nodeIndex nodes nodeID).any fun node => node.healthy && trimSpace node.address ≠ ""

/-- The plan's source if it can serve, and else another ready replica. -/
def selectReplicaCopySource (plan : ReplicaPlan) (chunk : ChunkMetadata) (nodes : List NodeInfo) :
    CoordinatorM NodeID :=
  if (replicaOn chunk.replicas plan.sourceNodeID).any (·.state = .ready) &&
      canServe nodes plan.sourceNodeID then
    return plan.sourceNodeID
  else
    let ready := (replicaEntries chunk.replicas).filter fun e =>
      e.1 ≠ plan.targetNodeID && e.2.state = .ready && canServe nodes e.1
    match (ready.map Prod.fst).insertionSort (· ≤ ·) with
    | [] => throw (.own "mds repairer: no healthy source replica available for plan %q"
        [.text plan.id])
    | nodeID :: _ => return nodeID

/-- `chunk.Replicas[nodeID]` with the fields that every copy sets. -/
def copiedReplica (chunk : ChunkMetadata) (now : Time) (nodeID : NodeID) : ReplicaMetadata :=
  let replica := (replicaOn chunk.replicas nodeID).getD {}
  { replica with
    nodeID := nodeID
    fileID := chunk.fileID
    chunkID := chunk.id
    role := .secondary
    checksum := chunk.checksum
    updatedAt := now
    createdAt := if replica.createdAt = 0 then now else replica.createdAt }

namespace PendingReplicaRepairer

variable (r : PendingReplicaRepairer)

/-- The targets wait for the backoff. -/
def deferTargets (chunkID : ChunkID) (nodeIDs : List NodeID) (now : Time) : CoordinatorM Unit :=
  step (.deferTargets chunkID nodeIDs (now + r.retryBackoff.toInt))

def clearRetry (chunkID : ChunkID) (nodeID : NodeID) : CoordinatorM Unit :=
  step (.clearRetry chunkID nodeID)

def replicateChunk (address : String) (req : ReplicateChunkRequest) :
    CoordinatorM (List ReplicaWriteResult) :=
  fallible (step (.replicateChunk address req)) .outside

/-- The loop over the targets that the datanode was asked to serve. -/
def recordResults (chunk : ChunkMetadata) (now : Time) (results : List ReplicaWriteResult) :
    List ReplicaTarget → RepairOutcome → Table NodeID ReplicaMetadata →
      CoordinatorM (RepairOutcome × Table NodeID ReplicaMetadata)
  | [], outcome, upserts => return (outcome, upserts)
  | target :: targets, outcome, upserts => do
    let replica := copiedReplica chunk now target.nodeID
    if (results.reverse.find? (·.nodeID = target.nodeID)).any (·.state = .ready) then
      clearRetry chunk.id target.nodeID
      recordResults chunk now results targets { outcome with succeeded := outcome.succeeded + 1 }
        (upserts.insert target.nodeID
          { replica with state := .ready, storedSize := chunk.size, verifiedAt := some now })
    else
      r.deferTargets chunk.id [target.nodeID] now
      recordResults chunk now results targets
        { outcome with failed := outcome.failed + 1, deferred := outcome.deferred + 1 }
        (upserts.insert target.nodeID { replica with state := .pending })

/-- The loop over the targets that the datanode was not asked to serve. -/
def recordSkipped (chunk : ChunkMetadata) (now : Time) :
    List NodeID → RepairOutcome → Table NodeID ReplicaMetadata →
      CoordinatorM (RepairOutcome × Table NodeID ReplicaMetadata)
  | [], outcome, upserts => return (outcome, upserts)
  | nodeID :: nodeIDs, outcome, upserts => do
    r.deferTargets chunk.id [nodeID] now
    recordSkipped chunk now nodeIDs
      { outcome with failed := outcome.failed + 1, deferred := outcome.deferred + 1 }
      (upserts.insert nodeID { copiedReplica chunk now nodeID with state := .pending })

/-- No target was served: all of them wait for their back-off. -/
def giveUp (chunk : ChunkMetadata) (targetNodeIDs : List NodeID) (now : Time) (attempted : Int)
    (err : Option CoordinatorError) : CoordinatorM (RepairOutcome × Option CoordinatorError) := do
  r.deferTargets chunk.id targetNodeIDs now
  return ({ attempted := attempted
            failed := targetNodeIDs.length
            deferred := targetNodeIDs.length }, err)

/-- The target nodes with an address, in the order of the targets. -/
def knownNodes (nodes : List (NodeID × NodeInfo)) : List (NodeID × NodeInfo) :=
  nodes.filter fun e => trimSpace e.2.address ≠ ""

def selectedNodes (nodes : List (NodeID × NodeInfo)) : List NodeInfo :=
  selectCapacityAwareNodes ((knownNodes nodes).map Prod.snd) nodes.length

/-- The targets without an address, then those with one that were not selected. -/
def skippedNodeIDs (nodes : List (NodeID × NodeInfo)) : List NodeID :=
  (nodes.filter fun e => trimSpace e.2.address = "").map Prod.fst ++
    ((knownNodes nodes).filter fun e =>
      !((selectedNodes nodes).map (·.id)).contains e.1).map Prod.fst

/-- Recording what the datanode answered for the targets. -/
def recordCopy (chunk : ChunkMetadata) (now : Time) (targets : List ReplicaTarget)
    (skipped : List NodeID) (results : List ReplicaWriteResult) :
    CoordinatorM (RepairOutcome × Option CoordinatorError) := do
  let (outcome, upserts) ← r.recordResults chunk now results targets
    { attempted := targets.length } ∅
  let (outcome, upserts) ← r.recordSkipped chunk now skipped outcome upserts
  match ← Prog.attempt (repo (.write (.updateChunkReplicas
      { selector := { id := chunk.id }
        upserts := some upserts
        replicaCount := some (replicaLen chunk)
        updatedAt := now }))) with
  | .ok _ => return (outcome, none)
  | .error err => return (outcome, some err)

/-- The outcome and the error, which the source returns together. -/
def executeReplicaCopy (now : Time) (chunk : ChunkMetadata) (sourceNodeID : NodeID)
    (targetNodeIDs : List NodeID) : CoordinatorM (RepairOutcome × Option CoordinatorError) := do
  match ← Prog.attempt (repo (.getNode sourceNodeID)) with
  | .error err => r.giveUp chunk targetNodeIDs now 0 (some err)
  | .ok sourceNode =>
    if trimSpace sourceNode.address = "" then
      r.giveUp chunk targetNodeIDs now 0
        (some (.own "mds repairer: source node %q has no address" [.text sourceNodeID]))
    else
      match ← Prog.attempt (targetNodeIDs.mapM fun nodeID => do
          let node ← repo (.getNode nodeID)
          return (nodeID, node)) with
      | .error err => r.giveUp chunk targetNodeIDs now 0 (some err)
      | .ok nodes =>
        let targets := (selectedNodes nodes).map fun node =>
          ({ nodeID := node.id, address := node.address } : ReplicaTarget)
        if targets.length = 0 then r.giveUp chunk targetNodeIDs now 0 none
        else
          match ← Prog.attempt (replicateChunk sourceNode.address
              { chunkID := chunk.id, targets := targets }) with
          | .error err => r.giveUp chunk targetNodeIDs now targets.length (some err)
          | .ok results => r.recordCopy chunk now targets (skippedNodeIDs nodes) results

/-- The loop over the targets of a chunk if there is a task producer. -/
def publishRepairs (now : Time) (chunk : ChunkMetadata) (sourceNodeID : NodeID) :
    List NodeID → RepairOutcome → CoordinatorM (RepairOutcome × Option CoordinatorError)
  | [], outcome => return (outcome, none)
  | nodeID :: nodeIDs, outcome => do
    match ← Prog.attempt (publish (.replicaRepair
        (newReplicaRepairTask chunk.id chunk.fileID sourceNodeID nodeID))) with
    | .error err =>
      r.deferTargets chunk.id [nodeID] now
      return ({ outcome with failed := outcome.failed + 1, deferred := outcome.deferred + 1 },
        some err)
    | .ok _ =>
      r.deferTargets chunk.id [nodeID] now
      publishRepairs now chunk sourceNodeID nodeIDs
        { outcome with attempted := outcome.attempted + 1 }

/-- Only targets whose retry is due are visited. -/
def repairChunk (now : Time) (chunk : ChunkMetadata) (remaining : Int) :
    CoordinatorM (RepairOutcome × Option CoordinatorError) := do
  let (sourceNodeID, pendingNodeIDs) := selectRepairTargets chunk.replicas
  if sourceNodeID = "" ∨ pendingNodeIDs.length = 0 ∨ remaining ≤ 0 then return ({}, none)
  else
    let targetNodeIDs ← step (.selectDueTargets chunk.id pendingNodeIDs remaining now)
    if targetNodeIDs.length = 0 then return ({}, none)
    else if r.taskProducer then r.publishRepairs now chunk sourceNodeID targetNodeIDs {}
    else r.executeReplicaCopy now chunk sourceNodeID targetNodeIDs

/-- The loop over the chunks of a file: what is left of the budget, and the first error. -/
def repairChunks (now : Time) : List ChunkMetadata → Int → Option CoordinatorError →
    CoordinatorM (Int × Option CoordinatorError)
  | [], remaining, firstErr => return (remaining, firstErr)
  | chunk :: chunks, remaining, firstErr => do
    if remaining = 0 then return (remaining, firstErr)
    else
      let (outcome, err) ← r.repairChunk now chunk remaining
      repairChunks now chunks (remaining - outcome.attempted) (firstErr <|> err)

/-- The loop over the files; its result is the first error. -/
def repairFiles (now : Time) : List FileMetadata → Int → Option CoordinatorError →
    CoordinatorM (Option CoordinatorError)
  | [], _, firstErr => return firstErr
  | file :: files, remaining, firstErr => do
    if remaining = 0 then return firstErr
    else
      match ← Prog.attempt (repo (.listChunksByFile file.id)) with
      | .error err => repairFiles now files remaining (firstErr <|> some err)
      | .ok chunks =>
        let (remaining, firstErr) ← r.repairChunks now chunks remaining firstErr
        repairFiles now files remaining firstErr

/-- Errors do not end the run; the first one is returned. -/
def repairOnce : CoordinatorM Unit := do
  let files ← repo (.listFiles {})
  let now ← timeNow
  match ← r.repairFiles now files r.maxReplicasPerRun none with
  | none => return ()
  | some err => throw err

def executeReplicaRepair (task : ReplicaRepairTask) : CoordinatorM Unit := do
  let chunk ← repo (.getChunk { id := task.chunkID })
  let now ← timeNow
  let (_, err) ← r.executeReplicaCopy now chunk task.sourceNodeID [task.targetNodeID]
  match err with
  | none => return ()
  | some err => throw err

/-- The plan goes to `cleanupReady` once its target is copied; no cleanup task is published. -/
def executeReplicaPlanCopy (planID : ReplicaPlanID) : CoordinatorM Unit := do
  let plan ← repo (.getReplicaPlan planID)
  let chunk ← repo (.getChunk { id := plan.chunkID })
  let nodes ← repo (.listNodes {})
  let sourceNodeID ← selectReplicaCopySource plan chunk nodes
  let now ← timeNow
  match ← r.executeReplicaCopy now chunk sourceNodeID [plan.targetNodeID] with
  | (_, some err) => throw err
  | (outcome, none) =>
    if outcome.succeeded = 0 then
      throw (.own "mds repairer: replica plan %q copied no targets" [.text planID])
    else
      repo (.write (.updateReplicaPlan
        { id := plan.id, state := some .cleanupReady, updatedAt := now }))

end PendingReplicaRepairer

end AstraStorage.Coordinator
