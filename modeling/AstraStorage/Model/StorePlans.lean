import AstraStorage.Model.StoreNamespace
import AstraStorage.Model.StoreUpload

/-!
# The in-memory repository: replica plans, replicas and node lists

`internal/mds/store/memory_plan.go`, and of `memory_chunk.go` and `memory_node.go` what the
background controllers call.
-/

namespace AstraStorage.Store
open Lib

/-- The states of a finished plan. -/
def isTerminalReplicaPlanState (state : ReplicaPlanState) : Bool :=
  state = .done || state = .failed

/-- One active plan for a type, chunk and target; the source differs from the target. -/
def createReplicaPlan (plan : Option ReplicaPlan) : StoreM Unit := do
  let plan ← expect plan .invalidArgument "replica plan is nil"
  reject (trimSpace plan.id = "") .invalidArgument "replica plan id is required"
  reject (plan.type = .other "") .invalidArgument "replica plan type is required"
  reject (plan.chunkID = "" ∨ plan.fileID = "") .invalidArgument
    "replica plan chunk id and file id are required"
  reject (plan.sourceNodeID = "" ∨ plan.targetNodeID = "") .invalidArgument
    "replica plan source and target node ids are required"
  reject (plan.sourceNodeID = plan.targetNodeID) .invalidArgument
    "source and target node ids must differ"
  reject (plan.requiredBytes < 0) .invalidArgument "required bytes cannot be negative"
  reject (plan.state = .other "") .invalidArgument "replica plan state is required"
  let state ← get
  reject ((state.replicaPlans.lookup plan.id).isSome) .alreadyExists "replica plan %q"
    [.text plan.id]
  reject (state.replicaPlans.values.any fun existing =>
      existing.type = plan.type && existing.chunkID = plan.chunkID &&
        existing.targetNodeID = plan.targetNodeID && !isTerminalReplicaPlanState existing.state)
    .alreadyExists "active replica plan for chunk %q target %q"
    [.text plan.chunkID, .text plan.targetNodeID]
  putReplicaPlan plan

def getReplicaPlan (id : ReplicaPlanID) : StoreM ReplicaPlan := do
  expect ((← get).replicaPlans.lookup id) .notFound "replica plan"

/-- Fields that are empty select everything. -/
structure ReplicaPlanFilter where
  types : List ReplicaPlanType := []
  states : List ReplicaPlanState := []
  chunkID : ChunkID := ""
  fileID : FileID := ""
  sourceNodeID : NodeID := ""
  targetNodeID : NodeID := ""
  limit : Int := 0
  offset : Int := 0

def ReplicaPlanFilter.matches (filter : ReplicaPlanFilter) (plan : ReplicaPlan) : Bool :=
  (filter.types.isEmpty || filter.types.contains plan.type) &&
  (filter.states.isEmpty || filter.states.contains plan.state) &&
  (filter.chunkID = "" || plan.chunkID = filter.chunkID) &&
  (filter.fileID = "" || plan.fileID = filter.fileID) &&
  (filter.sourceNodeID = "" || plan.sourceNodeID = filter.sourceNodeID) &&
  (filter.targetNodeID = "" || plan.targetNodeID = filter.targetNodeID)

/-- The plans by creation time, and by ID where the times agree. -/
def listReplicaPlans (filter : ReplicaPlanFilter) : StoreM (List ReplicaPlan) := do
  let plans := (← get).replicaPlans.values.filter filter.matches
  let sorted := plans.insertionSort fun a b =>
    a.createdAt < b.createdAt ∨ (a.createdAt = b.createdAt ∧ a.id ≤ b.id)
  return applyListWindow sorted filter.limit filter.offset

/-- Fields that are `none` stay. -/
structure ReplicaPlanPatch where
  id : ReplicaPlanID
  state : Option ReplicaPlanState := none
  lastErrorCode : Option String := none
  lastErrorMessage : Option String := none
  retryCount : Option Int := none
  nextRetryAt : Option Time := none
  completedAt : Option Time := none
  updatedAt : Time

def ReplicaPlanPatch.apply (patch : ReplicaPlanPatch) (plan : ReplicaPlan) : ReplicaPlan :=
  { plan with
    state := patch.state.getD plan.state
    lastErrorCode := patch.lastErrorCode.getD plan.lastErrorCode
    lastErrorMessage := patch.lastErrorMessage.getD plan.lastErrorMessage
    retryCount := patch.retryCount.getD plan.retryCount
    nextRetryAt := patch.nextRetryAt <|> plan.nextRetryAt
    completedAt := patch.completedAt <|> plan.completedAt
    updatedAt := patch.updatedAt }

/-- No check of the plan's current state is made here. -/
def updateReplicaPlan (patch : ReplicaPlanPatch) : StoreM Unit := do
  let plan ← expect ((← get).replicaPlans.lookup patch.id) .notFound "replica plan"
  putReplicaPlan (patch.apply plan)

def deleteReplicaPlan (id : ReplicaPlanID) : StoreM Unit := do
  reject (((← get).replicaPlans.lookup id).isNone) .notFound "replica plan"
  modify fun s => { s with replicaPlans := s.replicaPlans.erase id }

/-- The chunks with a replica entry for the node, by file and index. -/
def listChunksByNode (nodeID : NodeID) : StoreM (List ChunkMetadata) := do
  let chunks := (← get).chunks.values.filter fun chunk =>
    chunk.replicas.any fun replicas => (replicas.lookup nodeID).isSome
  return chunks.insertionSort fun a b =>
    a.fileID < b.fileID ∨ (a.fileID = b.fileID ∧ a.index ≤ b.index)

/-- Replicas to put and to remove. -/
structure ChunkReplicaPatch where
  selector : ChunkSelector
  upserts : ReplicaSet := none
  removeNodeIDs : List NodeID := []
  replicaCount : Option Int := none
  replicaPolicy : Option ReplicaPolicy := none
  updatedAt : Time

/-- Removals come after insertions. -/
def ChunkReplicaPatch.apply (patch : ChunkReplicaPatch) (chunk : ChunkMetadata) : ChunkMetadata :=
  let upserted := (patch.upserts.getD ∅).entries.foldl
    (fun replicas (e : Sigma fun _ => ReplicaMetadata) => replicas.insert e.1 e.2)
    (chunk.replicas.getD ∅)
  let replicas := patch.removeNodeIDs.foldl (fun replicas nodeID => replicas.erase nodeID) upserted
  { chunk with
    replicas := some replicas
    replicaCount := patch.replicaCount.getD (Table.size replicas)
    replicaPolicy := patch.replicaPolicy.getD chunk.replicaPolicy
    updatedAt := patch.updatedAt }

def updateChunkReplicas (patch : ChunkReplicaPatch) : StoreM Unit := do
  let chunk ← expect (findChunk (← get) patch.selector) .notFound "chunk"
  putChunk (patch.apply chunk)

/-- The chunk that `removeChunkReplica` stores. -/
def withoutReplica (chunk : ChunkMetadata) (replicas : Table NodeID ReplicaMetadata)
    (nodeID : NodeID) (updatedAt : Time) : ChunkMetadata :=
  { chunk with
    replicas := some (replicas.erase nodeID)
    replicaCount := Table.size (replicas.erase nodeID)
    updatedAt := updatedAt }

/-- A replica that is missing is an error. -/
def removeChunkReplica (selector : ChunkSelector) (nodeID : NodeID) (updatedAt : Time) :
    StoreM Unit := do
  let chunk ← expect (findChunk (← get) selector) .notFound "chunk"
  let replicas ← expect chunk.replicas .notFound "replica on node %q" [.text nodeID]
  reject ((replicas.lookup nodeID).isNone) .notFound "replica on node %q" [.text nodeID]
  putChunk (withoutReplica chunk replicas nodeID updatedAt)

structure NodeFilter where
  ids : List NodeID := []
  healthyOnly : Bool := false
  zone : String := ""
  rack : String := ""
  labels : StringMap := none
  limit : Int := 0
  offset : Int := 0

/-- A label that is missing counts as empty. -/
def hasLabels (actual expected : StringMap) : Bool :=
  (expected.getD ∅).entries.all fun e => ((actual.bind (·.lookup e.1)).getD "") = e.2

def listNodes (filter : NodeFilter) : StoreM (List NodeInfo) := do
  let nodes := (← get).nodes.values.filter fun node =>
    (filter.ids.isEmpty || filter.ids.contains node.id) &&
    (!filter.healthyOnly || node.healthy) &&
    (filter.zone = "" || node.zone = filter.zone) &&
    (filter.rack = "" || node.rack = filter.rack) &&
    hasLabels node.labels filter.labels
  return applyListWindow (nodes.insertionSort (·.id ≤ ·.id)) filter.limit filter.offset

/-! ### The methods that write -/

/-- The calls of the methods of `store.Repository` that may change the state. -/
inductive Mutation where
  | createInode (inode : Option InodeMetadata)
  | updateInode (patch : InodePatch)
  | moveInode (op : MoveInodeOperation)
  | renameInode (op : RenameInodeOperation)
  | deleteInode (selector : InodeSelector)
  | updateSubtreePaths (op : UpdateSubtreePathsOperation)
  | createFile (file : Option FileMetadata)
  | updateFile (patch : FilePatch)
  | updateFilePlacements (patch : FilePlacementPatch)
  | deleteFile (selector : FileSelector)
  | upsertChunks (chunks : List ChunkMetadata)
  | updateChunkStatus (patch : ChunkStatusPatch)
  | updateChunkReplicas (patch : ChunkReplicaPatch)
  | removeChunkReplica (selector : ChunkSelector) (nodeID : NodeID) (updatedAt : Time)
  | deleteChunk (selector : ChunkSelector)
  | createUploadSession (session : Option UploadSession)
  | updateUploadProgress (progress : UploadProgressPatch)
  | recordUploadFailure (failure : UploadFailureRecord)
  | completeUploadSession (sessionID : UploadSessionID) (completedAt : Time)
  | deleteUploadSession (sessionID : UploadSessionID)
  | upsertNode (node : NodeInfo)
  | updateNodeHeartbeat (heartbeat : NodeHeartbeatPatch)
  | createReplicaPlan (plan : Option ReplicaPlan)
  | updateReplicaPlan (patch : ReplicaPlanPatch)
  | deleteReplicaPlan (id : ReplicaPlanID)

def Mutation.run : Mutation → StoreM Unit
  | .createInode inode => Store.createInode inode
  | .updateInode patch => Store.updateInode patch
  | .moveInode op => Store.moveInode op
  | .renameInode op => Store.renameInode op
  | .deleteInode selector => Store.deleteInode selector
  | .updateSubtreePaths op => Store.updateSubtreePaths op
  | .createFile file => Store.createFile file
  | .updateFile patch => Store.updateFile patch
  | .updateFilePlacements patch => Store.updateFilePlacements patch
  | .deleteFile selector => Store.deleteFile selector
  | .upsertChunks chunks => Store.upsertChunks chunks
  | .updateChunkStatus patch => Store.updateChunkStatus patch
  | .updateChunkReplicas patch => Store.updateChunkReplicas patch
  | .removeChunkReplica selector nodeID updatedAt =>
    Store.removeChunkReplica selector nodeID updatedAt
  | .deleteChunk selector => Store.deleteChunk selector
  | .createUploadSession session => Store.createUploadSession session
  | .updateUploadProgress progress => Store.updateUploadProgress progress
  | .recordUploadFailure failure => Store.recordUploadFailure failure
  | .completeUploadSession sessionID completedAt =>
    Store.completeUploadSession sessionID completedAt
  | .deleteUploadSession sessionID => Store.deleteUploadSession sessionID
  | .upsertNode node => Store.upsertNode node
  | .updateNodeHeartbeat heartbeat => Store.updateNodeHeartbeat heartbeat
  | .createReplicaPlan plan => Store.createReplicaPlan plan
  | .updateReplicaPlan patch => Store.updateReplicaPlan patch
  | .deleteReplicaPlan id => Store.deleteReplicaPlan id

end AstraStorage.Store
