import AstraStorage.Model.Allocator
import AstraStorage.Model.StorePlans

/-!
# Download plans and upload targets

`internal/mds/service_read.go`, and `AllocateUploadTargets` of `internal/mds/service_node.go`.
-/

namespace AstraStorage.Service
open Store

structure DownloadChunkPlan where
  chunkID : ChunkID
  index : Int64
  offset : Int64
  size : Int64
  status : ChunkStatus
  preferredNodeID : NodeID
  candidateNodeIDs : List NodeID
  checksum : Checksum
  replicaCount : Int

structure DownloadPlan where
  fileID : FileID
  inodeID : InodeID
  path : String
  size : Int64
  storedSize : Int64
  chunkSize : Int64
  fileStatus : FileStatus
  chunkCount : Int
  chunks : List DownloadChunkPlan

/-- Primaries are read before secondaries. -/
def replicaRoleRank : ReplicaRole → Nat
  | .primary => 0
  | .secondary => 1
  | .witness => 2
  | .other _ => 3

/-- `healthy` of a candidate. -/
def readable (replica : ReplicaMetadata) : Bool :=
  replica.state = .ready || replica.state = .writing

/-- The comparison by which the candidates are sorted. -/
def candidateLess (a b : NodeID × ReplicaMetadata) : Bool :=
  if readable a.2 ≠ readable b.2 then readable a.2
  else if a.2.role ≠ b.2.role then replicaRoleRank a.2.role < replicaRoleRank b.2.role
  else a.1 < b.1

/-- All replica nodes, the preferred one first. -/
def orderedReplicaCandidates (replicas : ReplicaSet) : List NodeID × NodeID :=
  let nodeIDs := ((Allocator.replicaEntries replicas).insertionSort fun a b =>
    candidateLess b a = false).map Prod.fst
  (nodeIDs, nodeIDs.headD "")

/-- The nodes of a chunk in the order in which they are tried. -/
def planChunk (chunk : ChunkMetadata) : DownloadChunkPlan :=
  let (candidateNodeIDs, preferredNodeID) := orderedReplicaCandidates chunk.replicas
  { chunkID := chunk.id
    index := chunk.index
    offset := chunk.offset
    size := chunk.size
    status := chunk.status
    preferredNodeID := preferredNodeID
    candidateNodeIDs := candidateNodeIDs
    checksum := chunk.checksum
    replicaCount := chunk.replicaCount }

/-- The plan for a file with these chunks. -/
def planOfChunks (file : FileMetadata) (chunks : List ChunkMetadata) : DownloadPlan where
  fileID := file.id
  inodeID := file.inodeID
  path := file.path
  size := file.size
  storedSize := file.storedSize
  chunkSize := file.chunkSize
  fileStatus := file.status
  chunkCount := chunks.length
  chunks := chunks.map planChunk

/-- A file without chunks has no plan. -/
def buildDownloadPlan (fileID : FileID) : StoreM DownloadPlan := do
  let file ← getFile { id := fileID }
  let chunks ← listChunksByFile fileID
  reject (chunks.length = 0) .notFound "file %q has no chunks" [.text fileID]
  return planOfChunks file chunks

structure UploadTarget where
  nodeID : NodeID
  address : String

structure AllocateUploadTargetsRequest where
  fileID : FileID
  chunkIndex : Int64

def validateAllocateUploadTargetsRequest (req : AllocateUploadTargetsRequest) : StoreM Unit := do
  reject (req.fileID = "") .invalidArgument "file id is required"
  reject (req.chunkIndex < 0) .invalidArgument "chunk index cannot be negative"

/-- The healthy nodes with most free capacity. -/
def allocateUploadTargets (req : AllocateUploadTargetsRequest) : StoreM (List UploadTarget) := do
  validateAllocateUploadTargetsRequest req
  let file ← getFile { id := req.fileID }
  let nodes ← listNodes { healthyOnly := true }
  reject (nodes.length = 0) .conflict "no healthy storage nodes available for file %q"
    [.text file.id]
  let desired := file.replicaPolicy.desiredReplicaCount
  let targetCount := if desired ≤ 0 then 1 else desired
  let selectedNodes := Allocator.selectCapacityAwareNodes nodes targetCount
  reject (selectedNodes.length = 0) .conflict
    "no capacity-valid storage nodes available for file %q" [.text file.id]
  return selectedNodes.map fun node => { nodeID := node.id, address := node.address }

end AstraStorage.Service
