import AstraStorage.Model.Metadata
import AstraStorage.Model.Strings

/-!
# Placement of replicas

`internal/mds/allocator.go`.
-/

namespace AstraStorage.Allocator
open Lib

/-- The entries of a replica set in iteration order. -/
def replicaEntries (replicas : ReplicaSet) : List (NodeID × ReplicaMetadata) :=
  (replicas.getD ∅).entries.map fun e => (e.1, e.2)

/-- `replicas[nodeID]`, with whether the key is there. -/
def replicaOn (replicas : ReplicaSet) (nodeID : NodeID) : Option ReplicaMetadata :=
  replicas.bind (·.lookup nodeID)

def availableCapacity (node : NodeInfo) : Int64 := node.capacity - node.used

/-- A request for `count` targets with room for `requiredBytes`. -/
structure PlacementRequest where
  candidates : List NodeInfo
  excluded : List NodeID := []
  requiredBytes : Int64 := 0
  count : Int

/-- The checks of `SelectPlacementTargets` on one candidate. -/
def PlacementRequest.admits (req : PlacementRequest) (node : NodeInfo) : Bool :=
  node.healthy && trimSpace node.address ≠ "" && !req.excluded.contains node.id &&
    !(node.capacity < 0 || node.used < 0) && !(node.used > node.capacity) &&
    !(availableCapacity node ≤ 0) && !(availableCapacity node < req.requiredBytes)

/-- The admitted candidates, most free capacity first. -/
def selectPlacementTargets (req : PlacementRequest) : List NodeInfo :=
  if req.count ≤ 0 then []
  else
    let selected := (req.candidates.filter req.admits).insertionSort fun a b =>
      availableCapacity a > availableCapacity b ∨
        (availableCapacity a = availableCapacity b ∧ a.id ≤ b.id)
    selected.take req.count.toNat

/-- Nodes by free capacity, without exclusions or a size. -/
def selectCapacityAwareNodes (candidates : List NodeInfo) (count : Int) : List NodeInfo :=
  selectPlacementTargets { candidates := candidates, count := count }

/-- The size of the largest ready replica, or else that of the chunk. -/
def requiredPlacementBytes (chunk : ChunkMetadata) : Int64 :=
  let maxReadyStoredSize := (replicaEntries chunk.replicas).foldl (fun size e =>
    if e.2.state = .ready ∧ e.2.storedSize > size then e.2.storedSize else size) 0
  if maxReadyStoredSize > 0 then maxReadyStoredSize
  else if chunk.size > 0 then chunk.size
  else 0

/-- `nodeIndex[nodeID]` for the index that maps the ID of every listed node to the node. -/
def nodeIndex (nodes : List NodeInfo) (nodeID : NodeID) : Option NodeInfo :=
  nodes.reverse.find? (·.id = nodeID)

/-- Ready replicas on nodes that are marked healthy. -/
def countEffectiveReadyReplicas (chunk : ChunkMetadata) (nodes : List NodeInfo) : Int :=
  (replicaEntries chunk.replicas).countP fun e =>
    e.2.state = .ready && (nodeIndex nodes e.1).any (·.healthy)

/-- The nodes that hold a replica in any state. -/
def buildReplicaExclusionSet (chunk : ChunkMetadata) : List NodeID :=
  (replicaEntries chunk.replicas).map Prod.fst

end AstraStorage.Allocator
