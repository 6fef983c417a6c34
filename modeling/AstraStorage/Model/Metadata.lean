import AstraStorage.Lib.Tables

/-!
# Metadata records

The records of `internal/mds/metadata`. The string-typed enumerations of the source are open, so
each has a constructor for any other text. Pointers that may be nil are options, `time.Time` is
the number of nanoseconds since the zero time.
-/

namespace AstraStorage
open Lib

/-- Identifiers are texts. -/
abbrev InodeID := String
abbrev FileID := String
abbrev ChunkID := String
abbrev UploadSessionID := String
abbrev NodeID := String
abbrev ReplicaPlanID := String

/-- Nanoseconds since the zero time of Go, which is `0`. -/
abbrev Time := Int

/-- `t.UnixNano()`. -/
def unixNano (t : Time) : Int64 := Int64.ofInt (t - 62135596800000000000)

/-- A Go map, which may be nil. -/
abbrev StringMap := Option (Table String String)

def rootInodeID : InodeID := "root"

def defaultReplicaCount : Int := 3
def minimumReadableReplicaCount : Int := 1
/-- The size of every chunk but the last. -/
def fixedChunkSizeBytes : Int64 := 4194304

/-- The source's texts, and any other text. -/
inductive InodeType where
  | file
  | directory
  | other (text : String)
  deriving DecidableEq

inductive InodeStatus where
  | active
  | deleting
  | deleted
  | other (text : String)
  deriving DecidableEq

inductive FileStatus where
  | pending
  | uploading
  | verifying
  | available
  | corrupted
  | deleting
  | deleted
  | failed
  | other (text : String)
  deriving DecidableEq

inductive UploadStatus where
  | pending
  | active
  | paused
  | retrying
  | verifying
  | completed
  | failed
  | expired
  | other (text : String)
  deriving DecidableEq

inductive ChunkStatus where
  | pending
  | writing
  | persisted
  | verifying
  | available
  | corrupted
  | failed
  | other (text : String)
  deriving DecidableEq

inductive ReplicaRole where
  | primary
  | secondary
  | witness
  | other (text : String)
  deriving DecidableEq

inductive ReplicaState where
  | pending
  | writing
  | ready
  | lagging
  | corrupted
  | lost
  | other (text : String)
  deriving DecidableEq

inductive ReplicaPlanType where
  | failover
  | rebalance
  | cleanup
  | other (text : String)
  deriving DecidableEq

/-- The life of a plan, which ends with `done` or `failed`. -/
inductive ReplicaPlanState where
  | planned
  | materialized
  | copyReady
  | cleanupReady
  | done
  | failed
  | other (text : String)
  deriving DecidableEq

/-- The text of a file status, as error messages print it. -/
def FileStatus.text : FileStatus → String
  | pending => "pending"
  | uploading => "uploading"
  | verifying => "verifying"
  | available => "available"
  | corrupted => "corrupted"
  | deleting => "deleting"
  | deleted => "deleted"
  | failed => "failed"
  | other text => text

/-- The text of an upload status, as error messages print it. -/
def UploadStatus.text : UploadStatus → String
  | pending => "pending"
  | active => "active"
  | paused => "paused"
  | retrying => "retrying"
  | verifying => "verifying"
  | completed => "completed"
  | failed => "failed"
  | expired => "expired"
  | other text => text

structure InodeMetadata where
  id : InodeID
  parentID : InodeID := ""
  fileID : FileID := ""
  path : String := ""
  name : String := ""
  type : InodeType := .other ""
  status : InodeStatus := .other ""
  size : Int64 := 0
  permissions : UInt32 := 0
  owner : String := ""
  group : String := ""
  linkCount : Int64 := 0
  generation : Int64 := 0
  createdAt : Time := 0
  updatedAt : Time := 0
  accessedAt : Option Time := none

structure DirectoryEntry where
  parentID : InodeID
  childID : InodeID
  name : String
  type : InodeType
  createdAt : Time
  updatedAt : Time

/-- A digest and whether it has been verified. -/
structure Checksum where
  algorithm : String := ""
  value : String := ""
  verified : Bool := false
  verifiedAt : Option Time := none
  deriving DecidableEq

/-- The failures of a session so far. -/
structure RetryState where
  attempt : Int := 0
  maxAttempts : Int := 0
  retryable : Bool := false
  lastErrorCode : String := ""
  lastErrorMessage : String := ""
  lastFailedOffset : Int64 := 0
  lastFailedChunk : ChunkID := ""
  lastFailureAt : Option Time := none
  nextRetryAt : Option Time := none

/-- How many replicas there should be, and how many there are. -/
structure ReplicaPolicy where
  desiredReplicaCount : Int := 0
  minimumReplicaCount : Int := 0
  currentReplicaCount : Int := 0
  deriving DecidableEq

/-- One attempt to upload a file. -/
structure UploadSession where
  id : UploadSessionID
  fileID : FileID
  uploadKey : String := ""
  status : UploadStatus := .other ""
  expectedSize : Int64 := 0
  chunkSize : Int64 := 0
  confirmedOffset : Int64 := 0
  nextOffset : Int64 := 0
  lastPersistedChunk : ChunkID := ""
  expectedChecksum : Option Checksum := none
  verifiedChecksum : Option Checksum := none
  retry : RetryState := {}
  createdAt : Time := 0
  updatedAt : Time := 0
  expiresAt : Option Time := none
  completedAt : Option Time := none
  clientMetadata : StringMap := none
  transportAttributes : StringMap := none

structure NodeInfo where
  id : NodeID
  address : String := ""
  rack : String := ""
  zone : String := ""
  region : String := ""
  labels : StringMap := none
  capacity : Int64 := 0
  used : Int64 := 0
  healthy : Bool := false
  lastSeenAt : Option Time := none
  updatedAt : Time := 0

structure ReplicaMetadata where
  id : String := ""
  fileID : FileID := ""
  chunkID : ChunkID := ""
  nodeID : NodeID := ""
  role : ReplicaRole := .other ""
  state : ReplicaState := .other ""
  checksum : Checksum := {}
  storedSize : Int64 := 0
  createdAt : Time := 0
  updatedAt : Time := 0
  verifiedAt : Option Time := none

/-- The replicas of a chunk by node; a nil map is `none`. -/
abbrev ReplicaSet := Option (Table NodeID ReplicaMetadata)

structure NodePlacement where
  node : NodeInfo
  replicaRole : ReplicaRole := .other ""
  replicaState : ReplicaState := .other ""
  isPrimary : Bool := false
  chunkIDs : List ChunkID := []
  storedSize : Int64 := 0
  checksumState : String := ""
  lastSyncAt : Option Time := none

abbrev NodePlacements := Option (Table NodeID NodePlacement)

structure FileMetadata where
  id : FileID
  «namespace» : String := ""
  inodeID : InodeID := ""
  parentInodeID : InodeID := ""
  path : String := ""
  name : String := ""
  size : Int64 := 0
  storedSize : Int64 := 0
  chunkSize : Int64 := 0
  version : Int64 := 0
  status : FileStatus := .other ""
  contentType : String := ""
  storageClass : String := ""
  primaryNodeID : NodeID := ""
  secondaryNodeIDs : List NodeID := []
  latestUploadSessionID : UploadSessionID := ""
  checksum : Checksum := {}
  replicaPolicy : ReplicaPolicy := {}
  userMetadata : StringMap := none
  tags : StringMap := none
  nodePlacements : NodePlacements := none
  createdAt : Time := 0
  updatedAt : Time := 0
  completedAt : Option Time := none

structure ChunkMetadata where
  id : ChunkID
  fileID : FileID
  index : Int64 := 0
  offset : Int64 := 0
  size : Int64 := 0
  status : ChunkStatus := .other ""
  version : Int64 := 0
  checksum : Checksum := {}
  replicaPolicy : ReplicaPolicy := {}
  replicaCount : Int := 0
  replicas : ReplicaSet := none
  createdAt : Time := 0
  updatedAt : Time := 0
  verifiedAt : Option Time := none
  lastErrorCode : String := ""

/-- The move of a replica from a source to a target. -/
structure ReplicaPlan where
  id : ReplicaPlanID
  type : ReplicaPlanType := .other ""
  chunkID : ChunkID := ""
  fileID : FileID := ""
  sourceNodeID : NodeID := ""
  targetNodeID : NodeID := ""
  requiredBytes : Int64 := 0
  state : ReplicaPlanState := .other ""
  priority : Int := 0
  lastErrorCode : String := ""
  lastErrorMessage : String := ""
  retryCount : Int := 0
  nextRetryAt : Option Time := none
  createdAt : Time := 0
  updatedAt : Time := 0
  completedAt : Option Time := none

end AstraStorage
