import AstraStorage.Model.Metadata
import AstraStorage.Model.Strings

/-!
# The in-memory repository: state, errors and lookups

`internal/mds/store/memory.go` and `memory_helpers.go`. A store function runs on the state it is
given, and a failing one keeps what it had already written. A Go function may also panic or never
return: both are outcomes here.
-/

namespace AstraStorage.Store
open Lib

/-- Every map of the repository is written under the ID of the record it stores. -/
structure MemoryState where
  inodes : Records InodeMetadata.id := ∅
  files : Records FileMetadata.id := ∅
  chunks : Records ChunkMetadata.id := ∅
  uploadSessions : Records UploadSession.id := ∅
  nodes : Records NodeInfo.id := ∅
  replicaPlans : Records ReplicaPlan.id := ∅

/-- The sentinel errors of the store. -/
inductive ErrorKind where
  | notFound
  | alreadyExists
  | invalidArgument
  | conflict
  deriving DecidableEq

inductive ErrorArg where
  | text (s : String)
  | number (n : Int64)
  deriving DecidableEq

/-- `fmt.Errorf("%w: " + format, kind, args...)`. -/
structure StoreError where
  kind : ErrorKind
  format : String
  args : List ErrorArg := []
  deriving DecidableEq

/-- A panic and a loop without end are kept apart from errors. -/
inductive Fault where
  | error (e : StoreError)
  | panics
  | diverges
  deriving DecidableEq

/-- Calls on the memory store. -/
abbrev StoreM := EStateM Fault MemoryState

def fail {α : Type} (kind : ErrorKind) (format : String) (args : List ErrorArg := []) : StoreM α :=
  throw (.error ⟨kind, format, args⟩)

/-- `if c { return fmt.Errorf(...) }`. -/
def reject (c : Prop) [Decidable c] (kind : ErrorKind) (format : String)
    (args : List ErrorArg := []) : StoreM Unit :=
  if c then fail kind format args else pure ()

/-- `v, ok := ...; if !ok { return fmt.Errorf(...) }`. -/
def expect {α : Type} (v : Option α) (kind : ErrorKind) (format : String)
    (args : List ErrorArg := []) : StoreM α :=
  match v with
  | some a => pure a
  | none => fail kind format args

/-- `InTx`: the callback works on a copy, which replaces the state only on success. -/
def inTx {α : Type} (fn : StoreM α) : StoreM α := fun s =>
  match fn s with
  | .ok a s' => .ok a s'
  | .error e _ => .error e s

/-- Writes an inode under its own ID: a new map entry, or new fields of the stored record. -/
def putInode (inode : InodeMetadata) : StoreM Unit :=
  modify fun s => { s with inodes := s.inodes.put inode }

def putFile (file : FileMetadata) : StoreM Unit :=
  modify fun s => { s with files := s.files.put file }

def putChunk (chunk : ChunkMetadata) : StoreM Unit :=
  modify fun s => { s with chunks := s.chunks.put chunk }

def putUploadSession (session : UploadSession) : StoreM Unit :=
  modify fun s => { s with uploadSessions := s.uploadSessions.put session }

def putNode (node : NodeInfo) : StoreM Unit :=
  modify fun s => { s with nodes := s.nodes.put node }

def putReplicaPlan (plan : ReplicaPlan) : StoreM Unit :=
  modify fun s => { s with replicaPlans := s.replicaPlans.put plan }

/-- Fields that are empty select everything. -/
structure InodeSelector where
  id : InodeID := ""
  parentID : InodeID := ""
  path : String := ""
  name : String := ""
  type : Option InodeType := none

structure FileSelector where
  id : FileID := ""
  inodeID : InodeID := ""
  parentInodeID : InodeID := ""
  «namespace» : String := ""
  path : String := ""
  name : String := ""
  version : Option Int64 := none

structure ChunkSelector where
  id : ChunkID := ""
  fileID : FileID := ""
  index : Option Int64 := none

/-- An id decides alone; else the first record in the order of the map. -/
def findInode (state : MemoryState) (selector : InodeSelector) : Option InodeMetadata :=
  if selector.id ≠ "" then state.inodes.lookup selector.id
  else state.inodes.values.find? fun inode =>
    (selector.parentID = "" || inode.parentID = selector.parentID) &&
    (selector.path = "" || inode.path = selector.path) &&
    (selector.name = "" || inode.name = selector.name) &&
    selector.type.all (inode.type = ·)

def findFile (state : MemoryState) (selector : FileSelector) : Option FileMetadata :=
  if selector.id ≠ "" then state.files.lookup selector.id
  else state.files.values.find? fun file =>
    (selector.inodeID = "" || file.inodeID = selector.inodeID) &&
    (selector.parentInodeID = "" || file.parentInodeID = selector.parentInodeID) &&
    (selector.namespace = "" || file.namespace = selector.namespace) &&
    (selector.path = "" || file.path = selector.path) &&
    (selector.name = "" || file.name = selector.name) &&
    selector.version.all (file.version = ·)

def findChunk (state : MemoryState) (selector : ChunkSelector) : Option ChunkMetadata :=
  if selector.id ≠ "" then state.chunks.lookup selector.id
  else state.chunks.values.find? fun chunk =>
    (selector.fileID = "" || chunk.fileID = selector.fileID) &&
    selector.index.all (chunk.index = ·)

/-- A deleted inode does not take its name. -/
def nameTaken (state : MemoryState) (parentID : InodeID) (name : String) (excludeID : InodeID) : Bool :=
  state.inodes.values.any fun inode =>
    inode.parentID = parentID && inode.name = name && inode.id ≠ excludeID && inode.status ≠ .deleted

/-- The loop of `isDescendant`. It leaves the table after at most as many rounds as there
are inodes or it never ends, so running out of rounds is the loop that never ends. -/
def isDescendantLoop (state : MemoryState) (ancestorID : InodeID) :
    Nat → Option InodeMetadata → Option Bool
  | _, none => some false
  | 0, some _ => none
  | rounds + 1, some current =>
    if current.parentID = ancestorID then some true
    else isDescendantLoop state ancestorID rounds (state.inodes.lookup current.parentID)

/-- The walk up the parents, which a cycle makes endless. -/
def isDescendant (state : MemoryState) (candidateID ancestorID : InodeID) : StoreM Bool :=
  match isDescendantLoop state ancestorID state.inodes.size (state.inodes.lookup candidateID) with
  | some b => pure b
  | none => throw .diverges

/-- Any of the three places where a file names a node. -/
def fileHasNode (file : FileMetadata) (nodeID : NodeID) : Bool :=
  file.primaryNodeID = nodeID || file.secondaryNodeIDs.contains nodeID ||
    file.nodePlacements.any fun placements => (placements.lookup nodeID).isSome

def joinPath (parentPath name : String) : String :=
  if parentPath = "" ∨ parentPath = "/" then "/" ++ name
  else trimRightSlash parentPath ++ "/" ++ name

/-- `none` is the panic of the slice expression on a path without a slash. -/
def replaceBaseName (path name : String) : Option String :=
  if path = "/" then some path
  else (beforeLastSlash path).map fun parent => joinPath (if parent = "" then "/" else parent) name

/-- A negative offset counts as 0, and no limit as all. -/
def applyListWindow {T : Type} (items : List T) (limit offset : Int) : List T :=
  let start := offset.toNat
  if start ≥ items.length then []
  else
    let rest := items.drop start
    if limit ≤ 0 ∨ limit ≥ rest.length then rest else rest.take limit.toNat

end AstraStorage.Store
