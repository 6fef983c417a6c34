import AstraStorage.Model.Store

/-!
# The in-memory repository: inodes and files

`internal/mds/store/memory_inode.go` and `memory_file.go`.
-/

namespace AstraStorage.Store
open Lib

/-- Root created once, any other inode under an existing directory, no name twice in one
directory, no `FileID` on a directory. -/
def createInode (inode : Option InodeMetadata) : StoreM Unit := do
  let inode ← expect inode .invalidArgument "inode is nil"
  reject (inode.id = "") .invalidArgument "inode id is required"
  reject (inode.name = "" ∧ inode.id ≠ rootInodeID) .invalidArgument "inode name is required"
  reject (inode.type ≠ .directory ∧ inode.type ≠ .file) .invalidArgument "inode type is required"
  let state ← get
  reject ((state.inodes.lookup inode.id).isSome) .alreadyExists "inode id %q" [.text inode.id]
  if inode.id = rootInodeID then
    reject (inode.parentID ≠ "") .invalidArgument "root inode cannot have a parent"
    reject (state.inodes.values.any (·.id = rootInodeID)) .alreadyExists "root inode already exists"
  else
    let parent ← expect (state.inodes.lookup inode.parentID) .notFound "parent inode %q"
      [.text inode.parentID]
    reject (parent.type ≠ .directory) .invalidArgument "parent inode %q is not a directory"
      [.text inode.parentID]
  reject (nameTaken state inode.parentID inode.name inode.id) .alreadyExists
    "duplicate name %q under parent %q" [.text inode.name, .text inode.parentID]
  putInode (if inode.type = .directory then { inode with fileID := "" } else inode)

def getInode (selector : InodeSelector) : StoreM InodeMetadata := do
  expect (findInode (← get) selector) .notFound "inode"

/-- The window of a listing. -/
structure ListOptions where
  limit : Int := 0
  offset : Int := 0

def entryOf (inode : InodeMetadata) : DirectoryEntry :=
  { parentID := inode.parentID, childID := inode.id, name := inode.name, type := inode.type,
    createdAt := inode.createdAt, updatedAt := inode.updatedAt }

/-- The children of a directory by name. -/
def entriesOf (state : MemoryState) (parentID : InodeID) : List DirectoryEntry :=
  ((state.inodes.values.filter fun inode =>
    inode.parentID = parentID && inode.status ≠ .deleted).map entryOf).insertionSort
      (·.name ≤ ·.name)

/-- Deleted children are left out. -/
def listChildren (parentID : InodeID) (opts : ListOptions) : StoreM (List DirectoryEntry) := do
  reject (parentID = "") .invalidArgument "parent id is required"
  let state ← get
  reject ((state.inodes.lookup parentID).isNone) .notFound "parent inode %q" [.text parentID]
  return applyListWindow (entriesOf state parentID) opts.limit opts.offset

/-- Fields that are `none` stay. -/
structure InodePatch where
  selector : InodeSelector
  path : Option String := none
  name : Option String := none
  parentID : Option InodeID := none
  status : Option InodeStatus := none
  size : Option Int64 := none
  permissions : Option UInt32 := none
  owner : Option String := none
  group : Option String := none
  linkCount : Option Int64 := none
  generation : Option Int64 := none
  accessedAt : Option Time := none
  updatedAt : Time

/-- A new name is looked for under the old parent. -/
def updateInode (patch : InodePatch) : StoreM Unit := do
  let state ← get
  let inode ← expect (findInode state patch.selector) .notFound "inode"
  reject (patch.name.any fun name =>
      name ≠ inode.name && nameTaken state inode.parentID name inode.id)
    .alreadyExists "duplicate name %q under parent %q"
    [.text (patch.name.getD ""), .text inode.parentID]
  putInode { inode with
    path := patch.path.getD inode.path
    name := patch.name.getD inode.name
    parentID := patch.parentID.getD inode.parentID
    status := patch.status.getD inode.status
    size := patch.size.getD inode.size
    permissions := patch.permissions.getD inode.permissions
    owner := patch.owner.getD inode.owner
    group := patch.group.getD inode.group
    linkCount := patch.linkCount.getD inode.linkCount
    generation := patch.generation.getD inode.generation
    accessedAt := patch.accessedAt <|> inode.accessedAt
    updatedAt := patch.updatedAt }

structure MoveInodeOperation where
  selector : InodeSelector
  targetParentID : InodeID
  targetParentPath : String
  newName : String
  expectedType : Option InodeType := none
  updatedAt : Time

/-- The target must not lie below the inode. -/
def moveInode (op : MoveInodeOperation) : StoreM Unit := do
  let state ← get
  let inode ← expect (findInode state op.selector) .notFound "inode"
  reject (inode.status = .deleting ∨ inode.status = .deleted) .conflict "inode %q cannot be moved"
    [.text inode.id]
  reject (op.expectedType.any (inode.type ≠ ·)) .conflict "inode type mismatch"
  let parent ← expect (state.inodes.lookup op.targetParentID) .notFound "parent inode %q"
    [.text op.targetParentID]
  reject (parent.type ≠ .directory) .invalidArgument "target parent must be a directory"
  reject (inode.id = op.targetParentID) .invalidArgument "inode cannot be its own parent"
  if inode.type = .directory then
    let below ← isDescendant state op.targetParentID inode.id
    reject (below = true) .invalidArgument "cannot move directory into its descendant"
  let newName := if op.newName = "" then inode.name else op.newName
  reject (nameTaken state op.targetParentID newName inode.id) .alreadyExists
    "duplicate name %q under parent %q" [.text newName, .text op.targetParentID]
  putInode { inode with
    parentID := op.targetParentID
    name := newName
    path := joinPath op.targetParentPath newName
    updatedAt := op.updatedAt }

structure RenameInodeOperation where
  selector : InodeSelector
  newName : String
  expectedType : Option InodeType := none
  updatedAt : Time

/-- The name must be free in the same directory. -/
def renameInode (op : RenameInodeOperation) : StoreM Unit := do
  let state ← get
  let inode ← expect (findInode state op.selector) .notFound "inode"
  reject (inode.status = .deleting ∨ inode.status = .deleted) .conflict "inode %q cannot be renamed"
    [.text inode.id]
  reject (op.expectedType.any (inode.type ≠ ·)) .conflict "inode type mismatch"
  reject (op.newName = "") .invalidArgument "new name is required"
  reject (nameTaken state inode.parentID op.newName inode.id) .alreadyExists
    "duplicate name %q under parent %q" [.text op.newName, .text inode.parentID]
  -- the name is written before the path is computed, so a panic would leave it changed
  putInode { inode with name := op.newName }
  match replaceBaseName inode.path op.newName with
  | none => throw .panics
  | some path => putInode { inode with name := op.newName, path := path, updatedAt := op.updatedAt }

/-- An inode with children stays. -/
def deleteInode (selector : InodeSelector) : StoreM Unit := do
  let state ← get
  let inode ← expect (findInode state selector) .notFound "inode"
  reject (state.inodes.values.any fun child => child.parentID = inode.id && child.status ≠ .deleted)
    .conflict "inode %q has children" [.text inode.id]
  modify fun s => { s with inodes := s.inodes.erase inode.id }

structure UpdateSubtreePathsOperation where
  rootID : InodeID
  oldPrefix : String
  newPrefix : String
  updatedAt : Time

/-- Only descendants change, though other paths may share the prefix. -/
def updateSubtreePaths (op : UpdateSubtreePathsOperation) : StoreM Unit := do
  reject (op.rootID = "") .invalidArgument "root id is required"
  let root ← expect ((← get).inodes.lookup op.rootID) .notFound "root inode %q" [.text op.rootID]
  (← get).inodes.values.forM fun inode => do
    if inode.id = root.id ∨ hasPrefix inode.path op.oldPrefix = false then return
    if ← isDescendant (← get) inode.id root.id then
      putInode { inode with
        path := op.newPrefix ++ trimPrefix inode.path op.oldPrefix
        updatedAt := op.updatedAt }

/-- An inode has at most one file. -/
def createFile (file : Option FileMetadata) : StoreM Unit := do
  let file ← expect file .invalidArgument "file is nil"
  reject (file.id = "" ∨ file.inodeID = "") .invalidArgument "file id and inode id are required"
  let state ← get
  reject ((state.files.lookup file.id).isSome) .alreadyExists "file id %q" [.text file.id]
  let existing := state.files.values.find? (·.inodeID = file.inodeID)
  reject existing.isSome .alreadyExists "inode %q already has file %q"
    [.text file.inodeID, .text (existing.elim "" (·.id))]
  let inode ← expect (state.inodes.lookup file.inodeID) .notFound "inode %q" [.text file.inodeID]
  reject (inode.type ≠ .file) .invalidArgument "inode %q is not a file" [.text inode.id]
  let file := if file.chunkSize = 0 then { file with chunkSize := fixedChunkSizeBytes } else file
  reject (file.chunkSize ≠ fixedChunkSizeBytes) .invalidArgument "chunk size must be %d"
    [.number fixedChunkSizeBytes]
  putFile file

def getFile (selector : FileSelector) : StoreM FileMetadata := do
  expect (findFile (← get) selector) .notFound "file"

structure FileFilter where
  «namespace» : String := ""
  parentInodeID : InodeID := ""
  pathPrefix : String := ""
  status : List FileStatus := []
  nodeID : NodeID := ""
  limit : Int := 0
  offset : Int := 0

/-- The files by path. -/
def listFiles (filter : FileFilter) : StoreM (List FileMetadata) := do
  let state ← get
  let files := state.files.values.filter fun file =>
    (filter.namespace = "" || file.namespace = filter.namespace) &&
    (filter.parentInodeID = "" || file.parentInodeID = filter.parentInodeID) &&
    (filter.pathPrefix = "" || hasPrefix file.path filter.pathPrefix) &&
    (filter.status.isEmpty || filter.status.contains file.status) &&
    (filter.nodeID = "" || fileHasNode file filter.nodeID)
  return applyListWindow (files.insertionSort (·.path ≤ ·.path)) filter.limit filter.offset

structure FilePatch where
  selector : FileSelector
  parentInodeID : Option InodeID := none
  path : Option String := none
  name : Option String := none
  size : Option Int64 := none
  storedSize : Option Int64 := none
  chunkSize : Option Int64 := none
  version : Option Int64 := none
  status : Option FileStatus := none
  primaryNodeID : Option NodeID := none
  secondaryNodeIDs : Option (List NodeID) := none
  latestUploadSessionID : Option UploadSessionID := none
  checksum : Option Checksum := none
  replicaPolicy : Option ReplicaPolicy := none
  userMetadata : StringMap := none
  tags : StringMap := none
  completedAt : Option Time := none
  updatedAt : Time

/-- The fields that `updateFile` writes before it checks the chunk size. -/
def partlyUpdated (patch : FilePatch) (file : FileMetadata) : FileMetadata :=
  { file with
    size := patch.size.getD file.size
    parentInodeID := patch.parentInodeID.getD file.parentInodeID
    path := patch.path.getD file.path
    name := patch.name.getD file.name
    storedSize := patch.storedSize.getD file.storedSize }

/-- All fields of the patch. -/
def patchFile (patch : FilePatch) (file : FileMetadata) : FileMetadata :=
  { partlyUpdated patch file with
    chunkSize := patch.chunkSize.getD file.chunkSize
    version := patch.version.getD file.version
    status := patch.status.getD file.status
    primaryNodeID := patch.primaryNodeID.getD file.primaryNodeID
    secondaryNodeIDs := patch.secondaryNodeIDs.getD file.secondaryNodeIDs
    latestUploadSessionID := patch.latestUploadSessionID.getD file.latestUploadSessionID
    checksum := patch.checksum.getD file.checksum
    replicaPolicy := patch.replicaPolicy.getD file.replicaPolicy
    userMetadata := patch.userMetadata <|> file.userMetadata
    tags := patch.tags <|> file.tags
    completedAt := patch.completedAt <|> file.completedAt
    updatedAt := patch.updatedAt }

/-- The chunk size is checked after some of the fields have been written. -/
def updateFile (patch : FilePatch) : StoreM Unit := do
  let state ← get
  let file ← expect (findFile state patch.selector) .notFound "file"
  putFile (partlyUpdated patch file)
  reject (patch.chunkSize.any (· ≠ fixedChunkSizeBytes)) .invalidArgument "chunk size must be %d"
    [.number fixedChunkSizeBytes]
  putFile (patchFile patch file)

structure FilePlacementPatch where
  selector : FileSelector
  upserts : NodePlacements := none
  removeNodeIDs : List NodeID := []
  expectedStatus : List FileStatus := []
  updatedAt : Time

/-- Removals come after insertions. -/
def updateFilePlacements (patch : FilePlacementPatch) : StoreM Unit := do
  let file ← expect (findFile (← get) patch.selector) .notFound "file"
  reject (patch.expectedStatus.length > 0 ∧ file.status ∉ patch.expectedStatus) .conflict
    "file status mismatch"
  let upserted := (patch.upserts.getD ∅).entries.foldl
    (fun placements (e : Sigma fun _ => NodePlacement) => placements.insert e.1 e.2)
    (file.nodePlacements.getD ∅)
  let placements := patch.removeNodeIDs.foldl
    (fun placements nodeID => placements.erase nodeID) upserted
  putFile { file with nodePlacements := some placements, updatedAt := patch.updatedAt }

def deleteFile (selector : FileSelector) : StoreM Unit := do
  let file ← expect (findFile (← get) selector) .notFound "file"
  modify fun s => { s with files := s.files.erase file.id }

end AstraStorage.Store
