import AstraStorage.Model.StoreNamespace
import AstraStorage.Model.StoreUpload

/-!
# The metadata service: directories, files, rename, move and delete

`internal/mds/service_directory.go`, `service_file.go`, `service_helpers.go`,
`service_mutation.go`, the node calls of `service_node.go`, and `ensureRootInode` of
`cmd/mds/app.go`. Each call validates its request and runs one transaction; `now` is what
`time.Now()` would return during the call. No read cache is attached.
-/

namespace AstraStorage.Service
open Store

/-- A time that a request leaves out is the clock's. -/
def requestTime (now t : Time) : Time := if t = 0 then now else t

def childPath (parentPath name : String) : String :=
  if parentPath = "" ∨ parentPath = "/" then "/" ++ name
  else trimRightSlash parentPath ++ "/" ++ name

structure CreateDirectoryRequest where
  inodeID : InodeID
  parentID : InodeID
  name : String
  permissions : UInt32 := 0
  owner : String := ""
  group : String := ""
  createdAt : Time := 0

def validateCreateDirectoryRequest (req : CreateDirectoryRequest) : StoreM Unit := do
  reject (req.inodeID = "" ∨ req.parentID = "") .invalidArgument
    "inode id and parent id are required"
  reject (trimSpace req.name = "") .invalidArgument "directory name is required"

def createDirectory (now : Time) (req : CreateDirectoryRequest) : StoreM InodeMetadata := do
  validateCreateDirectoryRequest req
  inTx do
    let parent ← getInode { id := req.parentID }
    reject (parent.type ≠ .directory) .invalidArgument "parent inode %q is not a directory"
      [.text parent.id]
    let when := requestTime now req.createdAt
    let inode : InodeMetadata := {
      id := req.inodeID
      parentID := req.parentID
      name := req.name
      path := childPath parent.path req.name
      type := .directory
      status := .active
      permissions := req.permissions
      owner := req.owner
      group := req.group
      linkCount := 1
      generation := 1
      createdAt := when
      updatedAt := when }
    createInode (some inode)
    return inode

structure CreateFileRequest where
  inodeID : InodeID
  fileID : FileID
  parentID : InodeID
  name : String
  size : Int64 := 0
  contentType : String := ""
  storageClass : String := ""
  userMetadata : StringMap := none
  tags : StringMap := none
  replicaPolicy : Option ReplicaPolicy := none
  createdAt : Time := 0

def validateCreateFileRequest (req : CreateFileRequest) : StoreM Unit := do
  reject (req.inodeID = "" ∨ req.fileID = "" ∨ req.parentID = "") .invalidArgument
    "inode id, file id and parent id are required"
  reject (trimSpace req.name = "") .invalidArgument "file name is required"
  reject (req.size < 0) .invalidArgument "file size cannot be negative"

/-- Inode and file are created in one transaction. -/
def createFile (now : Time) (req : CreateFileRequest) : StoreM FileMetadata := do
  validateCreateFileRequest req
  inTx do
    let parent ← getInode { id := req.parentID }
    reject (parent.type ≠ .directory) .invalidArgument "parent inode %q is not a directory"
      [.text parent.id]
    let when := requestTime now req.createdAt
    let path := childPath parent.path req.name
    createInode (some {
      id := req.inodeID
      parentID := req.parentID
      fileID := req.fileID
      name := req.name
      path := path
      type := .file
      status := .active
      size := req.size
      linkCount := 1
      generation := 1
      createdAt := when
      updatedAt := when })
    let file : FileMetadata := {
      id := req.fileID
      inodeID := req.inodeID
      parentInodeID := req.parentID
      path := path
      name := req.name
      size := req.size
      chunkSize := fixedChunkSizeBytes
      status := .pending
      contentType := req.contentType
      storageClass := req.storageClass
      userMetadata := req.userMetadata
      tags := req.tags
      createdAt := when
      updatedAt := when
      replicaPolicy := req.replicaPolicy.getD
        { desiredReplicaCount := defaultReplicaCount
          minimumReplicaCount := minimumReadableReplicaCount } }
    Store.createFile (some file)
    return file

/-- The path itself or one below it. -/
def pathWithinPrefix (path pre : String) : Bool :=
  path = pre ||
    if pre = "/" then hasPrefix path "/" else hasPrefix path (trimRightSlash pre ++ "/")

/-- A path that is not below the prefix stays. -/
def replacePathPrefix (path oldPrefix newPrefix : String) : String :=
  if path = oldPrefix then newPrefix
  else
    let trimmed := trimRightSlash oldPrefix
    let trimmedOldPrefix := if trimmed = "" then "/" else trimmed
    if hasPrefix path (trimmedOldPrefix ++ "/") = false then path
    else trimRightSlash newPrefix ++ trimPrefix path trimmedOldPrefix

def syncFileForInode (inode : InodeMetadata) (when : Time) : StoreM Unit := do
  let file ← getFile { inodeID := inode.id }
  updateFile {
    selector := { id := file.id }
    parentInodeID := some inode.parentID
    path := some inode.path
    name := some inode.name
    updatedAt := when }

/-- The file records follow the path of the directory. -/
def syncFilesUnderDirectoryPath (oldPrefix newPrefix : String) (when : Time) : StoreM Unit := do
  let files ← listFiles { pathPrefix := oldPrefix }
  files.forM fun file => do
    if pathWithinPrefix file.path oldPrefix = false then return
    let updatedPath := replacePathPrefix file.path oldPrefix newPrefix
    if updatedPath = file.path then return
    updateFile { selector := { id := file.id }, path := some updatedPath, updatedAt := when }

def syncInodeMutation (before after : InodeMetadata) (oldPath : String) (when : Time) : StoreM Unit :=
  if before.type = .file then syncFileForInode after when
  else do
    updateSubtreePaths
      { rootID := after.id, oldPrefix := oldPath, newPrefix := after.path, updatedAt := when }
    syncFilesUnderDirectoryPath oldPath after.path when

structure RenameInodeRequest where
  inodeID : InodeID
  newName : String
  updatedAt : Time := 0

def validateRenameInodeRequest (req : RenameInodeRequest) : StoreM Unit := do
  reject (req.inodeID = "") .invalidArgument "inode id is required"
  reject (trimSpace req.newName = "") .invalidArgument "new name is required"

/-- Inode, subtree and files change in one transaction. -/
def renameInode (now : Time) (req : RenameInodeRequest) : StoreM InodeMetadata := do
  validateRenameInodeRequest req
  inTx do
    let inode ← getInode { id := req.inodeID }
    let when := requestTime now req.updatedAt
    Store.renameInode { selector := { id := req.inodeID }, newName := req.newName, updatedAt := when }
    let updated ← getInode { id := req.inodeID }
    syncInodeMutation inode updated inode.path when
    return updated

structure MoveInodeRequest where
  inodeID : InodeID
  targetParentID : InodeID
  newName : String := ""
  updatedAt : Time := 0

def validateMoveInodeRequest (req : MoveInodeRequest) : StoreM Unit :=
  reject (req.inodeID = "" ∨ req.targetParentID = "") .invalidArgument
    "inode id and target parent id are required"

/-- The target must be a directory. -/
def moveInode (now : Time) (req : MoveInodeRequest) : StoreM InodeMetadata := do
  validateMoveInodeRequest req
  inTx do
    let inode ← getInode { id := req.inodeID }
    let targetParent ← getInode { id := req.targetParentID }
    reject (targetParent.type ≠ .directory) .invalidArgument
      "target parent inode %q is not a directory" [.text targetParent.id]
    let when := requestTime now req.updatedAt
    Store.moveInode {
      selector := { id := req.inodeID }
      targetParentID := req.targetParentID
      targetParentPath := targetParent.path
      newName := req.newName
      updatedAt := when }
    let updated ← getInode { id := req.inodeID }
    syncInodeMutation inode updated inode.path when
    return updated

/-- Sessions and chunks of the file first, then the file, then its inode. -/
def deleteFileCascade (fileID : FileID) : StoreM Unit := do
  let file ← getFile { id := fileID }
  let sessions ← listUploadSessionsByFile file.id none
  sessions.forM fun session => deleteUploadSession session.id
  let chunks ← listChunksByFile file.id
  chunks.forM fun chunk => deleteChunk { id := chunk.id }
  Store.deleteFile { id := file.id }
  deleteInode { id := file.inodeID }

/-- The recursion goes one level down the tree at each call, so a depth beyond the number
of inodes means that it never comes back. -/
def deleteDirectoryRecursive : Nat → InodeID → StoreM Unit
  | 0, _ => throw .diverges
  | depth + 1, inodeID => do
    let children ← listChildren inodeID {}
    children.forM fun child => do
      if child.type = .directory then deleteDirectoryRecursive depth child.childID
      else
        let file ← getFile { inodeID := child.childID }
        deleteFileCascade file.id
    deleteInode { id := inodeID }

structure DeleteFileRequest where
  fileID : FileID

/-- The file goes with its chunks, sessions and inode. -/
def deleteFile (req : DeleteFileRequest) : StoreM Unit := do
  reject (req.fileID = "") .invalidArgument "file id is required"
  inTx do
    let _ ← getFile { id := req.fileID }
    deleteFileCascade req.fileID

structure DeleteDirectoryRequest where
  inodeID : InodeID
  recursive : Bool

/-- The root cannot be deleted. -/
def deleteDirectory (req : DeleteDirectoryRequest) : StoreM Unit := do
  reject (req.inodeID = "") .invalidArgument "inode id is required"
  inTx do
    let inode ← getInode { id := req.inodeID }
    reject (inode.type ≠ .directory) .invalidArgument "inode %q is not a directory" [.text inode.id]
    reject (inode.id = rootInodeID) .invalidArgument "root directory cannot be deleted"
    if req.recursive = false then deleteInode { id := inode.id }
    else deleteDirectoryRecursive ((← get).inodes.size + 1) inode.id

structure RegisterNodeRequest where
  id : NodeID
  address : String
  rack : String := ""
  zone : String := ""
  region : String := ""
  labels : StringMap := none
  capacity : Int64
  used : Int64
  healthy : Bool
  lastSeenAt : Option Time := none
  updatedAt : Time := 0

/-- A node without a capacity may use any space. -/
def validateNodeSpace (capacity used : Int64) : StoreM Unit := do
  reject (capacity < 0 ∨ used < 0) .invalidArgument "node capacity and used space cannot be negative"
  reject (capacity > 0 ∧ used > capacity) .invalidArgument "node used space cannot exceed capacity"

/-- A node that registers again replaces its record. -/
def registerNode (now : Time) (req : RegisterNodeRequest) : StoreM NodeInfo := do
  reject (req.id = "") .invalidArgument "node id is required"
  reject (trimSpace req.address = "") .invalidArgument "node address is required"
  validateNodeSpace req.capacity req.used
  inTx do
    let updatedAt := requestTime now req.updatedAt
    upsertNode {
      id := req.id
      address := trimSpace req.address
      rack := trimSpace req.rack
      zone := trimSpace req.zone
      region := trimSpace req.region
      labels := req.labels
      capacity := req.capacity
      used := req.used
      healthy := req.healthy
      lastSeenAt := some (req.lastSeenAt.getD updatedAt)
      updatedAt := updatedAt }
    getNode req.id

structure HeartbeatNodeRequest where
  nodeID : NodeID
  healthy : Bool
  capacity : Int64
  used : Int64
  lastSeenAt : Time := 0

/-- Only a registered node can report. -/
def heartbeatNode (now : Time) (req : HeartbeatNodeRequest) : StoreM NodeInfo := do
  reject (req.nodeID = "") .invalidArgument "node id is required"
  validateNodeSpace req.capacity req.used
  inTx do
    updateNodeHeartbeat {
      nodeID := req.nodeID
      healthy := req.healthy
      capacity := req.capacity
      used := req.used
      lastSeenAt := requestTime now req.lastSeenAt }
    getNode req.nodeID

def rootInode (now : Time) : InodeMetadata where
  id := rootInodeID
  path := "/"
  type := .directory
  status := .active
  linkCount := 1
  generation := 1
  createdAt := now
  updatedAt := now

/-- `ensureRootInode`: an existing root is kept, a missing one is created. -/
def ensureRootInode (now : Time) : StoreM Unit := do
  if (findInode (← get) { id := rootInodeID }).isSome then return
  try
    createInode (some (rootInode now))
  catch
    | .error ⟨.alreadyExists, _, _⟩ => pure ()
    | fault => throw fault

end AstraStorage.Service
