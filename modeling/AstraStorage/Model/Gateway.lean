import AstraStorage.Model.Datanode
import AstraStorage.Model.Download
import AstraStorage.Model.ServiceUpload

/-!
# The gateway

The upload and download handlers of `internal/gateway/http.go`, over the calls of
`internal/gateway/client.go`. Which effects the calls have is left to the client. The SHA-256 of
some bytes, in hexadecimal, is a parameter. Bodies are bytes; their base64 text and the routing of
paths are left out.
-/

namespace AstraStorage.Gateway
open Lib Store Service

abbrev Bytes := List UInt8

/-- An error of an upstream call: a status of the metadata service, or any other failure. -/
inductive UpstreamError where
  | mds (fault : Fault)
  | text (text : String)

structure ReplicaWriteResult where
  nodeID : NodeID
  state : ReplicaState

/-- The calls on the metadata service and on the datanodes. `getChunk` is told which node the
address belongs to. -/
structure UpstreamClient (m : Type → Type) where
  createFile : CreateFileRequest → m (Except UpstreamError FileMetadata)
  startUpload : StartUploadRequest → m (Except UpstreamError UploadSession)
  allocateUploadTargets : AllocateUploadTargetsRequest → m (Except UpstreamError (List UploadTarget))
  commitChunk : CommitChunkRequest → m (Except UpstreamError ChunkMetadata)
  completeUpload : CompleteUploadRequest → m (Except UpstreamError FileMetadata)
  verifyUpload : VerifyUploadRequest → m (Except UpstreamError FileMetadata)
  buildDownloadPlan : FileID → m (Except UpstreamError DownloadPlan)
  getNode : NodeID → m (Except UpstreamError NodeInfo)
  putChunk : String → ChunkID → FileID → Checksum → Bytes → m (Except UpstreamError Unit)
  replicateChunk : String → ChunkID → List UploadTarget →
    m (Except UpstreamError (List ReplicaWriteResult))
  getChunk : NodeID → String → ChunkID → m (Except UpstreamError Bytes)

structure UploadedChunk where
  chunkID : ChunkID
  index : Int64
  offset : Int64
  size : Int64
  nodeID : NodeID
  nodeAddress : String
  checksum : Checksum

structure UploadResponse where
  fileID : FileID
  sessionID : UploadSessionID
  chunkID : ChunkID
  nodeID : NodeID
  nodeAddress : String
  size : Int64
  checksum : Checksum
  chunkCount : Int
  chunks : List UploadedChunk

/-- An error, the answer to an upload, or that to a download: the `Content-Length`, if it is set,
and the bytes sent for each chunk. -/
inductive Response where
  | error (status : Nat) (code : String) (message : UpstreamError)
  | created (response : UploadResponse)
  | data (contentLength : Option Int64) (sent : List Bytes)

section Handlers

variable {m : Type → Type} [Monad m]

/-- A handler ends early with the response that it throws. -/
abbrev HandlerM (m : Type → Type) := ExceptT Response m

/-- A handler that fails has answered with its error. -/
def HandlerM.respond (x : HandlerM m Response) : m Response := do
  match ← x.run with
  | .ok response => return response
  | .error response => return response

def writeError {α : Type} (status : Nat) (code message : String) : HandlerM m α :=
  throw (.error status code (.text message))

/-- `if c { writeError(...); return }`. -/
def refuse (c : Prop) [Decidable c] (status : Nat) (code message : String) : HandlerM m Unit :=
  if c then writeError status code message else pure ()

/-- An upstream call, whose failure is answered with status 502. -/
def upstream {α : Type} (code : String) (x : m (Except UpstreamError α)) : HandlerM m α :=
  ExceptT.mk do
    match ← x with
    | .ok a => return .ok a
    | .error err => return .error (.error 502 code err)

/-! ### Downloads -/

/-- The preferred node first, and each node once. -/
def orderedCandidateNodeIDs (chunk : DownloadChunkPlan) : List NodeID :=
  let candidates := if chunk.preferredNodeID ≠ "" then [chunk.preferredNodeID] else []
  chunk.candidateNodeIDs.foldl (fun candidates nodeID =>
    if candidates.contains nodeID then candidates else candidates ++ [nodeID]) candidates

/-- The loop of `fetchChunkFromCandidates`. -/
def tryCandidates (client : UpstreamClient m) (chunkID : ChunkID) :
    Option UpstreamError → List NodeID → m (Except UpstreamError Bytes)
  | lastErr, [] =>
    return .error (lastErr.getD (.text ("all candidate nodes failed for chunk " ++ chunkID.quote)))
  | _, nodeID :: rest => do
    match ← client.getNode nodeID with
    | .error err => tryCandidates client chunkID (some err) rest
    | .ok node =>
      if trimSpace node.address = "" then
        tryCandidates client chunkID
          (some (.text ("node " ++ nodeID.quote ++ " has no address"))) rest
      else
        match ← client.getChunk nodeID node.address chunkID with
        | .error err => tryCandidates client chunkID (some err) rest
        | .ok data => return .ok data

/-- The first candidate that answers decides. -/
def fetchChunkFromCandidates (client : UpstreamClient m) (chunk : DownloadChunkPlan) :
    m (Except UpstreamError Bytes) :=
  match orderedCandidateNodeIDs chunk with
  | [] =>
    return .error (.text ("download chunk " ++ chunk.chunkID.quote ++ " has no candidate nodes"))
  | candidates => tryCandidates client chunk.chunkID none candidates

/-- The bytes sent for each chunk. The writer takes nothing that goes beyond the `Content-Length`,
and the handler stops at its error. -/
def writeChunks (contentLength : Option Int64) : Nat → List Bytes → List Bytes
  | _, [] => []
  | written, data :: rest =>
    if contentLength.any fun length => ((written + data.length : Nat) : Int) > length.toInt then
      (data :: rest).map fun _ => []
    else data :: writeChunks contentLength (written + data.length) rest

/-- `GET /downloads/fileID`. -/
def handleDownloads (client : UpstreamClient m) (fileID : FileID) : HandlerM m Response := do
  refuse (trimSpace fileID = "" ∨ '/' ∈ fileID.toList) 404 "not_found"
    "download endpoint not found"
  let plan ← upstream "mds_error" (client.buildDownloadPlan fileID)
  refuse (plan.chunks = []) 404 "not_found" "download plan has no chunks"
  let chunks ← plan.chunks.mapM fun chunk =>
    upstream "datanode_error" (fetchChunkFromCandidates client chunk)
  let contentLength := if plan.size > 0 then some plan.size else none
  return .data contentLength (writeChunks contentLength 0 chunks)

/-! ### Uploads -/

/-- The form of an upload, whose ids may be missing. -/
structure UploadRequest where
  inodeID : InodeID := ""
  fileID : FileID := ""
  parentID : InodeID := ""
  name : String
  content : Bytes
  contentType : String := ""
  storageClass : String := ""
  sessionID : UploadSessionID := ""
  chunkID : ChunkID := ""

/-- An id that a client leaves out is made from the clock. -/
def generateID (kind : String) (now : Time) : String :=
  kind ++ "-" ++ toString (unixNano now).toInt

/-- The request with its defaults. -/
def UploadRequest.withDefaults (req : UploadRequest) (now : Time) : UploadRequest :=
  { req with
    parentID := if req.parentID = "" then rootInodeID else req.parentID
    inodeID := if req.inodeID = "" then generateID "inode" now else req.inodeID
    fileID := if req.fileID = "" then generateID "file" now else req.fileID
    sessionID := if req.sessionID = "" then generateID "session" now else req.sessionID
    chunkID := if req.chunkID = "" then generateID "chunk" now else req.chunkID }

def chunkBytes : Nat := 4194304

/-- The last chunk may be shorter. -/
def chunkCount (size : Nat) : Nat :=
  if size % chunkBytes ≠ 0 then size / chunkBytes + 1 else size / chunkBytes

/-- A single chunk keeps the id of the request. -/
def chunkIDForIndex (baseID : ChunkID) (index totalChunks : Nat) : ChunkID :=
  if totalChunks ≤ 1 then baseID else baseID ++ "-" ++ toString index

def replicaID (chunkID : ChunkID) (nodeID : NodeID) : String := chunkID ++ "@" ++ nodeID

section Uploads

variable (sha256 : Bytes → String) (now : Time) (client : UpstreamClient m)

/-- The gateway marks the digest it has computed as verified. -/
def checksumForBytes (data : Bytes) : Checksum where
  algorithm := "sha256"
  value := sha256 data
  verified := true
  verifiedAt := some now

/-- One entry of `buildChunkReplicas`. -/
def chunkReplica (fileID : FileID) (chunkID : ChunkID) (checksum : Checksum) (size : Int64)
    (nodeID : NodeID) (role : ReplicaRole) (state : ReplicaState) : ReplicaMetadata where
  id := replicaID chunkID nodeID
  fileID := fileID
  chunkID := chunkID
  nodeID := nodeID
  role := role
  state := state
  checksum := checksum
  storedSize := if state = .ready then size else 0
  createdAt := now
  updatedAt := now
  verifiedAt := if state = .ready then some now else none

/-- The state that the results give to a secondary target; the last result of a node counts. -/
def secondaryState (results : List ReplicaWriteResult) (nodeID : NodeID) : ReplicaState :=
  match results.reverse.find? (·.nodeID = nodeID) with
  | some result => if result.state = .other "" then .pending else result.state
  | none => .pending

/-- One record for the primary and one for each secondary. -/
def buildChunkReplicas (fileID : FileID) (chunkID : ChunkID) (primary : UploadTarget)
    (secondaryTargets : List UploadTarget) (results : List ReplicaWriteResult)
    (checksum : Checksum) (size : Int64) : Table NodeID ReplicaMetadata :=
  secondaryTargets.foldl (fun replicas target =>
      replicas.insert target.nodeID (chunkReplica now fileID chunkID checksum size target.nodeID
        .secondary (secondaryState results target.nodeID)))
    ((∅ : Table NodeID ReplicaMetadata).insert primary.nodeID
      (chunkReplica now fileID chunkID checksum size primary.nodeID .primary .ready))

/-- One round of the chunk loop. -/
def uploadChunk (req : UploadRequest) (chunkIndex offset : Nat) : HandlerM m UploadedChunk := do
  let chunkData := (req.content.drop offset).take chunkBytes
  let chunkID := chunkIDForIndex req.chunkID chunkIndex (chunkCount req.content.length)
  let chunkChecksum := checksumForBytes sha256 now chunkData
  let index := Int64.ofNat chunkIndex
  let size := Int64.ofNat chunkData.length
  match ← upstream "mds_error"
      (client.allocateUploadTargets { fileID := req.fileID, chunkIndex := index }) with
  | [] => writeError 502 "mds_error" "mds returned no upload targets"
  | target :: replicaTargets =>
    upstream "datanode_error"
      (client.putChunk target.address chunkID req.fileID chunkChecksum chunkData)
    let results ← if replicaTargets = [] then pure []
      else upstream "datanode_error" (client.replicateChunk target.address chunkID replicaTargets)
    let _ ← upstream "mds_error" (client.commitChunk {
      sessionID := req.sessionID
      chunkID := chunkID
      index := index
      offset := Int64.ofNat offset
      size := size
      checksum := some chunkChecksum
      replicas := some (buildChunkReplicas now req.fileID chunkID target replicaTargets results
        chunkChecksum size)
      committedAt := now })
    return {
      chunkID := chunkID
      index := index
      offset := Int64.ofNat offset
      size := size
      nodeID := target.nodeID
      nodeAddress := target.address
      checksum := chunkChecksum }

/-- The chunk loop. There are never more rounds than bytes. -/
def uploadChunks (req : UploadRequest) : (rounds chunkIndex offset : Nat) →
    HandlerM m (List UploadedChunk)
  | 0, _, _ => return []
  | rounds + 1, chunkIndex, offset => do
    if offset < req.content.length then
      let uploaded ← uploadChunk sha256 now client req chunkIndex offset
      let rest ← uploadChunks req rounds (chunkIndex + 1) (offset + chunkBytes)
      return uploaded :: rest
    else return []

/-- `POST /uploads`. -/
def handleUploads (request : UploadRequest) : HandlerM m Response := do
  refuse (request.content = []) 400 "invalid_argument" "content_base64 is required"
  refuse (trimSpace request.name = "") 400 "invalid_argument" "file name is required"
  let req := request.withDefaults now
  let contentSize := Int64.ofNat req.content.length
  let fileChecksum := checksumForBytes sha256 now req.content
  let _ ← upstream "mds_error" (client.createFile {
    inodeID := req.inodeID
    fileID := req.fileID
    parentID := req.parentID
    name := req.name
    size := contentSize
    contentType := req.contentType
    storageClass := req.storageClass
    createdAt := now })
  let _ ← upstream "mds_error" (client.startUpload {
    sessionID := req.sessionID
    fileID := req.fileID
    expectedSize := contentSize
    expectedChecksum := some fileChecksum
    createdAt := now })
  let uploadedChunks ← uploadChunks sha256 now client req req.content.length 0 0
  let _ ← upstream "mds_error" (client.completeUpload {
    sessionID := req.sessionID
    finalChecksum := some fileChecksum
    expectedStatuses := [.uploading]
    completedAt := now })
  let _ ← upstream "mds_error" (client.verifyUpload {
    sessionID := req.sessionID
    verifiedChecksum := some fileChecksum
    expectedStatuses := [.verifying]
    verifiedAt := now })
  let first := uploadedChunks.head?
  return .created {
    fileID := req.fileID
    sessionID := req.sessionID
    chunkID := first.elim "" (·.chunkID)
    nodeID := first.elim "" (·.nodeID)
    nodeAddress := first.elim "" (·.nodeAddress)
    size := contentSize
    checksum := fileChecksum
    chunkCount := uploadedChunks.length
    chunks := uploadedChunks }

end Uploads

end Handlers

/-! ### The metadata service and the datanodes behind the client -/

/-- What the datanodes answer, and what it makes of their contents. -/
structure Datanodes (δ : Type) where
  putChunk : String → ChunkID → FileID → Bytes → δ → Except UpstreamError Unit × δ
  replicateChunk : String → ChunkID → List UploadTarget → δ →
    Except UpstreamError (List ReplicaWriteResult) × δ
  getChunk : NodeID → String → ChunkID → δ → Except UpstreamError Bytes × δ

section Cluster

variable {δ : Type}

/-- The repository of the metadata service, and the datanodes. -/
abbrev ClusterM (δ : Type) := StateM (MemoryState × δ)

/-- A remote call on the metadata service without a read cache. -/
def callMDS {α : Type} (x : StoreM α) : ClusterM δ (Except UpstreamError α) := fun (s, d) =>
  match x s with
  | .ok a t => (.ok a, (t, d))
  | .error e t => (.error (.mds e), (t, d))

/-- A call of a datanode leaves the metadata alone. -/
def callDatanode {α : Type} (x : δ → Except UpstreamError α × δ) :
    ClusterM δ (Except UpstreamError α) := fun (s, d) =>
  match x d with
  | (reply, d') => (reply, (s, d'))

/-- The client of a gateway whose metadata service reads the clock at `now`. -/
def Datanodes.client (datanodes : Datanodes δ) (now : Time) : UpstreamClient (ClusterM δ) where
  createFile req := callMDS (Service.createFile now req)
  startUpload req := callMDS (Service.startUpload now req)
  allocateUploadTargets req := callMDS (Service.allocateUploadTargets req)
  commitChunk req := callMDS (Service.commitChunk now req)
  completeUpload req := callMDS (Service.completeUpload now req)
  verifyUpload req := callMDS (Service.verifyUpload now req)
  buildDownloadPlan fileID := callMDS (Service.buildDownloadPlan fileID)
  getNode nodeID := callMDS (Store.getNode nodeID)
  putChunk address chunkID fileID _ data :=
    callDatanode (datanodes.putChunk address chunkID fileID data)
  replicateChunk address chunkID targets :=
    callDatanode (datanodes.replicateChunk address chunkID targets)
  getChunk nodeID address chunkID := callDatanode (datanodes.getChunk nodeID address chunkID)

/-! ### Requests to datanodes -/

/-- The bytes of a string. -/
def utf8 (s : String) : Bytes := s.toUTF8.data.toList

/-- The control characters of ASCII. -/
def isControl (b : UInt8) : Bool := b < 32 || b = 127

/-- A value that `net/http` sends in a header. -/
def isHeaderValue (s : String) : Bool := (utf8 s).all fun b => !isControl b || b = 9

/-- The path of the URL that `PutChunk` and `GetChunk` build, unless `url.Parse` refuses it. The
address of a datanode is taken to be a scheme and a host. -/
def chunkPath (chunkID : ChunkID) : Option Bytes := do
  let (url, fragment) := (Datanode.chunkTarget (utf8 chunkID)).span (· ≠ Datanode.byte '#')
  if url.any isControl then none
  else
    let _ ← Datanode.percentDecode fragment
    Datanode.urlPath url

/-- The chunk ID that `handleChunk` finds. The mux of `net/http` redirects `.` and `..` to paths
without a handler. Other redirects, of IDs with slashes, are left out: here they are refused. -/
def routedChunk (path : Bytes) : Option Bytes :=
  (Datanode.handleChunk path).filter fun id => id ∉ [Datanode.ascii ".", Datanode.ascii ".."]

/-- The chunk arrives under its own ID. -/
def arrives (chunkID : ChunkID) : Bool := (chunkPath chunkID).bind routedChunk = some (utf8 chunkID)

/-- A request for a chunk, and what the handler answers that is told the ID. -/
def chunkCall {α : Type} (operation : String) (chunkID : ChunkID)
    (handler : Bytes → δ → Except UpstreamError α × δ) (d : δ) : Except UpstreamError α × δ :=
  match chunkPath chunkID with
  | none => (.error (.text ("gateway client: build " ++ operation ++ " request")), d)
  | some path =>
    match routedChunk path with
    | none => (.error (.text ("gateway client: " ++ operation ++ " returned status 404")), d)
    | some id => handler id d

/-- What the handlers of the datanodes answer, by base URL. `putChunk` is told the `X-File-ID`. -/
structure ChunkServers (δ : Type) where
  putChunk : String → Bytes → FileID → Bytes → δ → Except UpstreamError Unit × δ
  replicateChunk : String → Bytes → List UploadTarget → δ →
    Except UpstreamError (List ReplicaWriteResult) × δ
  getChunk : String → Bytes → δ → Except UpstreamError Bytes × δ

/-- The datanodes behind the requests of the client. The checksum headers, hexadecimal digits, are
left out. -/
def ChunkServers.datanodes (servers : ChunkServers δ) : Datanodes δ where
  putChunk address chunkID fileID data := chunkCall "put chunk" chunkID fun id d =>
    if isHeaderValue fileID then servers.putChunk (trimRightSlash address) id fileID data d
    else (.error (.text ("gateway client: put chunk to " ++ address)), d)
  replicateChunk address chunkID :=
    servers.replicateChunk (trimRightSlash address) (utf8 chunkID)
  getChunk _ address chunkID :=
    chunkCall "get chunk" chunkID (servers.getChunk (trimRightSlash address))

end Cluster

end AstraStorage.Gateway
