import AstraStorage.Model.Store

/-!
# The in-memory repository: chunks, upload sessions and nodes

`internal/mds/store/memory_chunk.go`, `memory_upload.go` and `memory_node.go`.
-/

namespace AstraStorage.Store
open Lib

/-- The position check of `upsertChunks` against one other record. -/
def rejectTakenPosition (chunk existing : ChunkMetadata) : StoreM Unit :=
  if existing.fileID ≠ chunk.fileID ∨ existing.id = chunk.id then pure ()
  else do
    reject (existing.index = chunk.index) .alreadyExists "duplicate chunk index %d for file %q"
      [.number chunk.index, .text chunk.fileID]
    reject (existing.offset = chunk.offset) .alreadyExists "duplicate chunk offset %d for file %q"
      [.number chunk.offset, .text chunk.fileID]

/-- The first loop of `upsertChunks`: every chunk is checked against the stored ones and
against those accepted before it, and the last occurrence of an ID stays pending. -/
def pendingChunks : List ChunkMetadata → Records ChunkMetadata.id →
    StoreM (Records ChunkMetadata.id)
  | [], pending => pure pending
  | chunk :: rest, pending => do
    reject (chunk.id = "" ∨ chunk.fileID = "") .invalidArgument "chunk id and file id are required"
    let state ← get
    reject ((state.files.lookup chunk.fileID).isNone) .notFound "file %q" [.text chunk.fileID]
    reject (chunk.size < 0) .invalidArgument "chunk size cannot be negative"
    reject (chunk.size > fixedChunkSizeBytes) .invalidArgument "chunk size cannot exceed %d"
      [.number fixedChunkSizeBytes]
    reject (chunk.offset ≠ chunk.index * fixedChunkSizeBytes) .invalidArgument
      "chunk offset must equal index * chunk size"
    state.chunks.values.forM (rejectTakenPosition chunk)
    pending.values.forM (rejectTakenPosition chunk)
    pendingChunks rest (pending.put chunk)

/-- All chunks are checked before the first is written. -/
def upsertChunks (chunks : List ChunkMetadata) : StoreM Unit := do
  let pending ← pendingChunks chunks ∅
  pending.values.forM putChunk

def getChunk (selector : ChunkSelector) : StoreM ChunkMetadata := do
  expect (findChunk (← get) selector) .notFound "chunk"

/-- The chunks of a file in index order. -/
def chunksOfFile (state : MemoryState) (fileID : FileID) : List ChunkMetadata :=
  (state.chunks.values.filter (·.fileID = fileID)).insertionSort (·.index ≤ ·.index)

def listChunksByFile (fileID : FileID) : StoreM (List ChunkMetadata) := do
  return chunksOfFile (← get) fileID

structure ChunkStatusPatch where
  selector : ChunkSelector
  status : ChunkStatus
  checksum : Option Checksum := none
  lastErrorCode : String := ""
  verifiedAt : Option Time := none
  updatedAt : Time

/-- The chunk that `updateChunkStatus` stores. -/
def patchChunk (patch : ChunkStatusPatch) (chunk : ChunkMetadata) : ChunkMetadata :=
  { chunk with
    status := patch.status
    lastErrorCode := patch.lastErrorCode
    checksum := patch.checksum.getD chunk.checksum
    verifiedAt := patch.verifiedAt <|> chunk.verifiedAt
    updatedAt := patch.updatedAt }

def updateChunkStatus (patch : ChunkStatusPatch) : StoreM Unit := do
  let chunk ← expect (findChunk (← get) patch.selector) .notFound "chunk"
  putChunk (patchChunk patch chunk)

def deleteChunk (selector : ChunkSelector) : StoreM Unit := do
  let chunk ← expect (findChunk (← get) selector) .notFound "chunk"
  modify fun s => { s with chunks := s.chunks.erase chunk.id }

/-- The file must exist. -/
def createUploadSession (session : Option UploadSession) : StoreM Unit := do
  let session ← expect session .invalidArgument "session is nil"
  reject (session.id = "" ∨ session.fileID = "") .invalidArgument
    "session id and file id are required"
  let state ← get
  reject ((state.uploadSessions.lookup session.id).isSome) .alreadyExists "upload session id %q"
    [.text session.id]
  reject ((state.files.lookup session.fileID).isNone) .notFound "file %q" [.text session.fileID]
  let session := if session.chunkSize = 0 then { session with chunkSize := fixedChunkSizeBytes }
    else session
  reject (session.chunkSize ≠ fixedChunkSizeBytes) .invalidArgument "chunk size must be %d"
    [.number fixedChunkSizeBytes]
  putUploadSession session

def getUploadSession (sessionID : UploadSessionID) : StoreM UploadSession := do
  expect ((← get).uploadSessions.lookup sessionID) .notFound "upload session"

/-- The sessions of a file by creation time, all of them when no status is asked for. -/
def listUploadSessionsByFile (fileID : FileID) (status : Option UploadStatus) :
    StoreM (List UploadSession) := do
  let state ← get
  let sessions := state.uploadSessions.values.filter fun session =>
    session.fileID = fileID && status.all (session.status = ·)
  return sessions.insertionSort (·.createdAt ≤ ·.createdAt)

def uploadExpectedSize (state : MemoryState) (session : UploadSession) : Int64 :=
  if session.expectedSize > 0 then session.expectedSize
  else match state.files.lookup session.fileID with
    | none => 0
    | some file => if file.size > 0 then file.size else 0

/-- How far an upload has come. -/
structure UploadProgressPatch where
  sessionID : UploadSessionID
  status : UploadStatus
  confirmedOffset : Int64
  nextOffset : Int64
  lastPersistedChunkID : ChunkID
  expectedChecksum : Option Checksum := none
  verifiedChecksum : Option Checksum := none
  clearExpectedChecksum : Bool := false
  clearVerifiedChecksum : Bool := false
  transportAttributes : StringMap := none
  updatedAt : Time

/-- The session that `updateUploadProgress` stores. -/
def patchSession (progress : UploadProgressPatch) (session : UploadSession) : UploadSession :=
  { session with
    status := progress.status
    confirmedOffset := progress.confirmedOffset
    nextOffset := progress.nextOffset
    lastPersistedChunk := progress.lastPersistedChunkID
    expectedChecksum := progress.expectedChecksum <|>
      if progress.clearExpectedChecksum then none else session.expectedChecksum
    verifiedChecksum := progress.verifiedChecksum <|>
      if progress.clearVerifiedChecksum then none else session.verifiedChecksum
    transportAttributes := progress.transportAttributes <|> session.transportAttributes
    updatedAt := progress.updatedAt }

/-- A completed session makes no progress. -/
def updateUploadProgress (progress : UploadProgressPatch) : StoreM Unit := do
  let state ← get
  let session ← expect (state.uploadSessions.lookup progress.sessionID) .notFound "upload session"
  reject (session.status = .completed) .conflict "upload session %q is already completed"
    [.text session.id]
  reject (progress.confirmedOffset < 0 ∨ progress.nextOffset < 0 ∨
      progress.confirmedOffset > progress.nextOffset)
    .invalidArgument "invalid upload offsets"
  let expectedSize := uploadExpectedSize state session
  reject (expectedSize > 0 ∧ progress.nextOffset > expectedSize) .invalidArgument
    "next offset exceeds expected size"
  putUploadSession (patchSession progress session)

/-- What has failed, and whether it may be retried. -/
structure UploadFailureRecord where
  sessionID : UploadSessionID
  fileID : FileID
  chunkID : ChunkID
  failedOffset : Int64
  expectedChecksum : Option Checksum := none
  actualChecksum : Option Checksum := none
  errorCode : String
  errorMessage : String
  retryable : Bool
  attempt : Int
  maxAttempts : Int
  occurredAt : Time
  nextRetryAt : Option Time := none

/-- The session that `recordUploadFailure` stores. -/
def failSession (failure : UploadFailureRecord) (session : UploadSession) : UploadSession :=
  { session with
    status := if failure.retryable ∧ failure.attempt < failure.maxAttempts then .retrying
      else .failed
    retry := { session.retry with
      attempt := failure.attempt
      maxAttempts := failure.maxAttempts
      retryable := failure.retryable
      lastErrorCode := failure.errorCode
      lastErrorMessage := failure.errorMessage
      lastFailedOffset := failure.failedOffset
      lastFailedChunk := failure.chunkID
      nextRetryAt := failure.nextRetryAt <|> session.retry.nextRetryAt
      lastFailureAt := some failure.occurredAt }
    updatedAt := failure.occurredAt }

/-- No check of the session's current status is made here. -/
def recordUploadFailure (failure : UploadFailureRecord) : StoreM Unit := do
  let session ← expect ((← get).uploadSessions.lookup failure.sessionID) .notFound "upload session"
  putUploadSession (failSession failure session)

/-- The confirmed offset must be the expected size, if there is one. -/
def completeUploadSession (sessionID : UploadSessionID) (completedAt : Time) : StoreM Unit := do
  let state ← get
  let session ← expect (state.uploadSessions.lookup sessionID) .notFound "upload session"
  let expectedSize := uploadExpectedSize state session
  reject (expectedSize > 0 ∧ session.confirmedOffset ≠ expectedSize) .conflict
    "confirmed offset %d does not match expected size %d"
    [.number session.confirmedOffset, .number expectedSize]
  putUploadSession { session with
    status := .completed
    completedAt := some completedAt
    updatedAt := completedAt }

def deleteUploadSession (sessionID : UploadSessionID) : StoreM Unit := do
  reject (((← get).uploadSessions.lookup sessionID).isNone) .notFound "upload session"
  modify fun s => { s with uploadSessions := s.uploadSessions.erase sessionID }

/-- A node that exists is replaced. -/
def upsertNode (node : NodeInfo) : StoreM Unit := do
  reject (node.id = "") .invalidArgument "node id is required"
  reject (node.capacity < 0 ∨ node.used < 0) .invalidArgument
    "node capacity and used space cannot be negative"
  putNode node

def getNode (nodeID : NodeID) : StoreM NodeInfo := do
  expect ((← get).nodes.lookup nodeID) .notFound "node"

structure NodeHeartbeatPatch where
  nodeID : NodeID
  healthy : Bool
  capacity : Int64
  used : Int64
  lastSeenAt : Time

/-- Only a node that exists can report. -/
def updateNodeHeartbeat (heartbeat : NodeHeartbeatPatch) : StoreM Unit := do
  let node ← expect ((← get).nodes.lookup heartbeat.nodeID) .notFound "node"
  reject (heartbeat.capacity < 0 ∨ heartbeat.used < 0) .invalidArgument
    "node capacity and used space cannot be negative"
  putNode { node with
    healthy := heartbeat.healthy
    capacity := heartbeat.capacity
    used := heartbeat.used
    lastSeenAt := some heartbeat.lastSeenAt
    updatedAt := heartbeat.lastSeenAt }

end AstraStorage.Store
