import AstraStorage.Model.Service

/-!
# The metadata service: uploads

`internal/mds/service_upload.go`. An upload session is started, receives chunks, is
completed, and is verified or failed; a failed session may be retried.
-/

namespace AstraStorage.Service
open Lib Store

/-- A verified checksum has the time of its verification. -/
def checksumReady (checksum : Checksum) : Bool := checksum.verified && checksum.verifiedAt.isSome

def validateChecksumShape (checksum : Option Checksum) : StoreM Unit :=
  reject (checksum.any fun c => c.verified && c.verifiedAt.isNone) .invalidArgument
    "verified checksum requires verification time"

/-- The states that end a session. -/
def isTerminalUploadStatus (status : UploadStatus) : Bool :=
  status = .completed || status = .failed || status = .expired

/-- The replicas that are ready. -/
def healthyReplicaCount (replicas : ReplicaSet) : Int :=
  (replicas.elim [] Table.values).countP (·.state = .ready)

/-- The loop of `currentStoredSize`, in 64-bit arithmetic. -/
def maxChunkEnd (chunks : List ChunkMetadata) : Int64 :=
  chunks.foldl (fun storedSize chunk =>
    if chunk.offset + chunk.size > storedSize then chunk.offset + chunk.size else storedSize) 0

/-- The stored size is the largest end of a chunk. -/
def currentStoredSize (fileID : FileID) : StoreM Int64 := do
  return maxChunkEnd (← listChunksByFile fileID)

/-- A file has at most one session that is not terminal. -/
def ensureNoActiveUploadSession (fileID : FileID) : StoreM Unit := do
  let sessions ← listUploadSessionsByFile fileID none
  let active := sessions.find? fun session => isTerminalUploadStatus session.status = false
  reject active.isSome .conflict "file %q already has active upload session %q"
    [.text fileID, .text (active.elim "" (·.id))]

/-- The session's size comes before that of the file. -/
def expectedFileSize (file : FileMetadata) (session : UploadSession) : Int64 :=
  if session.expectedSize > 0 then session.expectedSize else file.size

/-- The coverage loop of `ensureFileReadyForVerification`; the result is the offset after
the last chunk. -/
def chunkCoverage (file : FileMetadata) : Int64 → List ChunkMetadata → StoreM Int64
  | nextOffset, [] => pure nextOffset
  | nextOffset, chunk :: rest => do
    reject (chunk.offset ≠ nextOffset) .conflict "chunk %q leaves a gap in file %q"
      [.text chunk.id, .text file.id]
    reject (rest ≠ [] ∧ chunk.size ≠ fixedChunkSizeBytes) .conflict
      "non-terminal chunk %q must have fixed size" [.text chunk.id]
    reject (chunk.status = .corrupted ∨ chunk.status = .failed) .conflict
      "chunk %q is not readable" [.text chunk.id]
    chunkCoverage file (nextOffset + chunk.size) rest

/-- The chunks must cover the expected size without a gap. -/
def ensureFileReadyForVerification (file : FileMetadata) (session : UploadSession)
    (storedSize : Int64) : StoreM Unit := do
  let chunks ← listChunksByFile file.id
  reject (chunks = []) .conflict "file %q has no chunks" [.text file.id]
  let expectedSize := expectedFileSize file session
  reject (storedSize ≠ expectedSize) .conflict "stored size %d does not match expected size %d"
    [.number storedSize, .number expectedSize]
  let nextOffset ← chunkCoverage file 0 chunks
  reject (nextOffset ≠ expectedSize) .conflict "chunk coverage %d does not match expected size %d"
    [.number nextOffset, .number expectedSize]

/-- At least one. -/
def requiredReplicas (file : FileMetadata) : Int :=
  if file.replicaPolicy.minimumReplicaCount < 1 then minimumReadableReplicaCount
  else file.replicaPolicy.minimumReplicaCount

/-- Each chunk needs a verified checksum and enough replicas. -/
def ensureFileReadyForAvailability (file : FileMetadata) (session : UploadSession)
    (storedSize : Int64) : StoreM Unit := do
  let chunks ← listChunksByFile file.id
  ensureFileReadyForVerification file session storedSize
  chunks.forM fun chunk => do
    reject (checksumReady chunk.checksum = false) .conflict "chunk %q checksum is not verified"
      [.text chunk.id]
    reject (healthyReplicaCount chunk.replicas < requiredReplicas file) .conflict
      "chunk %q does not satisfy minimum readable replicas" [.text chunk.id]

/-- That of the request comes first, then the session's. -/
def selectVerifiedFileChecksum (req : Option Checksum) (session : UploadSession) : Option Checksum :=
  req.filter checksumReady <|> session.verifiedChecksum.filter checksumReady

structure StartUploadRequest where
  sessionID : UploadSessionID
  fileID : FileID
  uploadKey : String := ""
  expectedSize : Int64 := 0
  expectedChecksum : Option Checksum := none
  clientMetadata : StringMap := none
  transportAttributes : StringMap := none
  expiresAt : Option Time := none
  createdAt : Time := 0

def validateStartUploadRequest (req : StartUploadRequest) : StoreM Unit := do
  reject (req.sessionID = "" ∨ req.fileID = "") .invalidArgument
    "session id and file id are required"
  reject (req.expectedSize < 0) .invalidArgument "expected size cannot be negative"

/-- The session of a new upload. -/
def startedSession (when : Time) (req : StartUploadRequest) : UploadSession where
  id := req.sessionID
  fileID := req.fileID
  uploadKey := req.uploadKey
  status := .pending
  expectedSize := req.expectedSize
  chunkSize := fixedChunkSizeBytes
  expectedChecksum := req.expectedChecksum
  createdAt := when
  updatedAt := when
  expiresAt := req.expiresAt
  clientMetadata := req.clientMetadata
  transportAttributes := req.transportAttributes

/-- The file becomes `uploading` and points to the session. -/
def startUpload (now : Time) (req : StartUploadRequest) : StoreM UploadSession := do
  validateStartUploadRequest req
  inTx do
    let file ← getFile { id := req.fileID }
    reject (file.status = .deleting ∨ file.status = .deleted) .conflict
      "file %q cannot start upload in status %q" [.text file.id, .text file.status.text]
    ensureNoActiveUploadSession file.id
    let when := requestTime now req.createdAt
    let session := startedSession when req
    createUploadSession (some session)
    updateFile {
      selector := { id := file.id }
      status := some .uploading
      size := some req.expectedSize
      latestUploadSessionID := some session.id
      updatedAt := when }
    return session

/-- A request to record a chunk that has been stored. -/
structure CommitChunkRequest where
  sessionID : UploadSessionID
  chunkID : ChunkID
  index : Int64 := 0
  offset : Int64 := 0
  size : Int64 := 0
  status : ChunkStatus := .other ""
  checksum : Option Checksum := none
  replicas : ReplicaSet := none
  replicaPolicy : Option ReplicaPolicy := none
  committedAt : Time := 0

def validateCommitChunkRequest (req : CommitChunkRequest) : StoreM Unit := do
  reject (req.sessionID = "" ∨ req.chunkID = "") .invalidArgument
    "session id and chunk id are required"
  reject (req.index < 0 ∨ req.offset < 0 ∨ req.size < 0) .invalidArgument
    "chunk index, offset and size must be non-negative"
  validateChecksumShape req.checksum

/-- One round of the loop of `normalizeChunkReplicas`: missing identities are filled in,
wrong ones are refused. -/
def normalizeReplica (fileID : FileID) (chunkID : ChunkID) (nodeID : NodeID)
    (replica : ReplicaMetadata) : StoreM ReplicaMetadata := do
  reject (nodeID = "") .invalidArgument "replica node id is required"
  let replica := { replica with nodeID := if replica.nodeID = "" then nodeID else replica.nodeID }
  reject (replica.nodeID ≠ nodeID) .invalidArgument "replica node id %q does not match key %q"
    [.text replica.nodeID, .text nodeID]
  let replica := { replica with fileID := if replica.fileID = "" then fileID else replica.fileID }
  reject (replica.fileID ≠ fileID) .invalidArgument "replica file id %q does not match file %q"
    [.text replica.fileID, .text fileID]
  let replica := { replica with chunkID := if replica.chunkID = "" then chunkID else replica.chunkID }
  reject (replica.chunkID ≠ chunkID) .invalidArgument "replica chunk id %q does not match chunk %q"
    [.text replica.chunkID, .text chunkID]
  return { replica with id := if replica.id = "" then chunkID ++ "@" ++ nodeID else replica.id }

def normalizeReplicas (fileID : FileID) (chunkID : ChunkID) :
    List (Sigma fun _ : NodeID => ReplicaMetadata) → Table NodeID ReplicaMetadata →
    StoreM (Table NodeID ReplicaMetadata)
  | [], normalized => pure normalized
  | ⟨nodeID, replica⟩ :: rest, normalized => do
    let replica ← normalizeReplica fileID chunkID nodeID replica
    normalizeReplicas fileID chunkID rest (normalized.insert nodeID replica)

/-- Replicas without ids get those of the chunk. -/
def normalizeChunkReplicas (replicas : ReplicaSet) (fileID : FileID) (chunkID : ChunkID) :
    StoreM ReplicaSet :=
  match replicas with
  | none => pure none
  | some replicas => do return some (← normalizeReplicas fileID chunkID replicas.entries ∅)

/-- The chunk that a commit stores. -/
def committedChunk (when : Time) (req : CommitChunkRequest) (session : UploadSession)
    (file : FileMetadata) (replicas : ReplicaSet) : ChunkMetadata where
  id := req.chunkID
  fileID := session.fileID
  index := req.index
  offset := req.offset
  size := req.size
  status := if req.status = .other "" then .persisted else req.status
  checksum := req.checksum.getD {}
  replicaPolicy := req.replicaPolicy.getD file.replicaPolicy
  replicaCount := (replicas.elim 0 Table.size : Nat)
  replicas := replicas
  createdAt := when
  updatedAt := when

/-- Chunk, session and file are written in one transaction. -/
def commitChunk (now : Time) (req : CommitChunkRequest) : StoreM ChunkMetadata := do
  validateCommitChunkRequest req
  inTx do
    let session ← getUploadSession req.sessionID
    reject (session.status = .completed) .conflict "upload session %q is already completed"
      [.text session.id]
    let file ← getFile { id := session.fileID }
    reject (file.latestUploadSessionID ≠ "" ∧ file.latestUploadSessionID ≠ session.id) .conflict
      "upload session %q is not the latest session for file %q" [.text session.id, .text file.id]
    let replicas ← normalizeChunkReplicas req.replicas file.id req.chunkID
    let when := requestTime now req.committedAt
    upsertChunks [committedChunk when req session file replicas]
    let confirmedOffset := req.offset + req.size
    updateUploadProgress {
      sessionID := session.id
      status := .active
      confirmedOffset := confirmedOffset
      nextOffset := confirmedOffset
      lastPersistedChunkID := req.chunkID
      updatedAt := when }
    let storedSize ← currentStoredSize session.fileID
    updateFile {
      selector := { id := file.id }
      status := some .uploading
      storedSize := some storedSize
      updatedAt := when }
    getChunk { id := req.chunkID }

/-- The status, checksum and verification time that a call stamps on a chunk it keeps. -/
def restamp (status : ChunkStatus) (lastErrorCode : String) (when : Time) (chunk : ChunkMetadata) :
    ChunkStatusPatch where
  selector := { id := chunk.id }
  status := status
  checksum := some chunk.checksum
  lastErrorCode := lastErrorCode
  verifiedAt := chunk.checksum.verifiedAt
  updatedAt := when

structure CompleteUploadRequest where
  sessionID : UploadSessionID
  finalChecksum : Option Checksum := none
  expectedStatuses : List FileStatus := []
  completedAt : Time := 0

def validateCompleteUploadRequest (req : CompleteUploadRequest) : StoreM Unit := do
  reject (req.sessionID = "") .invalidArgument "session id is required"
  validateChecksumShape req.finalChecksum

/-- The `ExpectedStatuses` gate of the four closing calls. -/
def rejectFileStatus (expected : List FileStatus) (file : FileMetadata) (format : String) :
    StoreM Unit :=
  reject (expected ≠ [] ∧ file.status ∉ expected) .conflict format
    [.text file.id, .text file.status.text]

/-- The session waits for its verification. -/
def completeUpload (now : Time) (req : CompleteUploadRequest) : StoreM FileMetadata := do
  validateCompleteUploadRequest req
  inTx do
    let session ← getUploadSession req.sessionID
    let file ← getFile { id := session.fileID }
    rejectFileStatus req.expectedStatuses file "file %q status %q is not allowed for completion"
    let when := requestTime now req.completedAt
    let storedSize ← currentStoredSize file.id
    ensureFileReadyForVerification file session storedSize
    updateUploadProgress {
      sessionID := session.id
      status := .verifying
      confirmedOffset := session.confirmedOffset
      nextOffset := session.nextOffset
      lastPersistedChunkID := session.lastPersistedChunk
      verifiedChecksum := req.finalChecksum.filter checksumReady
      expectedChecksum := req.finalChecksum.filter (checksumReady · = false)
      updatedAt := when }
    let chunks ← listChunksByFile file.id
    chunks.forM fun chunk => updateChunkStatus (restamp .verifying "" when chunk)
    updateFile {
      selector := { id := file.id }
      status := some .verifying
      size := some (expectedFileSize file session)
      storedSize := some storedSize
      checksum := req.finalChecksum.filter checksumReady
      updatedAt := when }
    getFile { id := file.id }

structure VerifyUploadRequest where
  sessionID : UploadSessionID
  verifiedChecksum : Option Checksum := none
  expectedStatuses : List FileStatus := []
  verifiedAt : Time := 0

def validateVerifyUploadRequest (req : VerifyUploadRequest) : StoreM Unit := do
  reject (req.sessionID = "") .invalidArgument "session id is required"
  reject (req.verifiedChecksum.any (checksumReady · = false)) .invalidArgument
    "verified checksum must be marked verified before finalize"

/-- The digest is not compared with the one that was expected. -/
def verifyUpload (now : Time) (req : VerifyUploadRequest) : StoreM FileMetadata := do
  validateVerifyUploadRequest req
  inTx do
    let session ← getUploadSession req.sessionID
    let file ← getFile { id := session.fileID }
    rejectFileStatus req.expectedStatuses file "file %q status %q is not allowed for verification"
    let when := requestTime now req.verifiedAt
    let storedSize ← currentStoredSize file.id
    ensureFileReadyForAvailability file session storedSize
    let checksum ← expect (selectVerifiedFileChecksum req.verifiedChecksum session) .conflict
      "file %q is missing a verified checksum" [.text file.id]
    if req.verifiedChecksum.isSome then
      updateUploadProgress {
        sessionID := session.id
        status := .verifying
        confirmedOffset := session.confirmedOffset
        nextOffset := session.nextOffset
        lastPersistedChunkID := session.lastPersistedChunk
        verifiedChecksum := req.verifiedChecksum
        updatedAt := when }
    completeUploadSession session.id when
    let chunks ← listChunksByFile file.id
    chunks.forM fun chunk => updateChunkStatus (restamp .available "" when chunk)
    updateFile {
      selector := { id := file.id }
      status := some .available
      size := some (expectedFileSize file session)
      storedSize := some storedSize
      completedAt := some when
      checksum := some checksum
      updatedAt := when }
    getFile { id := file.id }

/-- A report that the verification has failed. -/
structure FailUploadVerificationRequest where
  sessionID : UploadSessionID
  chunkID : ChunkID := ""
  actualChecksum : Option Checksum := none
  expectedStatuses : List FileStatus := []
  errorCode : String
  errorMessage : String := ""
  retryable : Bool := false
  attempt : Int := 0
  maxAttempts : Int
  failedAt : Time := 0
  nextRetryAt : Option Time := none

def validateFailUploadVerificationRequest (req : FailUploadVerificationRequest) : StoreM Unit := do
  reject (req.sessionID = "") .invalidArgument "session id is required"
  reject (req.errorCode = "") .invalidArgument "error code is required"
  reject (req.attempt < 0) .invalidArgument "attempt cannot be negative"
  reject (req.maxAttempts ≤ 0) .invalidArgument "max attempts must be positive"
  validateChecksumShape req.actualChecksum

/-- The offset of the chunk that the request blames, 0 without one. -/
def failedChunkOffset (req : FailUploadVerificationRequest) (file : FileMetadata) : StoreM Int64 :=
  if req.chunkID = "" then pure 0
  else do
    let chunk ← getChunk { id := req.chunkID }
    reject (chunk.fileID ≠ file.id) .conflict "chunk %q does not belong to file %q"
      [.text chunk.id, .text file.id]
    return chunk.offset

/-- The session fails, or may be retried from the failed offset. -/
def failUploadVerification (now : Time) (req : FailUploadVerificationRequest) :
    StoreM FileMetadata := do
  validateFailUploadVerificationRequest req
  inTx do
    let session ← getUploadSession req.sessionID
    let file ← getFile { id := session.fileID }
    rejectFileStatus req.expectedStatuses file
      "file %q status %q is not allowed for verification failure"
    let when := requestTime now req.failedAt
    let chunks ← listChunksByFile file.id
    let failedOffset ← failedChunkOffset req file
    recordUploadFailure {
      sessionID := session.id
      fileID := file.id
      chunkID := req.chunkID
      failedOffset := failedOffset
      expectedChecksum := session.expectedChecksum
      actualChecksum := req.actualChecksum
      errorCode := req.errorCode
      errorMessage := req.errorMessage
      retryable := req.retryable
      attempt := req.attempt
      maxAttempts := req.maxAttempts
      occurredAt := when
      nextRetryAt := req.nextRetryAt }
    chunks.forM fun chunk =>
      -- the blamed chunk takes the checksum the verifier found, if it sent one
      let checksum := if chunk.id = req.chunkID then req.actualChecksum.getD chunk.checksum
        else chunk.checksum
      updateChunkStatus (restamp .failed req.errorCode when { chunk with checksum := checksum })
    let storedSize ← currentStoredSize file.id
    updateFile {
      selector := { id := file.id }
      status := some .failed
      storedSize := some storedSize
      checksum := some {}
      updatedAt := when }
    getFile { id := file.id }

structure RetryUploadRequest where
  sessionID : UploadSessionID
  expectedStatuses : List FileStatus := []
  retriedAt : Time := 0

/-- The chunk loop of `RetryUpload`: chunks before the restart offset are kept, the others
are deleted. The result is the last chunk kept. -/
def reopenChunks (restartOffset : Int64) (when : Time) : ChunkID → List ChunkMetadata → StoreM ChunkID
  | lastPersistedChunk, [] => pure lastPersistedChunk
  | lastPersistedChunk, chunk :: rest => do
    if chunk.offset < restartOffset then
      updateChunkStatus (restamp .persisted "" when chunk)
      reopenChunks restartOffset when chunk.id rest
    else
      deleteChunk { id := chunk.id }
      reopenChunks restartOffset when lastPersistedChunk rest

/-- The chunks from the failed offset on are deleted. -/
def retryUpload (now : Time) (req : RetryUploadRequest) : StoreM FileMetadata := do
  reject (req.sessionID = "") .invalidArgument "session id is required"
  inTx do
    let session ← getUploadSession req.sessionID
    let file ← getFile { id := session.fileID }
    rejectFileStatus req.expectedStatuses file "file %q status %q is not allowed for retry"
    reject (session.status ≠ .retrying) .conflict "upload session %q status %q is not retrying"
      [.text session.id, .text session.status.text]
    let when := requestTime now req.retriedAt
    let restartOffset := session.retry.lastFailedOffset
    let chunks ← listChunksByFile file.id
    let lastPersistedChunk ← reopenChunks restartOffset when "" chunks
    let storedSize ← currentStoredSize file.id
    updateUploadProgress {
      sessionID := session.id
      status := .active
      confirmedOffset := restartOffset
      nextOffset := restartOffset
      lastPersistedChunkID := lastPersistedChunk
      clearVerifiedChecksum := true
      updatedAt := when }
    updateFile {
      selector := { id := file.id }
      status := some .uploading
      storedSize := some storedSize
      checksum := some {}
      updatedAt := when }
    getFile { id := file.id }

end AstraStorage.Service
