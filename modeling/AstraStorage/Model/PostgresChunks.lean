import AstraStorage.Model.Allocator
import AstraStorage.Model.Postgres
import AstraStorage.Model.StorePlans

/-!
# The Postgres repository: chunks

`internal/platform/postgres/repository/chunk.go` on the tables of `001_init_mds.sql`. Every
statement is committed by itself, and fails where the schema makes it fail: at a foreign key, a
unique index, a number that an `INTEGER` column cannot hold, or a NUL character in a text.
-/

namespace AstraStorage.Postgres
open Lib
open Store (ChunkSelector ChunkStatusPatch ChunkReplicaPatch ErrorKind ErrorArg)

/-! ### The tables -/

/-- A row of `mds_chunks`. -/
structure ChunkRow where
  id : ChunkID
  fileID : FileID
  chunkIndex : Int64
  chunkOffset : Int64
  size : Int64
  status : ChunkStatus
  version : Int64
  checksum : Checksum
  replicaPolicy : ReplicaPolicy
  replicaCount : Int
  createdAt : Time
  updatedAt : Time
  verifiedAt : Option Time
  lastErrorCode : String
  deriving DecidableEq

/-- The index `mds_chunk_replicas_chunk_node_uq`. A row of `mds_chunk_replicas` has a column for
each field of a replica. -/
def replicaKey (row : ReplicaMetadata) : ChunkID × NodeID := (row.chunkID, row.nodeID)

structure ChunkTables where
  files : Records FileMetadata.id := ∅
  nodes : Records NodeInfo.id := ∅
  chunks : Records ChunkRow.id := ∅
  replicas : Records replicaKey := ∅

abbrev ChunkM := EStateM TxError ChunkTables

/-- What a `TIMESTAMPTZ` column keeps of a time: whole microseconds. -/
def timestamptz (t : Time) : Time := t - t % 1000

/-- Times are rounded to what the column holds. -/
def storedChecksum (checksum : Checksum) : Checksum :=
  { checksum with verifiedAt := checksum.verifiedAt.map timestamptz }

/-- The range of an `INTEGER` column. -/
def FitsInteger (n : Int) : Prop := -2147483648 ≤ n ∧ n ≤ 2147483647

instance (n : Int) : Decidable (FitsInteger n) :=
  inferInstanceAs (Decidable (-2147483648 ≤ n ∧ n ≤ 2147483647))

/-- The counts fit INTEGER columns. -/
def FitsColumns (policy : ReplicaPolicy) (replicaCount : Int) : Prop :=
  FitsInteger policy.desiredReplicaCount ∧ FitsInteger policy.minimumReplicaCount ∧
    FitsInteger policy.currentReplicaCount ∧ FitsInteger replicaCount

instance (policy : ReplicaPolicy) (n : Int) : Decidable (FitsColumns policy n) :=
  inferInstanceAs (Decidable (_ ∧ _ ∧ _ ∧ _))

/-! ### The statements -/

/-- A statement fails with `e`, which `translateExecError` turns into the call's error. -/
def failWith (c : Prop) [Decidable c] (e : DatabaseError) : ChunkM Unit :=
  if c then throw (translateExecError (.database e)) else pure ()

/-- `if c { return fmt.Errorf(...) }`. -/
def rejectCall (c : Prop) [Decidable c] (kind : ErrorKind) (format : String)
    (args : List ErrorArg := []) : ChunkM Unit :=
  if c then throw (.store ⟨kind, format, args⟩) else pure ()

/-- A `TEXT` value. -/
def IsText (s : String) : Prop := '\x00' ∉ s.toList

instance (s : String) : Decidable (IsText s) := inferInstanceAs (Decidable (_ ∉ _))

/-- A statement gets these texts as parameters. -/
def sendTexts (texts : List String) : ChunkM Unit :=
  failWith (∃ s ∈ texts, ¬IsText s) (.other "invalid byte sequence for encoding \"UTF8\": 0x00")

/-- The texts of a status and a checksum, without the words that the code itself uses. -/
def statusTexts (status : ChunkStatus) (checksum : Checksum) : List String :=
  checksum.algorithm :: checksum.value :: match status with
  | .other text => [text]
  | _ => []

def ChunkRow.texts (row : ChunkRow) : List String :=
  row.id :: row.fileID :: row.lastErrorCode :: statusTexts row.status row.checksum

def replicaTexts (row : ReplicaMetadata) : List String :=
  [row.id, row.fileID, row.chunkID, row.nodeID, row.checksum.algorithm, row.checksum.value] ++
    (match row.role with | .other text => [text] | _ => []) ++
    match row.state with | .other text => [text] | _ => []

/-- `INSERT INTO mds_chunks ... ON CONFLICT (id) DO UPDATE`. -/
def insertChunk (row : ChunkRow) : ChunkM Unit := do
  sendTexts row.texts
  failWith (¬FitsColumns row.replicaPolicy row.replicaCount) (.other "value out of range for int4")
  let tables ← get
  failWith (∃ other ∈ tables.chunks.values, other.id ≠ row.id ∧ other.fileID = row.fileID ∧
    other.chunkIndex = row.chunkIndex) (.uniqueViolation "mds_chunks_file_index_uq")
  failWith ((tables.files.lookup row.fileID).isNone) (.foreignKeyViolation "mds_chunks_file_fk")
  set { tables with chunks := tables.chunks.put row }

/-- `INSERT INTO mds_nodes (id, updated_at) ... ON CONFLICT (id) DO NOTHING`. -/
def insertNode (nodeID : NodeID) (updatedAt : Time) : ChunkM Unit := do
  sendTexts [nodeID]
  modify fun tables =>
    if (tables.nodes.lookup nodeID).isSome then tables
    else { tables with
      nodes := tables.nodes.put { id := nodeID, updatedAt := timestamptz updatedAt } }

/-- `INSERT INTO mds_chunk_replicas ... ON CONFLICT (chunk_id, node_id) DO UPDATE`. -/
def insertReplica (row : ReplicaMetadata) : ChunkM Unit := do
  sendTexts (replicaTexts row)
  let tables ← get
  failWith (∃ other ∈ tables.replicas.values, replicaKey other ≠ replicaKey row ∧
    other.id = row.id) (.uniqueViolation "mds_chunk_replicas_pkey")
  failWith ((tables.chunks.lookup row.chunkID).isNone)
    (.foreignKeyViolation "mds_chunk_replicas_chunk_fk")
  failWith ((tables.nodes.lookup row.nodeID).isNone)
    (.foreignKeyViolation "mds_chunk_replicas_node_fk")
  set { tables with replicas := tables.replicas.put row }

def deleteReplica (chunkID : ChunkID) (nodeID : NodeID) : ChunkM Unit := do
  sendTexts [nodeID]
  modify fun tables => { tables with replicas := tables.replicas.erase (chunkID, nodeID) }

/-- `SELECT COUNT(*) FROM mds_chunk_replicas WHERE chunk_id = $1`. -/
def countReplicas (chunkID : ChunkID) : ChunkM Int := do
  return ((← get).replicas.values.filter (·.chunkID = chunkID)).length

/-- `UPDATE mds_chunks SET ... WHERE id = $n`. -/
def updateChunkRow (chunkID : ChunkID) (assign : ChunkRow → ChunkRow) : ChunkM Unit :=
  modify fun tables =>
    match tables.chunks.lookup chunkID with
    | none => tables
    | some row => { tables with chunks := tables.chunks.put (assign row) }

/-- `DELETE FROM mds_chunks WHERE id = $1`; the replicas go with it, `ON DELETE CASCADE`. -/
def deleteChunkRow (chunkID : ChunkID) : ChunkM Unit :=
  modify fun tables => { tables with
    chunks := tables.chunks.erase chunkID
    replicas := tables.replicas.filter (·.chunkID ≠ chunkID) }

/-! ### The repository -/

/-- The arguments of the `INSERT` of `upsertChunks`. -/
def chunkRow (chunk : ChunkMetadata) : ChunkRow where
  id := chunk.id
  fileID := chunk.fileID
  chunkIndex := chunk.index
  chunkOffset := chunk.offset
  size := chunk.size
  status := chunk.status
  version := chunk.version
  checksum := storedChecksum chunk.checksum
  replicaPolicy := chunk.replicaPolicy
  replicaCount := chunk.replicaCount
  createdAt := timestamptz chunk.createdAt
  updatedAt := timestamptz chunk.updatedAt
  verifiedAt := chunk.verifiedAt.map timestamptz
  lastErrorCode := chunk.lastErrorCode

def scanChunk (row : ChunkRow) : ChunkMetadata where
  id := row.id
  fileID := row.fileID
  index := row.chunkIndex
  offset := row.chunkOffset
  size := row.size
  status := row.status
  version := row.version
  checksum := row.checksum
  replicaPolicy := row.replicaPolicy
  replicaCount := row.replicaCount
  createdAt := row.createdAt
  updatedAt := row.updatedAt
  verifiedAt := row.verifiedAt
  lastErrorCode := row.lastErrorCode

/-- The arguments of the `INSERT` of `updateChunkReplicas`: chunk and node are not the replica's
own. -/
def replicaRow (chunkID : ChunkID) (nodeID : NodeID) (replica : ReplicaMetadata) :
    ReplicaMetadata :=
  { replica with
    chunkID := chunkID
    nodeID := nodeID
    checksum := storedChecksum replica.checksum
    createdAt := timestamptz replica.createdAt
    updatedAt := timestamptz replica.updatedAt
    verifiedAt := replica.verifiedAt.map timestamptz }

/-- The rows of a chunk in the order of their nodes. -/
def replicaRows (tables : ChunkTables) (chunkID : ChunkID) : List ReplicaMetadata :=
  (tables.replicas.values.filter (·.chunkID = chunkID)).insertionSort (·.nodeID ≤ ·.nodeID)

/-- The replicas are read by a second query. -/
def loadChunkReplicas (tables : ChunkTables) (chunk : ChunkMetadata) : ChunkMetadata :=
  { chunk with
    replicas := (replicaRows tables chunk.id).foldl
      (fun replicas row => some ((replicas.getD ∅).insert row.nodeID row)) chunk.replicas }

/-- The `WHERE` clause of `buildChunkSelectorWhere`. -/
def selectedChunk (selector : ChunkSelector) (row : ChunkRow) : Bool :=
  (selector.id = "" || row.id = selector.id) &&
  (selector.fileID = "" || row.fileID = selector.fileID) &&
  selector.index.all (row.chunkIndex = ·)

/-- An empty selector is refused, which the memory store does not do. -/
def getChunk (selector : ChunkSelector) : ChunkM ChunkMetadata := do
  rejectCall (selector.id = "" ∧ selector.fileID = "" ∧ selector.index = none) .invalidArgument
    "chunk selector is empty"
  sendTexts [selector.id, selector.fileID]
  let tables ← get
  match tables.chunks.values.find? (selectedChunk selector) with
  | none => throw (.store ⟨.notFound, "chunk", []⟩)
  | some row => return loadChunkReplicas tables (scanChunk row)

def listChunksByFile (fileID : FileID) : ChunkM (List ChunkMetadata) := do
  sendTexts [fileID]
  let tables ← get
  let rows := (tables.chunks.values.filter (·.fileID = fileID)).insertionSort
    (·.chunkIndex ≤ ·.chunkIndex)
  return rows.map fun row => loadChunkReplicas tables (scanChunk row)

def chunkColumns : List String :=
  ["id", "file_id", "chunk_index", "chunk_offset", "size", "status", "version",
    "checksum_algorithm", "checksum_value", "checksum_verified", "checksum_verified_at",
    "desired_replica_count", "minimum_replica_count", "current_replica_count", "replica_count",
    "created_at", "updated_at", "verified_at", "last_error_code"]

/-- The columns that the schema gives `mds_chunk_replicas`; those of `mds_chunks` are
`chunkColumns`. -/
def replicaColumns : List String :=
  ["id", "file_id", "chunk_id", "node_id", "role", "state", "checksum_algorithm",
    "checksum_value", "checksum_verified", "checksum_verified_at", "stored_size", "created_at",
    "updated_at", "verified_at"]

/-- A column stands in the select list without the alias `c` of its table, and both joined tables
define its name. -/
def ambiguous (qualified : String → Bool) : Bool :=
  chunkColumns.any fun name => !qualified name && replicaColumns.contains name

/-- `FROM mds_chunks c JOIN mds_chunk_replicas r ON r.chunk_id = c.id WHERE r.node_id = $1`. -/
def joinedOnNode (tables : ChunkTables) (nodeID : NodeID) : List ChunkRow :=
  tables.chunks.values.flatMap fun c =>
    (tables.replicas.values.filter fun r => r.chunkID = c.id ∧ r.nodeID = nodeID).map fun _ => c

/-- `SELECT DISTINCT ... ORDER BY c.file_id, c.chunk_index` on the join. The select list is
`chunkColumns`, with the alias `c` before the `qualified` columns. -/
def selectByNode (qualified : String → Bool) (nodeID : NodeID) : ChunkM (List ChunkRow) :=
  if ambiguous qualified then
    throw (.database (.other "column reference is ambiguous"))
  else do
    let tables ← get
    return (joinedOnNode tables nodeID).dedup.insertionSort fun a b =>
      a.fileID < b.fileID ∨ (a.fileID = b.fileID ∧ a.chunkIndex ≤ b.chunkIndex)

/-- `listChunksByNode`, with the alias before the `qualified` columns of its query. -/
def chunksByNode (qualified : String → Bool) (nodeID : NodeID) : ChunkM (List ChunkMetadata) := do
  let rows ← selectByNode qualified nodeID
  let tables ← get
  return rows.map fun row => loadChunkReplicas tables (scanChunk row)

/-- The query as the source has it, with no alias before a column. -/
def listChunksByNode (nodeID : NodeID) : ChunkM (List ChunkMetadata) :=
  chunksByNode (fun _ => false) nodeID

def updateChunkStatus (patch : ChunkStatusPatch) : ChunkM Unit := do
  let chunk ← getChunk patch.selector
  let checksum := patch.checksum.getD chunk.checksum
  let verifiedAt := patch.verifiedAt <|> chunk.verifiedAt
  sendTexts (patch.lastErrorCode :: statusTexts patch.status checksum)
  updateChunkRow chunk.id fun row => { row with
    status := patch.status
    checksum := storedChecksum checksum
    lastErrorCode := patch.lastErrorCode
    verifiedAt := verifiedAt.map timestamptz
    updatedAt := timestamptz patch.updatedAt }

/-- A replica may name a node that is not registered: a row is made for it. -/
def ensureNodesExist (nodeIDs : List NodeID) (updatedAt : Time) : ChunkM Unit :=
  nodeIDs.forM fun nodeID => do
    if nodeID = "" then return
    insertNode nodeID updatedAt

/-- The replica count that a patch sets, counted when it names none. -/
def patchedReplicaCount (patch : ChunkReplicaPatch) (chunkID : ChunkID) : ChunkM Int :=
  match patch.replicaCount with
  | some count => pure count
  | none => countReplicas chunkID

/-- Nodes and replicas are written one after the other. -/
def updateChunkReplicas (patch : ChunkReplicaPatch) : ChunkM Unit := do
  let chunk ← getChunk patch.selector
  let upserts := (patch.upserts.getD ∅).entries
  ensureNodesExist (upserts.map (·.1)) patch.updatedAt
  upserts.forM fun e => insertReplica (replicaRow chunk.id e.1 e.2)
  patch.removeNodeIDs.forM (deleteReplica chunk.id)
  let replicaCount ← patchedReplicaCount patch chunk.id
  let replicaPolicy := patch.replicaPolicy.getD chunk.replicaPolicy
  failWith (¬FitsColumns replicaPolicy replicaCount) (.other "value out of range for int4")
  updateChunkRow chunk.id fun row => { row with
    replicaCount := replicaCount
    replicaPolicy := replicaPolicy
    updatedAt := timestamptz patch.updatedAt }

def deleteChunk (selector : ChunkSelector) : ChunkM Unit := do
  let chunk ← getChunk selector
  deleteChunkRow chunk.id

/-- Unlike its counterpart in memory it also sets the policy's current count. -/
def removeChunkReplica (selector : ChunkSelector) (nodeID : NodeID) (updatedAt : Time) :
    ChunkM Unit := do
  let chunk ← getChunk selector
  rejectCall ((Allocator.replicaOn chunk.replicas nodeID).isNone) .notFound
    "replica on node %q" [.text nodeID]
  deleteReplica chunk.id nodeID
  let replicaCount ← countReplicas chunk.id
  failWith (¬FitsInteger replicaCount) (.other "value out of range for int4")
  updateChunkRow chunk.id fun row => { row with
    replicaCount := replicaCount
    replicaPolicy := { row.replicaPolicy with currentReplicaCount := replicaCount }
    updatedAt := timestamptz updatedAt }

/-- Another chunk must not have the index or the offset. -/
def ensureChunkUniqueness (chunk : ChunkMetadata) : ChunkM Unit := do
  sendTexts [chunk.fileID, chunk.id]
  let rows := (← get).chunks.values
  rejectCall (∃ row ∈ rows, row.fileID = chunk.fileID ∧ row.chunkIndex = chunk.index ∧
    row.id ≠ chunk.id) .alreadyExists "duplicate chunk index %d for file %q"
    [.number chunk.index, .text chunk.fileID]
  rejectCall (∃ row ∈ rows, row.fileID = chunk.fileID ∧ row.chunkOffset = chunk.offset ∧
    row.id ≠ chunk.id) .alreadyExists "duplicate chunk offset %d for file %q"
    [.number chunk.offset, .text chunk.fileID]

/-- The position check of `upsertChunks` against one pending chunk. -/
def rejectPendingPosition (chunk existing : ChunkMetadata) : ChunkM Unit :=
  if existing.fileID ≠ chunk.fileID ∨ existing.id = chunk.id then pure ()
  else do
    rejectCall (existing.index = chunk.index) .alreadyExists
      "duplicate chunk index %d for file %q" [.number chunk.index, .text chunk.fileID]
    rejectCall (existing.offset = chunk.offset) .alreadyExists
      "duplicate chunk offset %d for file %q" [.number chunk.offset, .text chunk.fileID]

/-- The first loop of `upsertChunks`. -/
def pendingChunks : List ChunkMetadata → Records ChunkMetadata.id →
    ChunkM (Records ChunkMetadata.id)
  | [], pending => pure pending
  | chunk :: rest, pending => do
    rejectCall (chunk.id = "" ∨ chunk.fileID = "") .invalidArgument
      "chunk id and file id are required"
    sendTexts [chunk.fileID]
    let tables ← get
    rejectCall ((tables.files.lookup chunk.fileID).isNone) .notFound "file"
    rejectCall (chunk.size < 0) .invalidArgument "chunk size cannot be negative"
    rejectCall (chunk.size > fixedChunkSizeBytes) .invalidArgument "chunk size cannot exceed %d"
      [.number fixedChunkSizeBytes]
    rejectCall (chunk.offset ≠ chunk.index * fixedChunkSizeBytes) .invalidArgument
      "chunk offset must equal index * chunk size"
    pending.values.forM (rejectPendingPosition chunk)
    ensureChunkUniqueness chunk
    pendingChunks rest (pending.put chunk)

/-- The body of the second loop of `upsertChunks`. Replicas of an earlier record that the chunk
no longer has stay in their table. -/
def upsertChunk (chunk : ChunkMetadata) : ChunkM Unit := do
  insertChunk (chunkRow chunk)
  let replicas := chunk.replicas.getD ∅
  if Table.size replicas > 0 then
    let count := if chunk.replicaCount = 0 then (Table.size replicas : Int) else chunk.replicaCount
    updateChunkReplicas
      { selector := { id := chunk.id }
        upserts := chunk.replicas
        replicaCount := some count
        replicaPolicy := some chunk.replicaPolicy
        updatedAt := chunk.updatedAt }

/-- All chunks are checked before the first is written. -/
def upsertChunks (chunks : List ChunkMetadata) : ChunkM Unit := do
  let pending ← pendingChunks chunks ∅
  pending.values.forM upsertChunk

/-! ### Calls on either repository -/

inductive ChunkCall where
  | upsertChunks (chunks : List ChunkMetadata)
  | updateChunkStatus (patch : ChunkStatusPatch)
  | updateChunkReplicas (patch : ChunkReplicaPatch)
  | removeChunkReplica (selector : ChunkSelector) (nodeID : NodeID) (updatedAt : Time)
  | deleteChunk (selector : ChunkSelector)

def ChunkCall.onMemory : ChunkCall → Store.StoreM Unit
  | .upsertChunks chunks => Store.upsertChunks chunks
  | .updateChunkStatus patch => Store.updateChunkStatus patch
  | .updateChunkReplicas patch => Store.updateChunkReplicas patch
  | .removeChunkReplica selector nodeID updatedAt =>
    Store.removeChunkReplica selector nodeID updatedAt
  | .deleteChunk selector => Store.deleteChunk selector

def ChunkCall.onPostgres : ChunkCall → ChunkM Unit
  | .upsertChunks chunks => Postgres.upsertChunks chunks
  | .updateChunkStatus patch => Postgres.updateChunkStatus patch
  | .updateChunkReplicas patch => Postgres.updateChunkReplicas patch
  | .removeChunkReplica selector nodeID updatedAt =>
    Postgres.removeChunkReplica selector nodeID updatedAt
  | .deleteChunk selector => Postgres.deleteChunk selector

end AstraStorage.Postgres
