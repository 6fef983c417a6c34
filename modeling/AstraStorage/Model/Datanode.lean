import AstraStorage.Model.Metadata
import AstraStorage.Model.Strings
import Mathlib.Data.List.Infix

/-!
# Chunks on a datanode

`internal/datanode/store.go`, `handleChunk` of `internal/datanode/http.go` and the URL that
`PutChunk` of `internal/gateway/client.go` builds. Chunk IDs are byte strings. The files are those
of the chunks directory; a sidecar is kept as the record that it encodes, and temporary files are
left out. `strings.TrimSpace` on chunk IDs and the SHA-256 of some bytes are parameters.
-/

namespace AstraStorage.Datanode
open Lib

abbrev Bytes := List UInt8

def ascii (s : String) : Bytes := s.toList.map fun c => UInt8.ofNat c.toNat

/-- The first byte of a character. -/
def byte (c : Char) : UInt8 := UInt8.ofNat c.toNat

inductive StoreError where
  | notFound (message : String) (chunkID : Bytes)
  | invalidArgument (message : String) (chunkID : Bytes)
  | fileSystem (message : String)

section IDs

variable (trimSpace : Bytes → Bytes)

/-- The trimmed id is checked, but the caller goes on with the untrimmed one. -/
def validateChunkID (chunkID : Bytes) : Except StoreError Unit :=
  let chunkID := trimSpace chunkID
  if chunkID = [] then .error (.invalidArgument "chunk id is required" [])
  else if byte '/' ∈ chunkID ∨ byte '\\' ∈ chunkID ∨ ascii ".." <:+: chunkID then
    .error (.invalidArgument "chunk id %q is invalid" chunkID)
  else .ok ()

/-! ### The path of a request -/

def hexValue (b : UInt8) : Option UInt8 :=
  if byte '0' ≤ b ∧ b ≤ byte '9' then some (b - byte '0')
  else if byte 'a' ≤ b ∧ b ≤ byte 'f' then some (b - byte 'a' + 10)
  else if byte 'A' ≤ b ∧ b ≤ byte 'F' then some (b - byte 'A' + 10)
  else none

/-- Percent decoding of a path, as `net/url` does it. -/
def percentDecode : Bytes → Option Bytes
  | [] => some []
  | b :: rest =>
    if b = byte '%' then
      match rest with
      | high :: low :: rest => do
        let high ← hexValue high
        let low ← hexValue low
        let rest ← percentDecode rest
        return (high * 16 + low) :: rest
      | _ => none
    else do
      let rest ← percentDecode rest
      return b :: rest

/-- `r.URL.Path` for a request target. -/
def urlPath (target : Bytes) : Option Bytes :=
  percentDecode (target.takeWhile fun b => b ≠ byte '?' ∧ b ≠ byte '#')

/-- The request target of the gateway's `PutChunk`, for a base URL of scheme and host. -/
def chunkTarget (chunkID : Bytes) : Bytes := ascii "/chunks/" ++ chunkID

/-- The chunk ID that `handleChunk` finds in a path, if it is not answered with 404. -/
def handleChunk (path : Bytes) : Option Bytes :=
  let chunkID := if ascii "/chunks/" <+: path then path.drop (ascii "/chunks/").length else path
  if chunkID = [] ∨ byte '/' ∈ chunkID then none else some chunkID

/-! ### Files -/

/-- A clean path, absolute or not: its elements, last first. -/
structure Path where
  rooted : Bool
  elements : List Bytes

/-- What `filepath.Clean` does with the next element of a path. -/
def Path.push (path : Path) (element : Bytes) : Path :=
  if element = [] ∨ element = ascii "." then path
  else if element = ascii ".." then
    match path.elements with
    | [] => { path with elements := if path.rooted then [] else [element] }
    | last :: rest =>
      { path with elements := if last = ascii ".." then element :: last :: rest else rest }
  else { path with elements := element :: path.elements }

/-- `filepath.Join`, which cleans its result. -/
def Path.join (dir : Path) (name : Bytes) : Path := (name.splitOn (byte '/')).foldl Path.push dir

/-- The file of a chunk's bytes. -/
def dataPath (chunksDir : Path) (chunkID : Bytes) : Path := chunksDir.join (chunkID ++ ascii ".bin")

/-- The file of a chunk's metadata, its sidecar. -/
def metaPath (chunksDir : Path) (chunkID : Bytes) : Path :=
  chunksDir.join (chunkID ++ ascii ".json")

/-- `os.CreateTemp` with the pattern of `writeAtomically`. -/
def tempPath (chunksDir : Path) (digits : Bytes) : Path :=
  chunksDir.join (ascii "chunk-" ++ digits)

structure Checksum where
  algorithm : String
  value : String
  verifiedAt : Time

structure ChunkMetadata where
  chunkID : Bytes
  fileID : String
  size : Int64
  checksum : Option Checksum
  storedAt : Time
  updatedAt : Time

/-- The data files and the sidecars, by chunk ID. -/
structure Directory where
  data : Table Bytes Bytes := ∅
  sidecars : Table Bytes ChunkMetadata := ∅

/-- What becomes of a file-system step: it succeeds or fails, or it is the last before a crash. -/
inductive Fate where
  | succeeds
  | fails
  | last
  deriving DecidableEq

/-- A call ends early with an error or in a crash. -/
inductive Stop where
  | error (err : StoreError)
  | crash

/-- A call on the store, with the fates of the steps to come. -/
abbrev DiskM := EStateM Stop (Directory × (Nat → Fate))

/-- One access to the disk: it succeeds, fails or is the last before a crash. -/
def step (message : String) (effect : Directory → Directory := id) : DiskM Unit :=
  fun (dir, fates) =>
    match fates 0 with
    | .succeeds => .ok () (effect dir, fun i => fates (i + 1))
    | .fails => .error (.error (.fileSystem message)) (dir, fun i => fates (i + 1))
    | .last => .error .crash (effect dir, fun i => fates (i + 1))

/-- An error is a value, a crash is not. -/
def attempt {α : Type} (x : DiskM α) : DiskM (Except StoreError α) := fun s =>
  match x s with
  | .ok a t => .ok (.ok a) t
  | .error (.error err) t => .ok (.error err) t
  | .error .crash t => .error .crash t

def fail {α : Type} (err : StoreError) : DiskM α := throw (.error err)

/-- The result of a check becomes a step that needs no disk. -/
def settle {α : Type} : Except StoreError α → DiskM α
  | .ok a => pure a
  | .error err => fail err

/-- `writeAtomically`, with the effect of its rename. -/
def writeAtomically (effect : Directory → Directory) : DiskM Unit := do
  step "create temp file"
  let written ← attempt do
    step "write temp file"
    step "chmod temp file"
    step "close temp file"
    step "rename temp file" effect
  -- the deferred removal
  let _ ← attempt (step "remove temp file")
  settle written

section Store

variable (sha256 : Bytes → String)

/-- The digest is compared with the one that is expected. -/
def validateChecksum (checksum : Checksum) (data : Bytes) : Except StoreError Unit :=
  let algorithm := (AstraStorage.trimSpace checksum.algorithm).toLower
  let value := AstraStorage.trimSpace checksum.value
  if algorithm = "" ∨ value = "" then
    .error (.invalidArgument "checksum algorithm and value must both be set" [])
  else if algorithm ≠ "sha256" then
    .error (.invalidArgument "unsupported checksum algorithm %q" (ascii checksum.algorithm))
  else if sha256 data ≠ value then .error (.invalidArgument "sha256 checksum mismatch" [])
  else .ok ()

/-- The sidecar decides whether a chunk exists. -/
def readMetadata (chunkID : Bytes) : DiskM ChunkMetadata := do
  step "read chunk metadata"
  match (← get).1.sidecars.lookup chunkID with
  | none => fail (.notFound "chunk %q" chunkID)
  | some found => return found

structure PutRequest where
  chunkID : Bytes
  fileID : String
  checksum : Option Checksum
  data : Bytes
  now : Time

/-- The sidecar that a request writes. -/
def PutRequest.metadata (req : PutRequest) (storedAt : Time) : ChunkMetadata where
  chunkID := req.chunkID
  fileID := AstraStorage.trimSpace req.fileID
  size := Int64.ofNat req.data.length
  checksum := req.checksum
  storedAt := storedAt
  updatedAt := req.now

/-- The directory once the data file of a request is in place. -/
def PutRequest.withData (req : PutRequest) (dir : Directory) : Directory :=
  { dir with data := dir.data.insert req.chunkID req.data }

def PutRequest.withSidecar (req : PutRequest) (storedAt : Time) (dir : Directory) : Directory :=
  { dir with sidecars := dir.sidecars.insert req.chunkID (req.metadata storedAt) }

def validatePut (req : PutRequest) : Except StoreError Unit := do
  validateChunkID trimSpace req.chunkID
  match req.checksum with
  | none => .ok ()
  | some checksum => validateChecksum sha256 checksum req.data

/-- The bytes are written before the sidecar, each by a rename. -/
def putChunk (req : PutRequest) : DiskM ChunkMetadata := do
  settle (validatePut trimSpace sha256 req)
  let existing ← attempt (readMetadata req.chunkID)
  let storedAt := existing.toOption.elim req.now (·.storedAt)
  writeAtomically req.withData
  writeAtomically (req.withSidecar storedAt)
  return req.metadata storedAt

/-- The bytes are not compared with the checksum in the sidecar. -/
def getChunk (chunkID : Bytes) : DiskM (ChunkMetadata × Bytes) := do
  settle (validateChunkID trimSpace chunkID)
  let found ← readMetadata chunkID
  step "read chunk data"
  match (← get).1.data.lookup chunkID with
  | none => fail (.notFound "chunk %q" chunkID)
  | some data => return (found, data)

/-- The sidecar is removed before the bytes. -/
def deleteChunk (chunkID : Bytes) : DiskM Unit := do
  settle (validateChunkID trimSpace chunkID)
  step "stat chunk metadata"
  match (← get).1.sidecars.lookup chunkID with
  | none => fail (.notFound "chunk %q" chunkID)
  | some _ =>
    step "remove chunk metadata" fun dir => { dir with sidecars := dir.sidecars.erase chunkID }
    step "remove chunk data" fun dir => { dir with data := dir.data.erase chunkID }

/-- The names of the files. -/
def Directory.entries (dir : Directory) : List Bytes :=
  dir.data.keys.map (· ++ ascii ".bin") ++ dir.sidecars.keys.map (· ++ ascii ".json")

def countChunks : DiskM Nat := do
  step "read chunks dir"
  return (← get).1.entries.countP fun name => ascii ".json" <:+ name

/-- The gateway's `PutChunk`, answered by the datanode. Left out: a URL with control characters
is refused, and `ServeMux` redirects a path with `.`, `..` or empty segments to its clean form. -/
def requestPutChunk (req : PutRequest) : DiskM ChunkMetadata :=
  match urlPath (chunkTarget req.chunkID) with
  | none => fail (.invalidArgument "build put chunk request" req.chunkID)
  | some path =>
    match handleChunk path with
    | none => fail (.notFound "chunk endpoint not found" [])
    | some chunkID => putChunk trimSpace sha256 { req with chunkID := chunkID }

end Store

end IDs

end AstraStorage.Datanode
