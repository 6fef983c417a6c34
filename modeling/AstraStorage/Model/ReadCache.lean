import AstraStorage.Lib.Programs
import AstraStorage.Model.Calls
import AstraStorage.Model.Download

/-!
# The read cache

`internal/mds/read_cache.go`, `internal/platform/redis/cache/keys.go` and
`internal/platform/redis/lock/locker.go`, and the calls of the service that go through the cache or
invalidate it. Each Redis command is a step. A payload is kept as the value that it encodes.
-/

namespace AstraStorage.ReadCache
open Lib Store Service

/-! ### Keys -/

/-- Keys of the cache, by what they lead to. -/
def fileMetaKey (fileID : FileID) : String := "astra:cache:file:meta:" ++ fileID

def fileChunksKey (fileID : FileID) : String := "astra:cache:file:chunks:" ++ fileID

def downloadPlanKey (fileID : FileID) : String := "astra:cache:download:plan:" ++ fileID

/-- A page of a listing. -/
def directoryListKey (inodeID : String) (offset limit : Int) : String :=
  "astra:cache:dir:list:" ++ inodeID ++ ":" ++ toString offset ++ ":" ++ toString limit

/-- The version of a directory's listings. -/
def directoryListVersionKey (inodeID : InodeID) : String :=
  "astra:cache:dir:list:version:" ++ inodeID

def nodeHealthKey (nodeID : NodeID) : String := "astra:cache:node:health:" ++ nodeID

def healthyNodesKey : String := "astra:cache:nodes:healthy"

/-- The mark of a file that was not found. -/
def nullFileKey (fileID : FileID) : String := "astra:cache:null:file:" ++ fileID

def fileBloomKey : String := "astra:cache:bf:file"

def hotFileSetKey : String := "astra:cache:hot:file"

def hotDirectorySetKey : String := "astra:cache:hot:dir"

def hotNodeSetKey : String := "astra:cache:hot:node"

def fileMetaLockPrefix : String := "astra:lock:file:meta:"

def downloadPlanLockPrefix : String := "astra:lock:download:plan:"

def directoryListLockPrefix : String := "astra:lock:dir:list:"

/-! ### Steps -/

/-- A listing remembers the number of commits that came before it was loaded. That number is not
part of the payload; only statements look at it. -/
structure Listing where
  entries : List DirectoryEntry
  loadedAt : Nat

/-- What is stored under a key: a number, which is also its text, or a JSON payload. -/
inductive CacheValue where
  | number (n : Nat)
  | file (file : FileMetadata)
  | plan (plan : DownloadPlan)
  | children (listing : Listing)

/-- What a mutation tells the cache to forget. -/
inductive Invalidation where
  | file (fileID : FileID)
  | directory (inodeID : InodeID)
  deriving DecidableEq

/-- `get` reads bytes and `getText` a string. `transact` is the transaction of a mutation: the
state that it leaves, and what has to be invalidated afterwards. -/
inductive CacheOp where
  | get (key : String)
  | getText (key : String)
  | set (key : String) (value : CacheValue)
  | del (keys : List String)
  | incr (key : String)
  | setNX (key ownerToken : String)
  | compareDelete (key ownerToken : String)
  | newOwnerToken
  | getFile (selector : FileSelector)
  | buildDownloadPlan (fileID : FileID)
  | listChildren (parentID : InodeID) (opts : ListOptions)
  | transact (tx : MemoryState → MemoryState × List Invalidation)

def cacheSteps : Interface where
  Op := CacheOp
  Reply
    | .get _ => Except String (Option CacheValue)
    | .getText _ => Except String (Option String)
    | .set .. => Except String Unit
    | .del _ => Except String Unit
    | .incr _ => Except String Unit
    | .setNX .. => Except String Bool
    | .compareDelete .. => Except String Bool
    | .newOwnerToken => Except String String
    | .getFile _ => Except Fault FileMetadata
    | .buildDownloadPlan _ => Except Fault DownloadPlan
    | .listChildren .. => Except Fault Listing
    | .transact _ => List Invalidation × Nat

/-- The repository, the two Redis groups, the number of commits, and a log of the increments, most
recent first, each with the number of commits before it. Only statements look at the last two. -/
structure CacheWorld where
  store : MemoryState
  cache : Table String CacheValue := ∅
  locks : Table String String := ∅
  commits : Nat := 0
  increments : List (String × Nat) := []

/-- The answer of a repository function, which does not change the repository. -/
def answer {α : Type} (x : StoreM α) (s : MemoryState) : Except Fault α :=
  match x s with
  | .ok a _ => .ok a
  | .error e _ => .error e

namespace CacheWorld

variable (w : CacheWorld)

def put (key : String) (value : CacheValue) : CacheWorld :=
  { w with cache := w.cache.insert key value }

def remove (keys : List String) : CacheWorld :=
  { w with cache := keys.foldl (fun cache key => cache.erase key) w.cache }

/-- `INCR`, which fails on a value that is not a number. -/
def increment (key : String) : Option CacheWorld :=
  let logged := { w with increments := (key, w.commits) :: w.increments }
  match w.cache.lookup key with
  | none => some (logged.put key (.number 1))
  | some (.number n) => some (logged.put key (.number (n + 1)))
  | some _ => none

/-- The steps if Redis neither fails nor loses a key. -/
def perform : (o : CacheOp) → cacheSteps.Reply o × CacheWorld
  | .get key => (.ok (w.cache.lookup key), w)
  | .getText key =>
    match w.cache.lookup key with
    | none => (.ok none, w)
    | some (.number n) => (.ok (some (toString n)), w)
    | some _ => (.ok (some ""), w)
  | .set key value => (.ok (), w.put key value)
  | .del keys => (.ok (), w.remove keys)
  | .incr key =>
    match w.increment key with
    | some w' => (.ok (), w')
    | none => (.error "ERR value is not an integer or out of range", w)
  | .setNX key ownerToken =>
    match w.locks.lookup key with
    | none => (.ok true, { w with locks := w.locks.insert key ownerToken })
    | some _ => (.ok false, w)
  | .compareDelete key ownerToken =>
    if w.locks.lookup key = some ownerToken then
      (.ok true, { w with locks := w.locks.erase key })
    else (.ok false, w)
  | .newOwnerToken => (.ok "", w)
  | .getFile selector => (answer (Store.getFile selector) w.store, w)
  | .buildDownloadPlan fileID => (answer (Service.buildDownloadPlan fileID) w.store, w)
  | .listChildren parentID opts =>
    ((answer (Store.listChildren parentID opts) w.store).map fun entries =>
      { entries := entries, loadedAt := w.commits }, w)
  | .transact tx =>
    let (store, invalidations) := tx w.store
    ((invalidations, w.commits + 1), { w with store := store, commits := w.commits + 1 })

end CacheWorld

/-- What may go wrong: keys that are lost when their time is over, and commands that fail. -/
structure RedisFaults where
  mayExpire : String → Prop := fun _ => False
  mayFail : Prop := False

/-- Besides what `perform` says, a key may be gone, a lock may have run out, a payload read as a
string has some text, a new token is any string, and a failed command may have been carried out or
not. -/
inductive CacheStep (faults : RedisFaults) :
    (o : CacheOp) → CacheWorld → cacheSteps.Reply o → CacheWorld → Prop
  | perform {o : CacheOp} {w : CacheWorld} : CacheStep faults o w (w.perform o).1 (w.perform o).2
  | expired {key : String} {w : CacheWorld} (h : faults.mayExpire key) :
      CacheStep faults (.get key) w (.ok none) (w.remove [key])
  | expiredText {key : String} {w : CacheWorld} (h : faults.mayExpire key) :
      CacheStep faults (.getText key) w (.ok none) (w.remove [key])
  | payloadText {key text : String} {w : CacheWorld} {value : CacheValue}
      (h : w.cache.lookup key = some value) (hvalue : ∀ n, value ≠ .number n) :
      CacheStep faults (.getText key) w (.ok (some text)) w
  | expiredLock {key ownerToken : String} {w : CacheWorld} (h : faults.mayExpire key) :
      CacheStep faults (.setNX key ownerToken) w (.ok true)
        { w with locks := w.locks.insert key ownerToken }
  | token {ownerToken : String} {w : CacheWorld} :
      CacheStep faults .newOwnerToken w (.ok ownerToken) w
  | failedGet {key e : String} {w : CacheWorld} (h : faults.mayFail) :
      CacheStep faults (.get key) w (.error e) w
  | failedGetText {key e : String} {w : CacheWorld} (h : faults.mayFail) :
      CacheStep faults (.getText key) w (.error e) w
  | failedSet {key e : String} {value : CacheValue} {w w' : CacheWorld} (h : faults.mayFail)
      (hw : w' = w ∨ w' = w.put key value) : CacheStep faults (.set key value) w (.error e) w'
  | failedDel {keys : List String} {e : String} {w w' : CacheWorld} (h : faults.mayFail)
      (hw : w' = w ∨ w' = w.remove keys) : CacheStep faults (.del keys) w (.error e) w'
  | failedIncr {key e : String} {w w' : CacheWorld} (h : faults.mayFail)
      (hw : w' = w ∨ w.increment key = some w') : CacheStep faults (.incr key) w (.error e) w'
  | failedSetNX {key ownerToken e : String} {w w' : CacheWorld} (h : faults.mayFail)
      (hw : w' = w ∨ w' = { w with locks := w.locks.insert key ownerToken }) :
      CacheStep faults (.setNX key ownerToken) w (.error e) w'
  | failedRelease {key ownerToken e : String} {w w' : CacheWorld} (h : faults.mayFail)
      (hw : w' = w ∨ w' = { w with locks := w.locks.erase key }) :
      CacheStep faults (.compareDelete key ownerToken) w (.error e) w'
  | failedToken {e : String} {w : CacheWorld} (h : faults.mayFail) :
      CacheStep faults .newOwnerToken w (.error e) w

/-- Redis fails as the faults allow. -/
abbrev cacheSemantics (faults : RedisFaults) : Semantics cacheSteps CacheWorld :=
  fun o w r w' => CacheStep faults o w r w'

/-! ### Programs -/

inductive CacheError where
  | redis (text : String)
  | decode
  | store (fault : Fault)

abbrev CacheM := ExceptT CacheError (Prog cacheSteps)

def step (o : CacheOp) : CacheM (cacheSteps.Reply o) :=
  ExceptT.mk (Prog.op (I := cacheSteps) o fun r => pure (.ok r))

def fallible {ε α : Type} (x : CacheM (Except ε α)) (error : ε → CacheError) : CacheM α := do
  match ← x with
  | .ok a => return a
  | .error e => throw (error e)

def get (key : String) : CacheM (Option CacheValue) := fallible (step (.get key)) .redis

def set (key : String) (value : CacheValue) : CacheM Unit := fallible (step (.set key value)) .redis

def del (keys : List String) : CacheM Unit := fallible (step (.del keys)) .redis

/-- `errors.Is(err, store.ErrNotFound)`. -/
def CacheError.isNotFound : CacheError → Bool
  | .store (.error e) => e.kind = .notFound
  | _ => false

def fileNotFound (fileID : FileID) : CacheError :=
  .store (.error ⟨.notFound, "file %q", [.text fileID]⟩)

/-- An entry that does not decode is an error. -/
def loadJSON {α : Type} (decode : CacheValue → Option α) (key : String) : CacheM (Option α) := do
  match ← get key with
  | none => return none
  | some value =>
    match decode value with
    | some a => return some a
    | none => throw .decode

def checkNull (key : String) : CacheM Bool := do
  match ← get key with
  | none => return false
  | some _ => return true

/-- The loop of a call that did not get the lock, and its own load at the end. -/
def pollThenLoad (key : String) (loader : CacheM CacheValue) : Nat → CacheM CacheValue
  | 0 => loader
  | attempts + 1 => do
    match ← get key with
    | some payload => return payload
    | none => pollThenLoad key loader attempts

/-- The load of the call that holds the lock. -/
def loadAndStore (key nullKey : String) (loader : CacheM CacheValue) : CacheM CacheValue := do
  match ← Prog.attempt loader with
  | .error err =>
    if err.isNotFound && nullKey ≠ "" then set nullKey (.number 1)
    throw err
  | .ok payload =>
    set key payload
    if nullKey ≠ "" then del [nullKey]
    return payload

/-- The holder of the lock loads; the others poll before they load. -/
def readThroughWithLock (lockKey key nullKey : String) (loader : CacheM CacheValue) :
    CacheM CacheValue := do
  let token ← fallible (step .newOwnerToken) .redis
  let acquired ← fallible (step (.setNX lockKey token)) .redis
  if !acquired then pollThenLoad key loader 3
  else
    let result ← Prog.attempt (loadAndStore key nullKey loader)
    -- the deferred release, whose result is ignored
    let _ ← step (.compareDelete lockKey token)
    match result with
    | .ok payload => return payload
    | .error err => throw err

/-- Reading the payload of a call's own load or of another call back. -/
def decodePayload {α : Type} (decode : CacheValue → Option α) (payload : CacheValue) : CacheM α :=
  match decode payload with
  | some a => return a
  | none => throw .decode

def CacheValue.asFile : CacheValue → Option FileMetadata
  | .file decoded => some decoded
  | _ => none

def CacheValue.asPlan : CacheValue → Option DownloadPlan
  | .plan decoded => some decoded
  | _ => none

def CacheValue.asChildren : CacheValue → Option Listing
  | .children decoded => some decoded
  | _ => none

/-- `GetFile` and `GetDownloadPlan`, which differ in the key, the lock and the loader. -/
def readFileModel {α : Type} (decode : CacheValue → Option α) (key lockKey : String)
    (fileID : FileID) (loader : CacheM CacheValue) : CacheM α := do
  match ← loadJSON decode key with
  | some cached => return cached
  | none =>
    if ← checkNull (nullFileKey fileID) then throw (fileNotFound fileID)
    else
      let payload ← readThroughWithLock lockKey key (nullFileKey fileID) loader
      decodePayload decode payload

def getFile (fileID : FileID) : CacheM FileMetadata :=
  readFileModel CacheValue.asFile (fileMetaKey fileID) (fileMetaLockPrefix ++ fileID) fileID
    (CacheValue.file <$> fallible (step (.getFile { id := fileID })) .store)

def getDownloadPlan (fileID : FileID) : CacheM DownloadPlan :=
  readFileModel CacheValue.asPlan (downloadPlanKey fileID) (downloadPlanLockPrefix ++ fileID) fileID
    (CacheValue.plan <$> fallible (step (.buildDownloadPlan fileID)) .store)

/-- A version that is missing counts as 0. -/
def directoryListVersion (inodeID : InodeID) : CacheM String := do
  match ← fallible (step (.getText (directoryListVersionKey inodeID))) .redis with
  | some version => return version
  | none => return "0"

def loadChildren (parentID : InodeID) (opts : ListOptions) : CacheM Listing :=
  fallible (step (.listChildren parentID opts)) .store

/-- A page is cached under the version of its directory. -/
def getChildren (parentID : InodeID) (opts : ListOptions) : CacheM Listing := do
  let version ← directoryListVersion parentID
  let key := directoryListKey (parentID ++ ":v" ++ version) opts.offset opts.limit
  match ← loadJSON CacheValue.asChildren key with
  | some cached => return cached
  | none =>
    let payload ← readThroughWithLock (directoryListLockPrefix ++ parentID) key ""
      (CacheValue.children <$> loadChildren parentID opts)
    decodePayload CacheValue.asChildren payload

/-- Record, plan and mark are removed; the chunks' key is not. -/
def invalidateFile (fileID : FileID) : CacheM Unit := do
  if fileID = "" then return ()
  else del [fileMetaKey fileID, downloadPlanKey fileID, nullFileKey fileID]

/-- A new version leaves the old pages unread. -/
def invalidateDirectory (inodeID : InodeID) : CacheM Unit := do
  if inodeID = "" then return ()
  else fallible (step (.incr (directoryListVersionKey inodeID))) .redis

def Invalidation.run : Invalidation → CacheM Unit
  | .file fileID => invalidateFile fileID
  | .directory inodeID => invalidateDirectory inodeID

/-! ### The service with a read cache -/

/-- `ListChildren`, which leaves the cache out for an empty ID and for recursive listings. -/
def serviceListChildren (parentID : InodeID) (opts : ListOptions) (recursive : Bool) :
    CacheM Listing :=
  if parentID ≠ "" && !recursive then getChildren parentID opts else loadChildren parentID opts

/-- Without an id the cache is passed by. -/
def serviceGetFile (fileID : FileID) : CacheM FileMetadata :=
  if fileID ≠ "" then getFile fileID
  else fallible (step (.getFile { id := fileID })) .store

def serviceBuildDownloadPlan (fileID : FileID) : CacheM DownloadPlan :=
  if fileID ≠ "" then getDownloadPlan fileID
  else fallible (step (.buildDownloadPlan fileID)) .store

/-- A mutation: its transaction, then the invalidations, whose failures are ignored. The result is
the number of the commit and the invalidations that were carried out. -/
def mutate (tx : MemoryState → MemoryState × List Invalidation) :
    CacheM (Nat × List Invalidation) := do
  let (invalidations, commit) ← step (.transact tx)
  let done ← invalidations.filterMapM fun invalidation => do
    match ← Prog.attempt invalidation.run with
    | .ok _ => return some invalidation
    | .error _ => return none
  return (commit, done)

/-- What is invalidated if the call succeeds. -/
def onSuccess {α : Type} (x : StoreM α) (s : MemoryState) (f : α → List Invalidation) :
    List Invalidation :=
  match x s with
  | .ok a _ => f a
  | .error _ _ => []

/-- The file behind an inode, if it is one. -/
def fileOfInode (inode : InodeMetadata) : List Invalidation :=
  if inode.fileID ≠ "" then [.file inode.fileID] else []

/-- What a successful call invalidates. -/
def invalidations (now : Time) (s : MemoryState) : Call → List Invalidation
  | .createDirectory req =>
    onSuccess (Service.createDirectory now req) s fun created => [.directory created.parentID]
  | .createFile req => onSuccess (Service.createFile now req) s fun created =>
    [.file created.id, .directory created.parentInodeID]
  | .renameInode req => onSuccess (Service.renameInode now req) s fun renamed =>
    .directory renamed.parentID :: fileOfInode renamed
  | .moveInode req => onSuccess (Service.moveInode now req) s fun moved =>
    let sourceParentID := ((findInode s { id := req.inodeID }).map (·.parentID)).getD ""
    (if sourceParentID ≠ "" then [.directory sourceParentID] else []) ++
      .directory moved.parentID :: fileOfInode moved
  | .deleteFile req => onSuccess (Service.deleteFile req) s fun _ =>
    let parentID := ((findFile s { id := req.fileID }).map (·.parentInodeID)).getD ""
    [.file req.fileID, .directory parentID]
  | .deleteDirectory req => onSuccess (Service.deleteDirectory req) s fun _ =>
    [.directory (((findInode s { id := req.inodeID }).map (·.parentID)).getD "")]
  | .startUpload req => onSuccess (Service.startUpload now req) s fun created =>
    [.file created.fileID]
  | .commitChunk req => onSuccess (Service.commitChunk now req) s fun committed =>
    [.file committed.fileID]
  | .completeUpload req => onSuccess (Service.completeUpload now req) s fun completed =>
    [.file completed.id]
  | .verifyUpload req => onSuccess (Service.verifyUpload now req) s fun verified =>
    [.file verified.id]
  | .failUploadVerification req =>
    onSuccess (Service.failUploadVerification now req) s fun failed => [.file failed.id]
  | .retryUpload req => onSuccess (Service.retryUpload now req) s fun retried => [.file retried.id]
  -- the caches of nodes are not modelled
  | .registerNode _ => []
  | .heartbeatNode _ => []

/-- A call on the service. -/
def serviceCall (now : Time) (call : Call) : CacheM (Nat × List Invalidation) :=
  mutate fun s => (call.exec now s, invalidations now s call)

end AstraStorage.ReadCache
