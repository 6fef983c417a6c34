import AstraStorage.Lib.Runs
import AstraStorage.Model.ServiceUpload

/-!
# The service as a transition system

Calls run one after the other on the in-memory repository. Between calls nothing changes but the
order in which the maps will be iterated.
-/

namespace AstraStorage.Service
open Lib Store

/-- The calls of the metadata service that change the state. -/
inductive Call where
  | createDirectory (req : CreateDirectoryRequest)
  | createFile (req : CreateFileRequest)
  | renameInode (req : RenameInodeRequest)
  | moveInode (req : MoveInodeRequest)
  | deleteFile (req : DeleteFileRequest)
  | deleteDirectory (req : DeleteDirectoryRequest)
  | startUpload (req : StartUploadRequest)
  | commitChunk (req : CommitChunkRequest)
  | completeUpload (req : CompleteUploadRequest)
  | verifyUpload (req : VerifyUploadRequest)
  | failUploadVerification (req : FailUploadVerificationRequest)
  | retryUpload (req : RetryUploadRequest)
  | registerNode (req : RegisterNodeRequest)
  | heartbeatNode (req : HeartbeatNodeRequest)

/-- Runs a call at the clock reading `now` and forgets what it returns. -/
def Call.run (now : Time) : Call → StoreM Unit
  | .createDirectory req => (fun _ => ()) <$> Service.createDirectory now req
  | .createFile req => (fun _ => ()) <$> Service.createFile now req
  | .renameInode req => (fun _ => ()) <$> Service.renameInode now req
  | .moveInode req => (fun _ => ()) <$> Service.moveInode now req
  | .deleteFile req => Service.deleteFile req
  | .deleteDirectory req => Service.deleteDirectory req
  | .startUpload req => (fun _ => ()) <$> Service.startUpload now req
  | .commitChunk req => (fun _ => ()) <$> Service.commitChunk now req
  | .completeUpload req => (fun _ => ()) <$> Service.completeUpload now req
  | .verifyUpload req => (fun _ => ()) <$> Service.verifyUpload now req
  | .failUploadVerification req => (fun _ => ()) <$> Service.failUploadVerification now req
  | .retryUpload req => (fun _ => ()) <$> Service.retryUpload now req
  | .registerNode req => (fun _ => ()) <$> Service.registerNode now req
  | .heartbeatNode req => (fun _ => ()) <$> Service.heartbeatNode now req

/-- The state that a call leaves, whether it succeeds or fails. -/
def Call.exec (now : Time) (call : Call) (s : MemoryState) : MemoryState :=
  match call.run now s with
  | .ok _ t => t
  | .error _ t => t

/-- Two states with the same records, whatever order their maps are iterated in. -/
structure SameRecords (s t : MemoryState) : Prop where
  inodes : t.inodes.lookup = s.inodes.lookup
  files : t.files.lookup = s.files.lookup
  chunks : t.chunks.lookup = s.chunks.lookup
  uploadSessions : t.uploadSessions.lookup = s.uploadSessions.lookup
  nodes : t.nodes.lookup = s.nodes.lookup
  replicaPlans : t.replicaPlans.lookup = s.replicaPlans.lookup

/-- A call at a time, or a new order of the tables' entries. -/
inductive Action where
  | call (now : Time) (call : Call)
  | reorder

/-- The state after a call, or in a new order. -/
inductive Step : MemoryState → Action → MemoryState → Prop
  | call {s : MemoryState} (now : Time) (call : Call) : Step s (.call now call) (call.exec now s)
  | reorder {s t : MemoryState} (h : SameRecords s t) : Step s .reorder t

/-- The state that `ensureRootInode` makes of an empty repository. -/
def Bootstrapped (s : MemoryState) : Prop :=
  ∃ now, ensureRootInode now {} = .ok () s

/-- A run of the service: what was done, most recent first, and the state it led to. -/
abbrev ServiceRun (history : List (MemoryState × Action)) (s : MemoryState) : Prop :=
  Run Bootstrapped Step history s

end AstraStorage.Service
