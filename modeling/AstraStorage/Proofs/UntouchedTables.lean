import AstraStorage.Proofs.Effects

/-!
# A table that calls do not reach

The calls of the service write to five of the six tables and leave the plans alone. This holds in
every state, well formed or not.
-/

set_option mvcgen.warning false

namespace AstraStorage.Proofs
open Lib Store Service Std.Do

variable {α β : Type} {plans : Records ReplicaPlan.id} {x : StoreM α}

abbrev SparesPlans (plans : Records ReplicaPlan.id) (x : StoreM α) : Prop :=
  ⦃fun s => ⌜s.replicaPlans = plans⌝⦄ x ⦃⇓? _ s => ⌜s.replicaPlans = plans⌝⦄

lemma spares_inTx (hx : SparesPlans plans x) : SparesPlans plans (inTx x) :=
  triple_iff.mpr fun s hs =>
    ⟨fun a t h => (triple_iff.mp hx s hs).1 a t (yields_inTx.mp h), fun _ _ _ => trivial⟩

lemma spares_forM {xs : List β} {f : β → StoreM PUnit} (hf : ∀ b, SparesPlans plans (f b)) :
    SparesPlans plans (xs.forM f) :=
  triple_forM hf

section Operations

lemma spares_isDescendant : SparesPlans plans (isDescendant i a b) := by
  mvcgen [isDescendant]

lemma spares_createInode : SparesPlans plans (createInode inode) := by
  mvcgen [createInode, putInode] <;> grind

lemma spares_renameInode : SparesPlans plans (Store.renameInode op) := by
  mvcgen [Store.renameInode, putInode] <;> grind

lemma spares_moveInode : SparesPlans plans (Store.moveInode op) := by
  mvcgen [Store.moveInode, putInode, spares_isDescendant] <;> grind

lemma spares_updateSubtreePaths : SparesPlans plans (updateSubtreePaths op) := by
  mvcgen [updateSubtreePaths, putInode, spares_isDescendant, spares_forM] <;> grind

lemma spares_deleteInode : SparesPlans plans (deleteInode selector) := by
  mvcgen [deleteInode] <;> grind

lemma spares_createFile : SparesPlans plans (Store.createFile file) := by
  mvcgen [Store.createFile, putFile] <;> grind

lemma spares_updateFile : SparesPlans plans (updateFile patch) := by
  mvcgen [updateFile, putFile] <;> grind

lemma spares_updateChunkStatus : SparesPlans plans (updateChunkStatus op) := by
  mvcgen [updateChunkStatus, putChunk] <;> grind

lemma spares_deleteChunk : SparesPlans plans (deleteChunk selector) := by
  mvcgen [deleteChunk] <;> grind

lemma spares_updateUploadProgress : SparesPlans plans (updateUploadProgress op) := by
  mvcgen [updateUploadProgress, putUploadSession] <;> grind

lemma spares_pendingChunks : SparesPlans plans (pendingChunks chunks pending) := by
  induction chunks generalizing pending with
  | nil => mvcgen [pendingChunks]
  | cons chunk chunks ih =>
    mvcgen [pendingChunks, rejectTakenPosition, spares_forM, ih] <;> grind

end Operations

section Steps

lemma spares_syncInodeMutation :
    SparesPlans plans (syncInodeMutation before after oldPath when) := by
  mvcgen [syncInodeMutation, syncFileForInode, syncFilesUnderDirectoryPath, getFile, listFiles,
    spares_updateSubtreePaths, spares_updateFile, spares_forM] <;> grind

lemma spares_deleteFileCascade : SparesPlans plans (deleteFileCascade f) := by
  mvcgen [deleteFileCascade, getFile, listUploadSessionsByFile, deleteUploadSession,
    listChunksByFile, Store.deleteFile, spares_deleteChunk, spares_deleteInode, spares_forM]
    <;> grind

lemma spares_deleteDirectoryRecursive : SparesPlans plans (deleteDirectoryRecursive depth i) := by
  induction depth generalizing i with
  | zero => mvcgen [deleteDirectoryRecursive]
  | succ depth ih =>
    mvcgen [deleteDirectoryRecursive, listChildren, getFile, spares_deleteFileCascade,
      spares_deleteInode, spares_forM, ih] <;> grind

lemma spares_chunkCoverage : SparesPlans plans (chunkCoverage file offset chunks) := by
  induction chunks generalizing offset with
  | nil => mvcgen [chunkCoverage]
  | cons chunk chunks ih => mvcgen [chunkCoverage, ih] <;> grind

lemma spares_ensureFileReadyForVerification :
    SparesPlans plans (ensureFileReadyForVerification file session size) := by
  mvcgen [ensureFileReadyForVerification, listChunksByFile, spares_chunkCoverage] <;> grind

lemma spares_normalizeReplicas : SparesPlans plans (normalizeReplicas f k replicas normalized) := by
  induction replicas generalizing normalized with
  | nil => mvcgen [normalizeReplicas]
  | cons replica replicas ih => mvcgen [normalizeReplicas, normalizeReplica, ih] <;> grind

lemma spares_reopenChunks : SparesPlans plans (reopenChunks restart when last chunks) := by
  induction chunks generalizing last with
  | nil => mvcgen [reopenChunks]
  | cons chunk chunks ih =>
    mvcgen [reopenChunks, spares_updateChunkStatus, spares_deleteChunk, ih] <;> grind

end Steps

theorem spares_run (now : Time) (call : Call) : SparesPlans plans (call.run now) := by
  cases call <;> mvcgen [Call.run, spares_inTx, spares_forM, getInode, getFile, getChunk,
    getUploadSession, getNode, listChunksByFile, listUploadSessionsByFile, currentStoredSize,
    rejectFileStatus, validateChecksumShape, validateNodeSpace, spares_updateFile,
    spares_updateChunkStatus, spares_updateUploadProgress,
    createDirectory, validateCreateDirectoryRequest, spares_createInode,
    Service.createFile, validateCreateFileRequest, spares_createFile,
    Service.renameInode, validateRenameInodeRequest, spares_renameInode,
    Service.moveInode, validateMoveInodeRequest, spares_moveInode, spares_syncInodeMutation,
    Service.deleteFile, spares_deleteFileCascade,
    deleteDirectory, spares_deleteDirectoryRecursive, spares_deleteInode,
    startUpload, validateStartUploadRequest, ensureNoActiveUploadSession, createUploadSession,
    putUploadSession,
    commitChunk, validateCommitChunkRequest, normalizeChunkReplicas, spares_normalizeReplicas,
    upsertChunks, spares_pendingChunks, putChunk,
    completeUpload, validateCompleteUploadRequest, spares_ensureFileReadyForVerification,
    verifyUpload, validateVerifyUploadRequest, ensureFileReadyForAvailability,
    completeUploadSession,
    failUploadVerification, validateFailUploadVerificationRequest, failedChunkOffset,
    recordUploadFailure,
    retryUpload, spares_reopenChunks,
    registerNode, upsertNode, putNode, heartbeatNode, updateNodeHeartbeat] <;> grind

theorem plan_of_step {s t : MemoryState} {a : Action} (h : Step s a t) :
    (catalog t).plan = (catalog s).plan := by
  cases h with
  | call now call =>
    rcases exec_cases now call s with hsame | hyields
    · rw [hsame]
    · exact congrArg Records.lookup ((triple_iff.mp (spares_run now call) s rfl).1 () _ hyields)
  | reorder h => exact h.replicaPlans

end AstraStorage.Proofs
