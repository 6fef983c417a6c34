import AstraStorage.Proofs.NamespaceRefinement
import AstraStorage.Proofs.UploadClosingSpec

/-!
# What an action does

A failed call leaves the state as it was. A successful one changes the namespace or a node,
or is one of the six upload calls, whose guards and whose effect are known exactly.
-/

set_option mvcgen.warning false

namespace AstraStorage.Proofs
open Lib Store Service Function Relation

variable {s t : MemoryState} {now : Time} {α : Type} {call : Call} {a : Action} {z : ChunkMetadata}
  {c : Prop} {k : UploadSessionID}

def FailsCleanly {α : Type} (x : StoreM α) : Prop := ∀ s e t, x s = .error e t → t = s

lemma failsCleanly_inTx : FailsCleanly (inTx x) := by
  intro s e t h
  unfold inTx at h
  cases hx : x s with
  | ok a s' => simp [hx] at h
  | error e' s' =>
    simp only [hx, EStateM.Result.error.injEq] at h
    exact h.2.symm

section Failures

open Std.Do

variable {x : StoreM α}

lemma failsCleanly_iff : FailsCleanly x ↔
    ∀ s, ⦃fun t => ⌜t = s⌝⦄ x ⦃post⟨fun _ _ => ⌜True⌝, fun _ t => ⌜t = s⌝⟩⦄ := by
  simp [FailsCleanly, triple_iff]

lemma triple_inTx : ⦃fun t => ⌜t = s⌝⦄ inTx x ⦃post⟨fun _ _ => ⌜True⌝, fun _ t => ⌜t = s⌝⟩⦄ :=
  failsCleanly_iff.mp failsCleanly_inTx s

@[spec] lemma reject_spec [Decidable c] : ⦃fun t => ⌜t = s⌝⦄ reject c kind format args
    ⦃post⟨fun _ t => ⌜t = s⌝, fun _ t => ⌜t = s⌝⟩⦄ := by
  mvcgen [reject, fail]

@[spec] lemma expect_spec {v : Option α} : ⦃fun t => ⌜t = s⌝⦄ expect v kind format args
    ⦃post⟨fun _ t => ⌜t = s⌝, fun _ t => ⌜t = s⌝⟩⦄ := by
  mvcgen [expect, fail]

lemma failsCleanly_run (call : Call) : FailsCleanly (call.run now) := by
  refine failsCleanly_iff.mpr fun s => ?_
  cases call <;> mvcgen [Call.run, createDirectory, validateCreateDirectoryRequest,
    Service.createFile, validateCreateFileRequest, Service.renameInode,
    validateRenameInodeRequest, Service.moveInode, validateMoveInodeRequest, Service.deleteFile,
    deleteDirectory, startUpload, validateStartUploadRequest, commitChunk,
    validateCommitChunkRequest, validateChecksumShape, completeUpload,
    validateCompleteUploadRequest, verifyUpload, validateVerifyUploadRequest,
    failUploadVerification, validateFailUploadVerificationRequest, retryUpload, registerNode,
    validateNodeSpace, heartbeatNode, triple_inTx] <;> grind

end Failures

/-- A call either leaves the state as it was or returns in the state it leaves. -/
theorem exec_cases (now : Time) (call : Call) (s : MemoryState) :
    call.exec now s = s ∨ Yields (call.run now) s () (call.exec now s) := by
  unfold Call.exec
  cases h : call.run now s with
  | ok a t => exact .inr h
  | error e t => exact .inl (failsCleanly_run call s e t h)

lemma exec_of_yields (h : Yields (call.run now) s () t) : call.exec now s = t := by
  rw [Call.exec, h]

structure SameButNodes (c c' : Catalog) : Prop where
  inode : c'.inode = c.inode
  file : c'.file = c.file
  chunk : c'.chunk = c.chunk
  session : c'.session = c.session
  plan : c'.plan = c.plan

section Nodes

variable {a : NodeInfo}

lemma putNode_getNode_spec (h : Yields (putNode node >>= fun _ => getNode n) s a t) :
    t = { s with nodes := s.nodes.put node } := by
  obtain ⟨⟨⟩, r, hput, hget⟩ := yields_bind.mp h
  rw [yields_putNode] at hput
  rw [getNode, yields_get_bind, yields_expect] at hget
  rw [hget.2, hput]

lemma registerNode_spec (h : Yields (registerNode now req) s a t) :
    ∃ node, t = { s with nodes := s.nodes.put node } ∧ node.id = req.id ∧ req.id ≠ "" := by
  simp only [registerNode, validateNodeSpace, bind_assoc, yields_reject_bind, yields_inTx,
    upsertNode] at h
  obtain ⟨hid, _, _, _, _, _, h⟩ := h
  exact ⟨_, putNode_getNode_spec h, rfl, hid⟩

lemma heartbeatNode_spec (h : Yields (heartbeatNode now req) s a t) :
    ∃ old node, t = { s with nodes := s.nodes.put node } ∧ node.id = old.id ∧
      (catalog s).node req.nodeID = some old := by
  simp only [heartbeatNode, validateNodeSpace, bind_assoc, yields_reject_bind, yields_inTx,
    updateNodeHeartbeat, yields_get_bind, yields_expect_bind] at h
  obtain ⟨_, _, _, old, hold, _, h⟩ := h
  exact ⟨old, _, putNode_getNode_spec h, rfl, hold⟩

lemma registerNode_changes (h : Yields ((Call.registerNode req).run now) s () t) :
    SameButNodes (catalog s) (catalog t) := by
  obtain ⟨a, h, -⟩ := yields_map.mp h
  obtain ⟨_, rfl, -⟩ := registerNode_spec h
  exact ⟨rfl, rfl, rfl, rfl, rfl⟩

lemma heartbeatNode_changes (h : Yields ((Call.heartbeatNode req).run now) s () t) :
    SameButNodes (catalog s) (catalog t) := by
  obtain ⟨a, h, -⟩ := yields_map.mp h
  obtain ⟨_, _, rfl, -⟩ := heartbeatNode_spec h
  exact ⟨rfl, rfl, rfl, rfl, rfl⟩

end Nodes

def Call.names : Call → List String
  | .createDirectory req => [req.name]
  | .createFile req => [req.name]
  | .renameInode req => [req.newName]
  | .moveInode req => [req.newName]
  | _ => []

def Action.names : Action → List String
  | .call _ call => Call.names call
  | .reorder => []

inductive UploadEffect (s t : MemoryState) : Action → Prop
  | start {now req file} (hacc : StartAccepted s req file)
      (ht : catalog t = withUpload (catalog s) req.sessionID req.fileID
        (startedSession (requestTime now req.createdAt) req)
        (startedFile (requestTime now req.createdAt) req file) some) :
      UploadEffect s t (.call now (.startUpload req))
  | commit {now req y file replicas} (hacc : CommitAccepted s req y file)
      (ht : catalog t =
        { withUpload (catalog s) req.sessionID y.fileID
            (committedSession (requestTime now req.committedAt) req y)
            (reopenedFile (requestTime now req.committedAt)
              (maxChunkEnd (chunksOfFile t y.fileID)) file) some with
          chunk := update (catalog s).chunk req.chunkID
            (some (committedChunk (requestTime now req.committedAt) req y file replicas)) }) :
      UploadEffect s t (.call now (.commitChunk req))
  | complete {now req y file} (hacc : CompleteAccepted s req y file)
      (ht : catalog t = withUpload (catalog s) req.sessionID y.fileID
        (verifyingSession (requestTime now req.completedAt) req y)
        (verifyingFile (requestTime now req.completedAt) req y
          (maxChunkEnd (chunksOfFile s y.fileID)) file)
        (fun z => some (stampChunk .verifying "" (requestTime now req.completedAt) z))) :
      UploadEffect s t (.call now (.completeUpload req))
  | verify {now req y file checksum} (hacc : VerifyAccepted s req y file checksum)
      (ht : catalog t = withUpload (catalog s) req.sessionID y.fileID
        (availableSession (requestTime now req.verifiedAt) req y)
        (availableFile (requestTime now req.verifiedAt) y
          (maxChunkEnd (chunksOfFile s y.fileID)) checksum file)
        (fun z => some (stampChunk .available "" (requestTime now req.verifiedAt) z))) :
      UploadEffect s t (.call now (.verifyUpload req))
  | fail {now req y file} (hacc : FailAccepted s req y file)
      (ht : catalog t = withUpload (catalog s) req.sessionID y.fileID
        (failedSession (requestTime now req.failedAt) (blamedOffset s req) req y)
        (failedFile (requestTime now req.failedAt) (maxChunkEnd (chunksOfFile t y.fileID)) file)
        (fun z => some (failedChunk (requestTime now req.failedAt) req z))) :
      UploadEffect s t (.call now (.failUploadVerification req))
  | retry {now req y file} (hacc : RetryAccepted s req y file)
      (ht : catalog t = withUpload (catalog s) req.sessionID y.fileID
        (retriedSession (requestTime now req.retriedAt)
          (lastKept y.retry.lastFailedOffset "" (chunksOfFile s y.fileID)) y)
        { reopenedFile (requestTime now req.retriedAt) (maxChunkEnd (chunksOfFile t y.fileID)) file
          with checksum := {} }
        (reopenedChunk y.retry.lastFailedOffset (requestTime now req.retriedAt))) :
      UploadEffect s t (.call now (.retryUpload req))

inductive Effect (ok : String → Prop) (s t : MemoryState) : Action → Prop
  | same {a : Action} (ht : catalog t = catalog s) : Effect ok s t a
  | namespaces {a : Action}
      (ht : ReflTransGen (NamespaceChange ok) (catalog s) (catalog t)) : Effect ok s t a
  | nodes {a : Action} (ht : SameButNodes (catalog s) (catalog t)) : Effect ok s t a
  | upload {a : Action} (h : UploadEffect s t a) : Effect ok s t a

def sessionNamed : Call → Option UploadSessionID
  | .startUpload req => some req.sessionID
  | .commitChunk req => some req.sessionID
  | .completeUpload req => some req.sessionID
  | .verifyUpload req => some req.sessionID
  | .failUploadVerification req => some req.sessionID
  | .retryUpload req => some req.sessionID
  | _ => none

lemma run_uploadEffect (hw : WellFormed (catalog s)) (hk : sessionNamed call = some k)
    (h : Yields (call.run now) s () t) : UploadEffect s t (.call now call) := by
  cases call with
  | startUpload req =>
    obtain ⟨_, h, -⟩ := yields_map.mp h
    obtain ⟨_, hacc, ht, -⟩ := startUpload_spec h
    exact .start hacc ht
  | commitChunk req =>
    obtain ⟨_, h, -⟩ := yields_map.mp h
    obtain ⟨_, _, _, hacc, ht, -⟩ := commitChunk_spec hw h
    exact .commit hacc ht
  | completeUpload req =>
    obtain ⟨_, h, -⟩ := yields_map.mp h
    obtain ⟨_, _, hacc, ht, -⟩ := completeUpload_spec hw h
    exact .complete hacc ht
  | verifyUpload req =>
    obtain ⟨_, h, -⟩ := yields_map.mp h
    obtain ⟨_, _, _, hacc, ht, -⟩ := verifyUpload_spec hw h
    exact .verify hacc ht
  | failUploadVerification req =>
    obtain ⟨_, h, -⟩ := yields_map.mp h
    obtain ⟨_, _, hacc, ht, -⟩ := failUploadVerification_spec hw h
    exact .fail hacc ht
  | retryUpload req =>
    obtain ⟨_, h, -⟩ := yields_map.mp h
    obtain ⟨_, _, hacc, ht, -⟩ := retryUpload_spec hw h
    exact .retry hacc ht
  | _ => cases hk

section Step

variable {ok : String → Prop}

lemma run_effect (hw : WellFormed (catalog s)) (hok : ∀ name ∈ Call.names call, ok name)
    (h : Yields (call.run now) s () t) : Effect ok s t (.call now call) := by
  cases call with
  | createDirectory req =>
    obtain ⟨_, h, -⟩ := yields_map.mp h
    exact .namespaces (.single (createDirectory_refines (hok _ (List.mem_singleton_self _)) h))
  | createFile req =>
    obtain ⟨_, h, -⟩ := yields_map.mp h
    exact .namespaces (.single (createFile_refines (hok _ (List.mem_singleton_self _)) h))
  | renameInode req =>
    obtain ⟨_, h, -⟩ := yields_map.mp h
    exact .namespaces (.single (renameInode_refines hw (hok _ (List.mem_singleton_self _)) h))
  | moveInode req =>
    obtain ⟨_, h, -⟩ := yields_map.mp h
    exact .namespaces (.single (moveInode_refines hw (hok _ (List.mem_singleton_self _)) h))
  | deleteFile req => exact .namespaces (.single (deleteFile_refines hw h))
  | deleteDirectory req => exact .namespaces (deleteDirectory_refines hw h)
  | registerNode req => exact .nodes (registerNode_changes h)
  | heartbeatNode req => exact .nodes (heartbeatNode_changes h)
  | _ => exact .upload (run_uploadEffect hw rfl h)

theorem step_effect (ok : String → Prop) (hw : WellFormed (catalog s))
    (hok : ∀ name ∈ Action.names a, ok name) (h : Step s a t) : Effect ok s t a := by
  cases h with
  | call now call =>
    rcases exec_cases now call s with hsame | hyields
    · exact .same (by rw [hsame])
    · exact run_effect hw hok hyields
  | reorder h => exact .same (sameRecords_iff.mp h)

lemma effect_of_step (hw : WellFormed (catalog s)) (h : Step s a t) :
    Effect (fun _ => True) s t a :=
  step_effect _ hw (fun _ _ => trivial) h

end Step

/-- The guards of an upload call. -/
def UploadAccepted (s : MemoryState) : Call → Prop
  | .startUpload req => ∃ file, StartAccepted s req file
  | .commitChunk req => ∃ y file, CommitAccepted s req y file
  | .completeUpload req => ∃ y file, CompleteAccepted s req y file
  | .verifyUpload req => ∃ y file checksum, VerifyAccepted s req y file checksum
  | .failUploadVerification req => ∃ y file, FailAccepted s req y file
  | .retryUpload req => ∃ y file, RetryAccepted s req y file
  | _ => False

lemma UploadEffect.accepted (h : UploadEffect s t (.call now call)) : UploadAccepted s call := by
  cases h with
  | start hacc => exact ⟨_, hacc⟩
  | commit hacc | complete hacc | fail hacc | retry hacc => exact ⟨_, _, hacc⟩
  | verify hacc => exact ⟨_, _, _, hacc⟩

lemma UploadAccepted.sessionNamed (h : UploadAccepted s call) :
    ∃ k, sessionNamed call = some k := by
  cases call
  case startUpload | commitChunk | completeUpload | verifyUpload | failUploadVerification
    | retryUpload => exact ⟨_, rfl⟩
  all_goals exact h.elim

lemma Returns.discard (h : Returns x s) : ∃ t, Yields ((fun _ => ()) <$> x) s () t := by
  obtain ⟨a, t, h⟩ := h
  exact ⟨t, yields_map.mpr ⟨a, h, rfl⟩⟩

lemma UploadAccepted.returns (now : Time) (hw : WellFormed (catalog s))
    (h : UploadAccepted s call) : ∃ t, Yields (call.run now) s () t := by
  cases call with
  | startUpload req =>
    obtain ⟨_, hacc⟩ := h
    exact Returns.discard hacc.returns
  | commitChunk _ | completeUpload _ | failUploadVerification _ | retryUpload _ =>
    obtain ⟨_, _, hacc⟩ := h
    exact Returns.discard (hacc.returns hw)
  | verifyUpload req =>
    obtain ⟨_, _, _, hacc⟩ := h
    exact Returns.discard (hacc.returns hw)
  | _ => exact h.elim

/-- The guards decide what an upload call does: it has its effect or none at all. -/
theorem UploadAccepted.effect (hw : WellFormed (catalog s)) (h : UploadAccepted s call) :
    UploadEffect s (call.exec now s) (.call now call) := by
  obtain ⟨k, hk⟩ := h.sessionNamed
  obtain ⟨t, hyields⟩ := h.returns now hw
  rw [exec_of_yields hyields]
  exact run_uploadEffect hw hk hyields

theorem exec_of_refused (hw : WellFormed (catalog s)) (hk : sessionNamed call = some k)
    (h : ¬UploadAccepted s call) : call.exec now s = s := by
  rcases exec_cases now call s with hsame | hyields
  · exact hsame
  · exact absurd (run_uploadEffect hw hk hyields).accepted h

section Changes

variable {c : Catalog} {f : FileID} {y y' : UploadSession} {file file' : FileMetadata}

lemma chunk_withUpload :
    (withUpload c k f y' file' g).chunk j = some z' ↔
      ∃ z, c.chunk j = some z ∧ (if z.fileID = f then g z else some z) = some z' := by
  simp only [withUpload, mapChunks, Option.bind_eq_some_iff]

lemma uploadChange_withUpload (hfile : c.file f = some file)
    (howned : ∀ y, c.session k = some y → y.fileID = f) (hid : SameIdentity file file')
    (hlatest : file'.latestUploadSessionID = file.latestUploadSessionID ∨
      file'.latestUploadSessionID = k)
    (hy' : y'.fileID = f) (hg : ∀ z z', g z = some z' → z'.fileID = z.fileID) :
    UploadChange c (withUpload c k f y' file' g) f k file file' y' := by
  refine ⟨hfile, howned, rfl, rfl, rfl, rfl, hid, hlatest, rfl, hy', ?_, ?_⟩
  · intro j z' hz'
    obtain ⟨z, hz, hz'⟩ := chunk_withUpload.mp hz'
    by_cases hzf : z.fileID = f
    · rw [if_pos hzf] at hz'
      exact .inr ((hg z z' hz').trans hzf)
    · rw [if_neg hzf] at hz'
      cases hz'
      exact .inl hz
  · intro hempty
    simp [withUpload, mapChunks, hempty]

lemma UploadChange.putChunk (h : UploadChange c c' f k file file' y') (hz : z.fileID = f)
    (hj : j ≠ "") :
    UploadChange c { c' with chunk := update c.chunk j (some z) } f k file file' y' := by
  refine { h with chunk := ?_, chunk_ne := ?_ }
  · intro i z' hz'
    rcases update_some_eq_some.mp hz' with ⟨_, rfl⟩ | ⟨_, hz'⟩
    · exact .inr hz
    · exact .inl hz'
  · intro hempty
    simpa only [update_of_ne hj.symm] using hempty

lemma Uploads.owned (h : Uploads c k y file) :
    ∀ y1, c.session k = some y1 → y1.fileID = y.fileID := by
  intro y1 hy1
  obtain rfl : y = y1 := Option.mem_unique h.session hy1
  rfl

lemma stampChunk_fileID (h : some (stampChunk status errorCode when z) = some z') :
    z'.fileID = z.fileID := by
  cases h
  rfl

lemma reopenedChunk_fileID (h : reopenedChunk restart when z = some z') : z'.fileID = z.fileID := by
  unfold reopenedChunk at h
  split at h
  · exact stampChunk_fileID h
  · cases h

inductive CatalogStep (ok : String → Prop) (c c' : Catalog) : Prop
  | namespaces (h : ReflTransGen (NamespaceChange ok) c c')
  | upload {f : FileID} {k : UploadSessionID} {file file' : FileMetadata} {y' : UploadSession}
      (h : UploadChange c c' f k file file' y')
  | nodes (h : SameButNodes c c')

theorem UploadEffect.uploadChange (h : UploadEffect s t a) :
    ∃ f k file file' y', UploadChange (catalog s) (catalog t) f k file file' y' := by
  cases h with
  | @start now req file hacc ht =>
    have hfresh : ∀ y, (catalog s).session req.sessionID = some y → y.fileID = req.fileID := by
      intro y hy
      rw [hacc.fresh] at hy
      cases hy
    rw [ht]
    exact ⟨_, _, _, _, _, uploadChange_withUpload hacc.stored hfresh ⟨rfl, rfl, rfl, rfl, rfl⟩
      (.inr rfl) rfl (by rintro z z' ⟨⟩; rfl)⟩
  | commit hacc ht =>
    rw [ht]
    exact ⟨_, _, _, _, _, UploadChange.putChunk (uploadChange_withUpload hacc.uploads.stored
      hacc.uploads.owned ⟨rfl, rfl, rfl, rfl, rfl⟩ (.inl rfl) rfl (by rintro z z' ⟨⟩; rfl))
      rfl hacc.chunkID_ne⟩
  | complete hacc ht | verify hacc ht | fail hacc ht =>
    rw [ht]
    exact ⟨_, _, _, _, _, uploadChange_withUpload hacc.uploads.stored hacc.uploads.owned
      ⟨rfl, rfl, rfl, rfl, rfl⟩ (.inl rfl) rfl (by rintro z z' ⟨⟩; rfl)⟩
  | retry hacc ht =>
    rw [ht]
    exact ⟨_, _, _, _, _, uploadChange_withUpload hacc.uploads.stored hacc.uploads.owned
      ⟨rfl, rfl, rfl, rfl, rfl⟩ (.inl rfl) rfl (fun _ _ => reopenedChunk_fileID)⟩

theorem Effect.catalogStep (h : Effect ok s t a) : CatalogStep ok (catalog s) (catalog t) := by
  cases h with
  | same ht => exact .namespaces (ht ▸ .refl)
  | namespaces ht => exact .namespaces ht
  | nodes ht => exact .nodes ht
  | upload h =>
    obtain ⟨_, _, _, _, _, hchange⟩ := h.uploadChange
    exact .upload hchange

end Changes

end AstraStorage.Proofs
