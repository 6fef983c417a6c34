import AstraStorage.Proofs.Chunks

/-!
# Superseded sessions

Only commits look at the latest session; the other calls are stopped by their own guards alone.
-/

namespace AstraStorage.Proofs
open Store Service Function Option

variable {s t : MemoryState} {history : List (MemoryState × Action)} {y y' : UploadSession}
  {file file' : FileMetadata} {α : Type} {when : Time} {z : ChunkMetadata}
  {req : FailUploadVerificationRequest} {k : UploadSessionID}

structure UploadUnchanged (s t : MemoryState) (f : FileID) : Prop where
  file : (catalog t).file f = (catalog s).file f
  chunks : chunksOfFile t f = chunksOfFile s f
  session : (catalog t).session = (catalog s).session

structure Stamped (status : ChunkStatus) (errorCode : String) (when : Time) (z : ChunkMetadata) :
    Prop where
  status : z.status = status
  errorCode : z.lastErrorCode = errorCode
  verifiedAt : ∀ time ∈ z.checksum.verifiedAt, z.verifiedAt = some time
  updatedAt : z.updatedAt = when

structure Shows (s : MemoryState) (y : UploadSession) (file : FileMetadata) (when : Time)
    (uploadStatus : UploadStatus) (fileStatus : FileStatus) (chunkStatus : ChunkStatus)
    (errorCode : String) : Prop where
  upload : y.status = uploadStatus ∧ y.updatedAt = when
  record : file.status = fileStatus ∧ file.updatedAt = when
  stored : file.storedSize = maxChunkEnd (chunksOfFile s y.fileID)
  chunks : ∀ z ∈ chunksOfFile s y.fileID, Stamped chunkStatus errorCode when z

structure HoldsFailure (s : MemoryState) (when : Time) (req : FailUploadVerificationRequest)
    (retry : RetryState) : Prop where
  attempts : retry.attempt = req.attempt ∧ retry.maxAttempts = req.maxAttempts
  retryable : retry.retryable = req.retryable
  error : retry.lastErrorCode = req.errorCode ∧ retry.lastErrorMessage = req.errorMessage
  chunk : retry.lastFailedChunk = req.chunkID ∧ retry.lastFailedOffset = blamedOffset s req
  failedAt : retry.lastFailureAt = some when
  nextRetryAt : ∀ time ∈ req.nextRetryAt, retry.nextRetryAt = some time

def Repeats (s : MemoryState) (now : Time) (y : UploadSession) (file : FileMetadata) : Call → Prop
  | .completeUpload req =>
    Shows s y file (requestTime now req.completedAt) .verifying .verifying .verifying "" ∧
      file.size = expectedFileSize file y ∧
      ∀ c ∈ req.finalChecksum,
        (checksumReady c = true → y.verifiedChecksum = some c ∧ file.checksum = c) ∧
        (checksumReady c = false → y.expectedChecksum = some c)
  | .verifyUpload req =>
    Shows s y file (requestTime now req.verifiedAt) .completed .available .available "" ∧
      file.size = expectedFileSize file y ∧
      y.completedAt = some (requestTime now req.verifiedAt) ∧
      file.completedAt = some (requestTime now req.verifiedAt) ∧
      y.verifiedChecksum = some file.checksum
  | .failUploadVerification req =>
    Shows s y file (requestTime now req.failedAt)
        (if req.retryable ∧ req.attempt < req.maxAttempts then .retrying else .failed)
        .failed .failed req.errorCode ∧
      HoldsFailure s (requestTime now req.failedAt) req y.retry ∧ file.checksum = {} ∧
      ∀ z ∈ chunksOfFile s y.fileID, z.id = req.chunkID → ∀ c ∈ req.actualChecksum, z.checksum = c
  | _ => False

lemma orElse_eq_right : (o <|> p) = p ↔ ∀ c ∈ o, p = some c := by
  cases o with
  | none => simp
  | some c => simp [eq_comm]

lemma getD_eq_default {o : Option α} : o.getD d = d ↔ ∀ c ∈ o, d = c := by
  cases o with
  | none => simp
  | some c => simp [eq_comm]

lemma filter_forall_mem {o : Option α} {q : α → Prop} :
    (∀ c ∈ o.filter p, q c) ↔ ∀ c ∈ o, p c = true → q c := by
  simp only [mem_def, filter_eq_some_iff, and_imp]

lemma stampChunk_eq_self :
    stampChunk status errorCode when z = z ↔ Stamped status errorCode when z := by
  obtain ⟨⟩ := z
  simp only [stampChunk, patchChunk, restamp, getD_some, ChunkMetadata.mk.injEq, true_and,
    orElse_eq_right]
  constructor
  · rintro ⟨rfl, rfl, h, rfl⟩
    exact ⟨rfl, rfl, h, rfl⟩
  · rintro ⟨rfl, rfl, h, rfl⟩
    exact ⟨rfl, rfl, h, rfl⟩

lemma failedChunk_eq_self :
    failedChunk when req z = z ↔
      Stamped .failed req.errorCode when z ∧
        (z.id = req.chunkID → ∀ c ∈ req.actualChecksum, z.checksum = c) := by
  have hchecksum : (if z.id = req.chunkID then req.actualChecksum.getD z.checksum else z.checksum) =
      z.checksum ↔ (z.id = req.chunkID → ∀ c ∈ req.actualChecksum, z.checksum = c) := by
    by_cases hid : z.id = req.chunkID
    · simp only [hid, if_true, forall_const, getD_eq_default]
    · simp [hid]
  rw [← hchecksum, ← stampChunk_eq_self]
  constructor
  · intro h
    have hsame := congrArg ChunkMetadata.checksum h
    refine ⟨?_, hsame⟩
    rw [failedChunk, show (if z.id = req.chunkID then req.actualChecksum.getD z.checksum
      else z.checksum) = z.checksum from hsame] at h
    exact h
  · rintro ⟨h, hsame⟩
    rw [failedChunk, hsame]
    exact h

lemma uploadUnchanged_withUpload {g : ChunkMetadata → ChunkMetadata} (hc : ChunkTable (catalog t))
    (hg : ∀ z, SamePlace z (g z)) (hup : Uploads (catalog s) k y file)
    (ht : catalog t = withUpload (catalog s) k y.fileID y' file' (fun z => some (g z))) :
    UploadUnchanged s t y.fileID ↔
      y' = y ∧ file' = file ∧ ∀ z ∈ chunksOfFile s y.fileID, g z = z := by
  have hlist := chunksOfFile_withUpload hc hg ht
  have hsession : (catalog t).session = update (catalog s).session k (some y') := by
    rw [ht, session_withUpload]
  have hfile : (catalog t).file = update (catalog s).file y.fileID (some file') := by
    rw [ht, file_withUpload]
  constructor
  · intro h
    have hy := congrFun (hsession.symm.trans h.session) k
    have hf := h.file
    have hz := hlist.symm.trans h.chunks
    rw [update_self, hup.session] at hy
    rw [hfile, update_self, hup.stored] at hf
    rw [← List.map_id (chunksOfFile s y.fileID), List.map_map, List.map_inj_left] at hz
    exact ⟨some.inj hy, some.inj hf, hz⟩
  · rintro ⟨rfl, rfl, hz⟩
    refine ⟨?_, ?_, ?_⟩
    · rw [hfile, update_self, hup.stored]
    · rw [hlist]
      exact (List.map_congr_left hz).trans (List.map_id _)
    · rw [hsession, ← hup.session, update_eq_self]

lemma verifyingSession_eq_self {req : CompleteUploadRequest} :
    verifyingSession when req y = y ↔ y.status = .verifying ∧ y.updatedAt = when ∧
      ∀ c ∈ req.finalChecksum, (checksumReady c = true → y.verifiedChecksum = some c) ∧
        (checksumReady c = false → y.expectedChecksum = some c) := by
  obtain ⟨⟩ := y
  simp only [verifyingSession, UploadSession.mk.injEq, true_and, and_true, orElse_eq_right,
    filter_forall_mem, decide_eq_true_eq]
  constructor
  · rintro ⟨rfl, hexpected, hverified, rfl⟩
    exact ⟨rfl, rfl, fun c hc => ⟨hverified c hc, hexpected c hc⟩⟩
  · rintro ⟨rfl, rfl, h⟩
    exact ⟨rfl, fun c hc => (h c hc).2, fun c hc => (h c hc).1, rfl⟩

lemma verifyingFile_eq_self {req : CompleteUploadRequest} :
    verifyingFile when req y storedSize file = file ↔
      (file.status = .verifying ∧ file.updatedAt = when) ∧ file.storedSize = storedSize ∧
        file.size = expectedFileSize file y ∧
        ∀ c ∈ req.finalChecksum, checksumReady c = true → file.checksum = c := by
  have hchecksum : ∀ c : Checksum, (req.finalChecksum.filter checksumReady).getD c = c ↔
      ∀ d ∈ req.finalChecksum, checksumReady d = true → c = d := by
    intro c
    rw [getD_eq_default, filter_forall_mem]
  obtain ⟨⟩ := file
  simp only [verifyingFile, FileMetadata.mk.injEq, true_and, and_true, hchecksum]
  constructor
  · rintro ⟨hsize, rfl, rfl, h, rfl⟩
    exact ⟨⟨rfl, rfl⟩, rfl, hsize.symm, h⟩
  · rintro ⟨⟨rfl, rfl⟩, rfl, hsize, h⟩
    exact ⟨hsize.symm, rfl, rfl, h, rfl⟩

lemma availableSession_eq_self {req : VerifyUploadRequest} :
    availableSession when req y = y ↔ (y.status = .completed ∧ y.updatedAt = when) ∧
      y.completedAt = some when ∧ ∀ c ∈ req.verifiedChecksum, y.verifiedChecksum = some c := by
  obtain ⟨⟩ := y
  simp only [availableSession, UploadSession.mk.injEq, true_and, and_true, orElse_eq_right]
  constructor
  · rintro ⟨rfl, h, rfl, rfl⟩
    exact ⟨⟨rfl, rfl⟩, rfl, h⟩
  · rintro ⟨⟨rfl, rfl⟩, rfl, h⟩
    exact ⟨rfl, h, rfl, rfl⟩

lemma availableFile_eq_self :
    availableFile when y storedSize checksum file = file ↔
      (file.status = .available ∧ file.updatedAt = when) ∧ file.storedSize = storedSize ∧
        file.size = expectedFileSize file y ∧ file.completedAt = some when ∧
        file.checksum = checksum := by
  obtain ⟨⟩ := file
  simp only [availableFile, FileMetadata.mk.injEq, true_and]
  constructor
  · rintro ⟨hsize, rfl, rfl, rfl, rfl, rfl⟩
    exact ⟨⟨rfl, rfl⟩, rfl, hsize.symm, rfl, rfl⟩
  · rintro ⟨⟨rfl, rfl⟩, rfl, hsize, rfl, rfl⟩
    exact ⟨hsize.symm, rfl, rfl, rfl, rfl, rfl⟩

lemma failedSession_eq_self :
    failedSession when (blamedOffset s req) req y = y ↔
      (y.status = (if req.retryable ∧ req.attempt < req.maxAttempts then .retrying else .failed) ∧
        y.updatedAt = when) ∧ HoldsFailure s when req y.retry := by
  obtain ⟨_, _, _, _, _, _, _, _, _, _, _, ⟨⟩⟩ := y
  simp only [failedSession, UploadSession.mk.injEq, RetryState.mk.injEq, true_and, and_true,
    orElse_eq_right]
  constructor
  · rintro ⟨rfl, ⟨rfl, rfl, rfl, rfl, rfl, rfl, rfl, rfl, h⟩, rfl⟩
    exact ⟨⟨rfl, rfl⟩, ⟨rfl, rfl⟩, rfl, ⟨rfl, rfl⟩, ⟨rfl, rfl⟩, rfl, h⟩
  · rintro ⟨⟨rfl, rfl⟩, ⟨rfl, rfl⟩, rfl, ⟨rfl, rfl⟩, ⟨rfl, hoffset⟩, rfl, h⟩
    exact ⟨rfl, ⟨rfl, rfl, rfl, rfl, rfl, hoffset.symm, rfl, rfl, h⟩, rfl⟩

lemma failedFile_eq_self :
    failedFile when storedSize file = file ↔
      (file.status = .failed ∧ file.updatedAt = when) ∧ file.storedSize = storedSize ∧
        file.checksum = {} := by
  obtain ⟨⟩ := file
  simp only [failedFile, FileMetadata.mk.injEq, true_and, and_true]
  constructor
  · rintro ⟨rfl, rfl, rfl, rfl⟩
    exact ⟨⟨rfl, rfl⟩, rfl, rfl⟩
  · rintro ⟨⟨rfl, rfl⟩, rfl, rfl⟩
    exact ⟨rfl, rfl, rfl, rfl⟩

lemma VerifyAccepted.of_completed {req : VerifyUploadRequest}
    (h : VerifyAccepted s req y file checksum) (hstatus : y.status = .completed) :
    req.verifiedChecksum = none ∧ y.verifiedChecksum = some checksum := by
  have hnone : req.verifiedChecksum = none := by
    by_contra hsome
    exact (h.reported (isSome_iff_ne_none.mpr hsome)).1 hstatus
  have hselected := h.selected
  rw [hnone] at hselected
  exact ⟨hnone, (filter_eq_some_iff.mp hselected).1⟩

lemma UploadEffect.unchanged_iff (hc : ChunkTable (catalog t))
    (hup : Uploads (catalog s) k y file) (hk : sessionNamed call = some k)
    (hcommit : ∀ req, call ≠ .commitChunk req) (h : UploadEffect s t (.call now call)) :
    UploadUnchanged s t y.fileID ↔ Repeats s now y file call := by
  cases h with
  | start hacc =>
    cases hk
    have hstored := hup.session
    rw [hacc.fresh] at hstored
    cases hstored
  | commit => exact absurd rfl (hcommit _)
  | complete hacc ht =>
    cases hk
    obtain ⟨rfl, rfl⟩ := hup.unique hacc.uploads
    rw [uploadUnchanged_withUpload hc samePlace_stampChunk hup ht, verifyingSession_eq_self,
      verifyingFile_eq_self]
    simp only [stampChunk_eq_self]
    constructor
    · rintro ⟨⟨hstatus, htime, hsums⟩, ⟨hrecord, hstored, hsize, hsum⟩, hchunks⟩
      exact ⟨⟨⟨hstatus, htime⟩, hrecord, hstored, hchunks⟩, hsize,
        fun c hc => ⟨fun hr => ⟨(hsums c hc).1 hr, hsum c hc hr⟩, (hsums c hc).2⟩⟩
    · rintro ⟨hshows, hsize, hsums⟩
      exact ⟨⟨hshows.upload.1, hshows.upload.2,
        fun c hc => ⟨fun hr => ((hsums c hc).1 hr).1, (hsums c hc).2⟩⟩,
        ⟨hshows.record, hshows.stored, hsize, fun c hc hr => ((hsums c hc).1 hr).2⟩, hshows.chunks⟩
  | @verify _ req _ _ checksum hacc ht =>
    cases hk
    obtain ⟨rfl, rfl⟩ := hup.unique hacc.uploads
    rw [uploadUnchanged_withUpload hc samePlace_stampChunk hup ht, availableSession_eq_self,
      availableFile_eq_self]
    simp only [stampChunk_eq_self]
    constructor
    · rintro ⟨⟨hupload, hcompleted, _⟩, ⟨hrecord, hstored, hsize, hfinished, rfl⟩, hchunks⟩
      exact ⟨⟨hupload, hrecord, hstored, hchunks⟩, hsize, hcompleted, hfinished,
        (hacc.of_completed hupload.1).2⟩
    · rintro ⟨hshows, hsize, hcompleted, hfinished, hsum⟩
      obtain ⟨hnone, hselected⟩ := hacc.of_completed hshows.upload.1
      refine ⟨⟨hshows.upload, hcompleted, by simp [hnone]⟩, ⟨hshows.record, hshows.stored, hsize,
        hfinished, ?_⟩, hshows.chunks⟩
      exact mem_unique hsum hselected
  | @fail _ req _ _ hacc ht =>
    cases hk
    obtain ⟨rfl, rfl⟩ := hup.unique hacc.uploads
    have hfailed : ∀ z, SamePlace z (failedChunk (requestTime now req.failedAt) req z) :=
      fun _ => ⟨rfl, rfl, rfl, rfl, rfl⟩
    have hstored : maxChunkEnd (chunksOfFile t y.fileID) = maxChunkEnd (chunksOfFile s y.fileID) := by
      rw [chunksOfFile_withUpload hc hfailed ht, maxChunkEnd_map hfailed]
    rw [uploadUnchanged_withUpload hc hfailed hup ht, failedSession_eq_self, failedFile_eq_self,
      hstored]
    simp only [failedChunk_eq_self]
    constructor
    · rintro ⟨⟨hupload, hfailure⟩, ⟨hrecord, hstored, hsum⟩, hchunks⟩
      exact ⟨⟨hupload, hrecord, hstored, fun z hz => (hchunks z hz).1⟩, hfailure, hsum,
        fun z hz => (hchunks z hz).2⟩
    · rintro ⟨hshows, hfailure, hsum, hblamed⟩
      exact ⟨⟨hshows.upload, hfailure⟩, ⟨hshows.record, hshows.stored, hsum⟩,
        fun z hz => ⟨hshows.chunks z hz, hblamed z hz⟩⟩
  | @retry _ req _ _ hacc ht =>
    -- a retry needs a retrying session and makes it active
    cases hk
    obtain ⟨rfl, rfl⟩ := hup.unique hacc.uploads
    refine ⟨fun hsame => ?_, False.elim⟩
    have hsession := congrFun hsame.session req.sessionID
    rw [ht, session_withUpload, update_self, hup.session] at hsession
    have hstatus := congrArg UploadSession.status (some.inj hsession)
    rw [hacc.retrying] at hstatus
    cases hstatus

lemma CommitAccepted.not_superseded {req : CommitChunkRequest} (h : CommitAccepted s req y' file')
    (hup : Uploads (catalog s) req.sessionID y file) :
    file.latestUploadSessionID = "" ∨ file.latestUploadSessionID = req.sessionID := by
  obtain ⟨rfl, rfl⟩ := hup.unique h.uploads
  exact h.latest

theorem superseded_unchanged_iff (now : Time) (call : Call) {k : UploadSessionID}
    (hrun : ServiceRun history s) (hk : sessionNamed call = some k) (hup : Uploads (catalog s) k y file)
    (hne : file.latestUploadSessionID ≠ "") (hsup : file.latestUploadSessionID ≠ k) :
    (UploadUnchanged s (call.exec now s) y.fileID ↔
      (UploadAccepted s call → Repeats s now y file call)) ∧
      ∀ req, call = .commitChunk req → ¬UploadAccepted s call := by
  have hw := wellFormed_of_run hrun
  have hcommit : ∀ req, call = .commitChunk req → ¬UploadAccepted s call := by
    rintro req rfl ⟨y', file', hacc⟩
    cases hk
    rcases hacc.not_superseded hup with hempty | hlatest
    · exact hne hempty
    · exact hsup hlatest
  refine ⟨?_, hcommit⟩
  by_cases hacc : UploadAccepted s call
  · have hc : ChunkTable (catalog (call.exec now s)) :=
      chunkTable_of_run (hrun.next (.call now call))
    have heffect : UploadEffect s _ (.call now call) := hacc.effect hw
    rw [heffect.unchanged_iff hc hup hk fun req heq => hcommit req heq hacc]
    exact ⟨fun h _ => h, fun h => h hacc⟩
  · rw [exec_of_refused hw hk hacc]
    exact ⟨fun _ h => absurd h hacc, fun _ => ⟨rfl, rfl, rfl⟩⟩

lemma uploads_restartedUpload :
    ∃ y file, Uploads (catalog (play 1 restartedUpload).2) "u" y file ∧ y.fileID = "f" ∧
      file.latestUploadSessionID = "v" := by
  have hu : ((catalog (play 1 restartedUpload).2).session "u").map (·.fileID) = some "f" := by
    decide +kernel
  have hf : ((catalog (play 1 restartedUpload).2).file "f").map (·.latestUploadSessionID) =
      some "v" := by decide +kernel
  obtain ⟨y, hy, hyf⟩ := map_eq_some_iff.mp hu
  obtain ⟨file, hfile, hlatest⟩ := map_eq_some_iff.mp hf
  exact ⟨y, file, ⟨hy, hyf ▸ hfile⟩, hyf, hlatest⟩

theorem superseded_unchanged_restartedUpload :
    ∃ y file, Uploads (catalog (play 1 restartedUpload).2) "u" y file ∧
      file.latestUploadSessionID = "v" ∧
      UploadUnchanged (play 1 restartedUpload).2 ((Call.commitChunk
        { sessionID := "u", chunkID := "k", size := 4, committedAt := 2 }).exec 1
          (play 1 restartedUpload).2) y.fileID := by
  obtain ⟨y, file, hup, _, hlatest⟩ := uploads_restartedUpload
  refine ⟨y, file, hup, hlatest, ?_⟩
  have h := superseded_unchanged_iff 1 (.commitChunk
    { sessionID := "u", chunkID := "k", size := 4, committedAt := 2 })
    (serviceRun_play 1 restartedUpload) rfl hup (by simp [hlatest]) (by simp [hlatest])
  exact h.1.mpr fun hacc => absurd hacc (h.2 _ rfl)

/-- A second failure report for `u` is accepted and marks the file failed under upload `v`. -/
theorem superseded_changes_restartedUpload :
    ServiceRun (play 1 restartedUpload).1 (play 1 restartedUpload).2 ∧
      (∃ y file, Uploads (catalog (play 1 restartedUpload).2) "u" y file ∧ y.fileID = "f" ∧
        file.latestUploadSessionID = "v") ∧
      ¬UploadUnchanged (play 1 restartedUpload).2 ((Call.failUploadVerification
        { sessionID := "u", errorCode := "E", maxAttempts := 1 }).exec 1
          (play 1 restartedUpload).2) "f" := by
  obtain ⟨y, file, hup, hfile, hlatest⟩ := uploads_restartedUpload
  refine ⟨serviceRun_play 1 restartedUpload, ⟨y, file, hup, hfile, hlatest⟩, fun h => ?_⟩
  have hstatus := congrArg (Option.map FileMetadata.status) h.file
  exact absurd hstatus (by decide +kernel)

end AstraStorage.Proofs
