import AstraStorage.Proofs.UploadSpec

/-!
# The upload calls: complete, verify, fail and retry

These four close an upload or open it again. Each rewrites its session, its file and all
chunks of the file.
-/

namespace AstraStorage.Proofs
open Lib Store Service Function Yields

variable {α : Type} {s : MemoryState} {file : FileMetadata} {req : FailUploadVerificationRequest}
  {y : UploadSession}

def stampChunk (status : ChunkStatus) (errorCode : String) (when : Time) (z : ChunkMetadata) :
    ChunkMetadata :=
  patchChunk (restamp status errorCode when z) z

def stampAndPatch (f : FileID) (status : ChunkStatus) (when : Time) (patch : FilePatch) :
    StoreM FileMetadata := do
  let chunks ← listChunksByFile f
  chunks.forM fun chunk => updateChunkStatus (restamp status "" when chunk)
  updateFile patch
  getFile { id := f }

section StampAndPatch

variable {f : FileID} {status : ChunkStatus} {when : Time} {patch : FilePatch} (hf : f ≠ "")
  (hsel : patch.selector = { id := f }) (hsize : patch.chunkSize = none)
  (hempty : (catalog s).chunk "" = none) (hfile : (catalog s).file f = some file)
include hf hsel hsize hempty hfile

lemma stampAndPatch_spec
    (hr : catalog r = { catalog s with session := update (catalog s).session k (some y) })
    (h : Yields (stampAndPatch f status when patch) r a t) :
    catalog t = withUpload (catalog s) k f y (patchFile patch file)
        (fun z => some (stampChunk status "" when z)) ∧
      (catalog t).file f = some a := by
  have hempty' : (catalog r).chunk "" = none := by rw [hr]; exact hempty
  rw [stampAndPatch, yields_read_bind (fun _ _ => yields_listChunksByFile)] at h
  obtain ⟨_, rfl, h⟩ := h
  obtain ⟨⟨⟩, r', hloop, h⟩ := yields_bind.mp h
  have hr' := restampLoop_spec hempty' (fun _ => rfl) hloop
  obtain ⟨⟨⟩, t', hupdate, hget⟩ := yields_bind.mp h
  obtain ⟨file1, hfile1, _, ht⟩ := updateFile_spec hf hsel hsize hupdate
  obtain ⟨ha, rfl⟩ := (yields_getFile hf).mp hget
  rw [hr', hr] at hfile1 ht
  obtain rfl : file = file1 := Option.mem_unique hfile hfile1
  exact ⟨ht, ha⟩

lemma stampAndPatch_returns : Returns (stampAndPatch f status when patch) s := by
  refine andThen (yields_listChunksByFile.mpr ⟨rfl, rfl⟩) ?_
  refine restampLoop_andThen rfl hempty (fun _ => rfl) fun r hr => ?_
  refine updateFile_getFile_returns hf hsel hsize (?_ : (catalog r).file f = some file)
  rw [hr]
  exact hfile

end StampAndPatch

lemma yields_uploads {rest : UploadSession → FileMetadata → StoreM α} {a : α}
    (hw : WellFormed (catalog s)) (h : ∃ y, (catalog s).session k = some y ∧
      Yields (getFile { id := y.fileID } >>= rest y) s a t) :
    ∃ y file, Uploads (catalog s) k y file ∧ y.fileID ≠ "" ∧ y.id = k ∧ file.id = y.fileID ∧
      Yields (rest y file) s a t := by
  obtain ⟨y, hy, h⟩ := h
  obtain ⟨file, hfile⟩ := hw.links.session_file _ y hy
  have huploads : Uploads (catalog s) k y file := ⟨hy, hfile⟩
  have hf : y.fileID ≠ "" := huploads.fileID_ne hw
  rw [yields_getFile_bind hf] at h
  obtain ⟨file', hfile', h⟩ := h
  obtain rfl : file = file' := Option.mem_unique hfile hfile'
  exact ⟨y, file, huploads, hf, session_id hy, file_id hfile, h⟩

lemma Uploads.returns {rest : UploadSession → FileMetadata → StoreM α}
    (h : Uploads (catalog s) k y file) (hw : WellFormed (catalog s))
    (hrest : y.fileID ≠ "" → y.id = k → file.id = y.fileID → Returns (rest y file) s) :
    Returns (do let y ← getUploadSession k; getFile { id := y.fileID } >>= rest y) s := by
  have hf := h.fileID_ne hw
  refine andThen (yields_getUploadSession.mpr ⟨h.session, rfl⟩) ?_
  refine andThen ((yields_getFile hf).mpr ⟨h.stored, rfl⟩) ?_
  exact hrest hf (session_id h.session) (file_id h.stored)

structure CompleteAccepted (s : MemoryState) (req : CompleteUploadRequest) (y : UploadSession)
    (file : FileMetadata) : Prop where
  sessionID_ne : req.sessionID ≠ ""
  shape : ∀ c ∈ req.finalChecksum, c.verified = true → c.verifiedAt ≠ none
  uploads : Uploads (catalog s) req.sessionID y file
  status : req.expectedStatuses = [] ∨ file.status ∈ req.expectedStatuses
  verifiable : Verifiable s file y (maxChunkEnd (chunksOfFile s y.fileID))
  unfinished : y.status ≠ .completed
  offsets : OffsetsFit s y y.confirmedOffset y.nextOffset

def verifyingSession (when : Time) (req : CompleteUploadRequest) (y : UploadSession) :
    UploadSession :=
  { y with
    status := .verifying
    expectedChecksum := req.finalChecksum.filter (checksumReady · = false) <|> y.expectedChecksum
    verifiedChecksum := req.finalChecksum.filter checksumReady <|> y.verifiedChecksum
    updatedAt := when }

def verifyingFile (when : Time) (req : CompleteUploadRequest) (y : UploadSession)
    (storedSize : Int64) (file : FileMetadata) : FileMetadata :=
  { file with
    status := .verifying
    size := expectedFileSize file y
    storedSize := storedSize
    checksum := (req.finalChecksum.filter checksumReady).getD file.checksum
    updatedAt := when }

theorem completeUpload_spec {req : CompleteUploadRequest} (hw : WellFormed (catalog s))
    (h : Yields (completeUpload now req) s a t) :
    ∃ y file, CompleteAccepted s req y file ∧
      catalog t = withUpload (catalog s) req.sessionID y.fileID
        (verifyingSession (requestTime now req.completedAt) req y)
        (verifyingFile (requestTime now req.completedAt) req y
          (maxChunkEnd (chunksOfFile s y.fileID)) file)
        (fun z => some (stampChunk .verifying "" (requestTime now req.completedAt) z)) ∧
      (catalog t).file y.fileID = some a := by
  simp only [completeUpload, validateCompleteUploadRequest, bind_assoc, yields_reject_bind,
    yields_read_bind (fun _ _ => yields_validateChecksumShape), yields_inTx,
    yields_getUploadSession_bind] at h
  obtain ⟨hid, ⟨⟩, hshape, h⟩ := h
  obtain ⟨y, file, ⟨hy, hfile⟩, hf, hyid, hfid, h⟩ := yields_uploads hw h
  simp only [yields_read_bind (fun _ _ => yields_rejectFileStatus),
    yields_read_bind (fun _ _ => yields_currentStoredSize),
    yields_read_bind (fun _ _ => yields_ensureFileReadyForVerification), exists_eq_left,
    hfid, hyid] at h
  obtain ⟨⟨⟩, hstatus, ⟨⟩, hready, h⟩ := h
  obtain ⟨⟨⟩, r1, hprogress, hrest⟩ := yields_bind.mp h
  obtain ⟨y1, hy1, hopen, hoffsets, _, hr1⟩ := updateUploadProgress_spec hprogress
  obtain rfl : y = y1 := Option.mem_unique hy hy1
  have hend := stampAndPatch_spec hf rfl rfl hw.links.no_empty_chunk hfile hr1 hrest
  exact ⟨y, file, ⟨hid, hshape, ⟨hy, hfile⟩, hstatus, hready, hopen, hoffsets⟩, hend⟩

theorem CompleteAccepted.returns {req : CompleteUploadRequest} (hw : WellFormed (catalog s))
    (h : CompleteAccepted s req y file) : Returns (completeUpload now req) s := by
  rw [completeUpload, validateCompleteUploadRequest, bind_assoc]
  refine unitThen (yields_reject.mpr ⟨h.sessionID_ne, rfl⟩) ?_
  refine unitThen (yields_validateChecksumShape.mpr ⟨h.shape, rfl⟩) (returns_inTx.mpr ?_)
  refine h.uploads.returns hw fun hf hyid hfid => ?_
  simp only [hyid, hfid]
  refine unitThen (yields_rejectFileStatus.mpr ⟨h.status, rfl⟩) ?_
  refine andThen (yields_currentStoredSize.mpr ⟨rfl, rfl⟩) ?_
  refine unitThen (yields_ensureFileReadyForVerification.mpr ⟨h.verifiable, rfl⟩) ?_
  refine unitThen (yields_updateUploadProgress.mpr
    ⟨y, h.uploads.session, h.unfinished, h.offsets, rfl⟩) ?_
  exact stampAndPatch_returns hf rfl rfl hw.links.no_empty_chunk h.uploads.stored

structure VerifyAccepted (s : MemoryState) (req : VerifyUploadRequest) (y : UploadSession)
    (file : FileMetadata) (checksum : Checksum) : Prop where
  sessionID_ne : req.sessionID ≠ ""
  ready : ∀ c ∈ req.verifiedChecksum, checksumReady c = true
  uploads : Uploads (catalog s) req.sessionID y file
  status : req.expectedStatuses = [] ∨ file.status ∈ req.expectedStatuses
  verifiable : Verifiable s file y (maxChunkEnd (chunksOfFile s y.fileID))
  servable : ∀ z ∈ chunksOfFile s y.fileID, Servable file z
  selected : selectVerifiedFileChecksum req.verifiedChecksum y = some checksum
  reported : req.verifiedChecksum.isSome →
    y.status ≠ .completed ∧ OffsetsFit s y y.confirmedOffset y.nextOffset
  confirmed : 0 < uploadExpectedSize s y → y.confirmedOffset = uploadExpectedSize s y

def availableSession (when : Time) (req : VerifyUploadRequest) (y : UploadSession) :
    UploadSession :=
  { y with
    status := .completed
    verifiedChecksum := req.verifiedChecksum <|> y.verifiedChecksum
    completedAt := some when
    updatedAt := when }

def availableFile (when : Time) (y : UploadSession) (storedSize : Int64) (checksum : Checksum)
    (file : FileMetadata) : FileMetadata :=
  { file with
    status := .available
    size := expectedFileSize file y
    storedSize := storedSize
    checksum := checksum
    completedAt := some when
    updatedAt := when }

theorem verifyUpload_spec {req : VerifyUploadRequest} (hw : WellFormed (catalog s))
    (h : Yields (verifyUpload now req) s a t) :
    ∃ y file checksum, VerifyAccepted s req y file checksum ∧
      catalog t = withUpload (catalog s) req.sessionID y.fileID
        (availableSession (requestTime now req.verifiedAt) req y)
        (availableFile (requestTime now req.verifiedAt) y
          (maxChunkEnd (chunksOfFile s y.fileID)) checksum file)
        (fun z => some (stampChunk .available "" (requestTime now req.verifiedAt) z)) ∧
      (catalog t).file y.fileID = some a := by
  simp only [verifyUpload, validateVerifyUploadRequest, bind_assoc, yields_reject_bind,
    yields_inTx, yields_getUploadSession_bind] at h
  obtain ⟨hid, hready, h⟩ := h
  obtain ⟨y, file, ⟨hy, hfile⟩, hf, hyid, hfid, h⟩ := yields_uploads hw h
  simp only [yields_read_bind (fun _ _ => yields_rejectFileStatus),
    yields_read_bind (fun _ _ => yields_currentStoredSize),
    yields_read_bind (fun _ _ => yields_ensureFileReadyForAvailability), exists_eq_left,
    yields_expect_bind, hfid, hyid] at h
  obtain ⟨⟨⟩, hstatus, ⟨⟩, ⟨hverifiable, hservable⟩, checksum, hselected, h⟩ := h
  have hready' : ∀ c ∈ req.verifiedChecksum, checksumReady c = true := by
    intro c hc
    rw [Option.mem_def] at hc
    simpa [hc] using hready
  -- a reported checksum is first written to the session, which changes nothing that the
  -- completion looks at
  have hsession : ∃ r, (req.verifiedChecksum.isSome →
        y.status ≠ .completed ∧ OffsetsFit s y y.confirmedOffset y.nextOffset) ∧
      (0 < uploadExpectedSize s y → y.confirmedOffset = uploadExpectedSize s y) ∧
      catalog r = { catalog s with
        session := update (catalog s).session req.sessionID
          (some (availableSession (requestTime now req.verifiedAt) req y)) } ∧
      Yields (stampAndPatch y.fileID .available (requestTime now req.verifiedAt) {
        selector := { id := y.fileID }
        status := some .available
        size := some (expectedFileSize file y)
        storedSize := some (maxChunkEnd (chunksOfFile s y.fileID))
        completedAt := some (requestTime now req.verifiedAt)
        checksum := some checksum
        updatedAt := requestTime now req.verifiedAt }) r a t := by
    cases hreq : req.verifiedChecksum with
    | some c =>
      simp only [hreq, Option.isSome_some, if_true] at h
      obtain ⟨⟨⟩, r1, hprogress, h⟩ := yields_bind.mp h
      obtain ⟨⟨⟩, r2, hcomplete, hrest⟩ := yields_bind.mp h
      obtain ⟨y1, hy1, hopen, hoffsets, hframe, hr1⟩ := updateUploadProgress_spec hprogress
      obtain rfl : y = y1 := Option.mem_unique hy hy1
      obtain ⟨y2, hy2, hconfirmed, _, hr2⟩ := completeUploadSession_spec hcomplete
      rw [hr1] at hy2 hr2
      simp only [update_self, Option.some.injEq] at hy2
      subst hy2
      refine ⟨r2, fun _ => ⟨hopen, hoffsets⟩, ?_, ?_, hrest⟩
      · rw [uploadExpectedSize_congr hframe] at hconfirmed
        exact hconfirmed
      · rw [hr2]
        simp only [update_idem, availableSession, hreq]
        rfl
    | none =>
      simp only [hreq, Option.isSome_none, Bool.false_eq_true, if_false] at h
      obtain ⟨⟨⟩, r2, hcomplete, hrest⟩ := yields_bind.mp h
      obtain ⟨y2, hy2, hconfirmed, _, hr2⟩ := completeUploadSession_spec hcomplete
      obtain rfl : y = y2 := Option.mem_unique hy hy2
      refine ⟨r2, by simp, hconfirmed, ?_, hrest⟩
      rw [hr2]
      simp only [availableSession, hreq]
      rfl
  obtain ⟨r, hreported, hconfirmed, hr, hrest⟩ := hsession
  have hend := stampAndPatch_spec hf rfl rfl hw.links.no_empty_chunk hfile hr hrest
  exact ⟨y, file, checksum, ⟨hid, hready', ⟨hy, hfile⟩, hstatus, hverifiable, hservable, hselected,
    hreported, hconfirmed⟩, hend⟩

theorem VerifyAccepted.returns {req : VerifyUploadRequest} {checksum : Checksum}
    (hw : WellFormed (catalog s)) (h : VerifyAccepted s req y file checksum) :
    Returns (verifyUpload now req) s := by
  have hready : ¬req.verifiedChecksum.any (checksumReady · = false) = true := by
    rw [Option.any_eq_true]
    rintro ⟨c, hc, hnot⟩
    simp [h.ready c hc] at hnot
  rw [verifyUpload, validateVerifyUploadRequest, bind_assoc]
  refine unitThen (yields_reject.mpr ⟨h.sessionID_ne, rfl⟩) ?_
  refine unitThen (yields_reject.mpr ⟨hready, rfl⟩) (returns_inTx.mpr ?_)
  refine h.uploads.returns hw fun hf hyid hfid => ?_
  have hservable : ∀ z ∈ chunksOfFile s file.id, Servable file z := hfid ▸ h.servable
  refine unitThen (yields_rejectFileStatus.mpr ⟨h.status, rfl⟩) ?_
  simp only [hyid, hfid]
  refine andThen (yields_currentStoredSize.mpr ⟨rfl, rfl⟩) ?_
  refine unitThen (yields_ensureFileReadyForAvailability.mpr
    ⟨⟨h.verifiable, hservable⟩, rfl⟩) ?_
  refine andThen (yields_expect.mpr ⟨h.selected, rfl⟩) ?_
  cases hreq : req.verifiedChecksum with
  | none =>
    refine unitThen (yields_completeUploadSession.mpr
      ⟨y, h.uploads.session, h.confirmed, rfl⟩) ?_
    exact stampAndPatch_returns hf rfl rfl hw.links.no_empty_chunk h.uploads.stored
  | some c =>
    have hreported := h.reported (by simp [hreq])
    refine unitThen (yields_updateUploadProgress.mpr
      ⟨y, h.uploads.session, hreported.1, hreported.2, rfl⟩) ?_
    refine unitThen (yields_completeUploadSession.mpr ⟨?reported, ?_, ?_, rfl⟩) ?_
    case refine_1 =>
      rw [catalog_putUploadSession, ← hyid]
      exact update_self y.id _ _
    · exact h.confirmed
    · exact stampAndPatch_returns hf rfl rfl hw.links.no_empty_chunk h.uploads.stored

structure FailAccepted (s : MemoryState) (req : FailUploadVerificationRequest)
    (y : UploadSession) (file : FileMetadata) : Prop where
  sessionID_ne : req.sessionID ≠ ""
  errorCode_ne : req.errorCode ≠ ""
  attempt : 0 ≤ req.attempt
  maxAttempts : 0 < req.maxAttempts
  shape : ∀ c ∈ req.actualChecksum, c.verified = true → c.verifiedAt ≠ none
  uploads : Uploads (catalog s) req.sessionID y file
  status : req.expectedStatuses = [] ∨ file.status ∈ req.expectedStatuses
  chunk : req.chunkID ≠ "" → ∃ z, (catalog s).chunk req.chunkID = some z ∧ z.fileID = y.fileID

def blamedOffset (s : MemoryState) (req : FailUploadVerificationRequest) : Int64 :=
  if req.chunkID = "" then 0 else ((catalog s).chunk req.chunkID).elim 0 (·.offset)

lemma yields_failedChunkOffset :
    Yields (failedChunkOffset req file) s offset t ↔
      ((req.chunkID ≠ "" → ∃ z, (catalog s).chunk req.chunkID = some z ∧ z.fileID = file.id) ∧
        offset = blamedOffset s req) ∧ t = s := by
  by_cases hk : req.chunkID = ""
  · simp [failedChunkOffset, blamedOffset, hk]
  · simp only [failedChunkOffset, blamedOffset, hk, if_false,
      yields_read_bind (fun _ _ => yields_getChunk hk), yields_reject_bind, yields_pure, ne_eq,
      not_not, not_false_eq_true, forall_const]
    constructor
    · rintro ⟨z, hz, hzf, rfl, rfl⟩
      simp [hz, hzf]
    · rintro ⟨⟨⟨z, hz, hzf⟩, rfl⟩, rfl⟩
      exact ⟨z, hz, hzf, by simp [hz], rfl⟩

def failedSession (when : Time) (offset : Int64) (req : FailUploadVerificationRequest)
    (y : UploadSession) : UploadSession :=
  { y with
    status := if req.retryable ∧ req.attempt < req.maxAttempts then .retrying else .failed
    retry := { y.retry with
      attempt := req.attempt
      maxAttempts := req.maxAttempts
      retryable := req.retryable
      lastErrorCode := req.errorCode
      lastErrorMessage := req.errorMessage
      lastFailedOffset := offset
      lastFailedChunk := req.chunkID
      nextRetryAt := req.nextRetryAt <|> y.retry.nextRetryAt
      lastFailureAt := some when }
    updatedAt := when }

def failedFile (when : Time) (storedSize : Int64) (file : FileMetadata) : FileMetadata :=
  { file with status := .failed, storedSize := storedSize, checksum := {}, updatedAt := when }

def failedChunk (when : Time) (req : FailUploadVerificationRequest) (z : ChunkMetadata) :
    ChunkMetadata :=
  patchChunk (restamp .failed req.errorCode when { z with
    checksum := if z.id = req.chunkID then req.actualChecksum.getD z.checksum else z.checksum }) z

theorem failUploadVerification_spec (hw : WellFormed (catalog s))
    (h : Yields (failUploadVerification now req) s a t) :
    ∃ y file, FailAccepted s req y file ∧
      catalog t = withUpload (catalog s) req.sessionID y.fileID
        (failedSession (requestTime now req.failedAt) (blamedOffset s req) req y)
        (failedFile (requestTime now req.failedAt) (maxChunkEnd (chunksOfFile t y.fileID)) file)
        (fun z => some (failedChunk (requestTime now req.failedAt) req z)) ∧
      (catalog t).file y.fileID = some a := by
  simp only [failUploadVerification, validateFailUploadVerificationRequest, bind_assoc,
    yields_reject_bind, yields_read_bind (fun _ _ => yields_validateChecksumShape), yields_inTx,
    yields_getUploadSession_bind, not_lt, not_le] at h
  obtain ⟨hid, hcode, hattempt, hmax, ⟨⟩, hshape, h⟩ := h
  obtain ⟨y, file, ⟨hy, hfile⟩, hf, hyid, hfid, h⟩ := yields_uploads hw h
  simp only [yields_read_bind (fun _ _ => yields_rejectFileStatus),
    yields_read_bind (fun _ _ => yields_listChunksByFile),
    yields_read_bind (fun _ _ => yields_failedChunkOffset), exists_eq_left, hfid, hyid] at h
  obtain ⟨⟨⟩, hstatus, _, ⟨hchunk, rfl⟩, h⟩ := h
  obtain ⟨⟨⟩, r1, hfail, h⟩ := yields_bind.mp h
  obtain ⟨⟨⟩, r2, hloop, h⟩ := yields_bind.mp h
  obtain ⟨y1, hy1, hframe, hr1⟩ := recordUploadFailure_spec hfail
  obtain rfl : y = y1 := Option.mem_unique hy hy1
  have hempty : (catalog r1).chunk "" = none := by
    rw [hr1]
    exact hw.links.no_empty_chunk
  rw [← chunksOfFile_congr hframe.chunks] at hloop
  have hr2 := restampLoop_spec hempty (fun _ => rfl) hloop
  rw [yields_read_bind (fun _ _ => yields_currentStoredSize)] at h
  obtain ⟨_, rfl, h⟩ := h
  obtain ⟨⟨⟩, r3, hupdate, hget⟩ := yields_bind.mp h
  obtain ⟨file1, hfile1, hchunks, ht⟩ := updateFile_spec hf rfl rfl hupdate
  obtain ⟨ha, rfl⟩ := (yields_getFile hf).mp hget
  rw [hr2, hr1] at hfile1 ht
  obtain rfl : file = file1 := Option.mem_unique hfile hfile1
  refine ⟨y, file, ⟨hid, hcode, hattempt, hmax, hshape, ⟨hy, hfile⟩, hstatus, hchunk⟩, ?_, ha⟩
  have hstored : chunksOfFile t y.fileID = chunksOfFile r2 y.fileID := chunksOfFile_congr hchunks
  rw [ht, hstored]
  rfl

theorem FailAccepted.returns (hw : WellFormed (catalog s)) (h : FailAccepted s req y file) :
    Returns (failUploadVerification now req) s := by
  rw [failUploadVerification, validateFailUploadVerificationRequest, bind_assoc]
  refine unitThen (yields_reject.mpr ⟨h.sessionID_ne, rfl⟩) ?_
  rw [bind_assoc]
  refine unitThen (yields_reject.mpr ⟨h.errorCode_ne, rfl⟩) ?_
  rw [bind_assoc]
  refine unitThen (yields_reject.mpr ⟨not_lt.mpr h.attempt, rfl⟩) ?_
  rw [bind_assoc]
  refine unitThen (yields_reject.mpr ⟨not_le.mpr h.maxAttempts, rfl⟩) ?_
  refine unitThen (yields_validateChecksumShape.mpr ⟨h.shape, rfl⟩) (returns_inTx.mpr ?_)
  refine h.uploads.returns hw fun hf hyid hfid => ?_
  refine unitThen (yields_rejectFileStatus.mpr ⟨h.status, rfl⟩) ?_
  refine andThen (yields_listChunksByFile.mpr ⟨rfl, rfl⟩) ?_
  refine andThen (yields_failedChunkOffset.mpr ⟨⟨hfid ▸ h.chunk, rfl⟩, rfl⟩) ?_
  simp only [hyid, hfid]
  refine unitThen (yields_recordUploadFailure.mpr ⟨y, h.uploads.session, rfl⟩) ?_
  refine restampLoop_andThen rfl hw.links.no_empty_chunk (fun _ => rfl) fun r hr => ?_
  refine andThen (yields_currentStoredSize.mpr ⟨rfl, rfl⟩) ?_
  refine updateFile_getFile_returns hf rfl rfl (?_ : (catalog r).file y.fileID = some file)
  rw [hr]
  exact h.uploads.stored

structure RetryAccepted (s : MemoryState) (req : RetryUploadRequest) (y : UploadSession)
    (file : FileMetadata) : Prop where
  sessionID_ne : req.sessionID ≠ ""
  uploads : Uploads (catalog s) req.sessionID y file
  status : req.expectedStatuses = [] ∨ file.status ∈ req.expectedStatuses
  retrying : y.status = .retrying
  offsets : OffsetsFit s y y.retry.lastFailedOffset y.retry.lastFailedOffset

def lastKept (restart : Int64) (last : ChunkID) (chunks : List ChunkMetadata) : ChunkID :=
  chunks.foldl (fun last z => if z.offset < restart then z.id else last) last

lemma reopenChunks_eq (restart : Int64) (when : Time) (last : ChunkID)
    (chunks : List ChunkMetadata) :
    reopenChunks restart when last chunks =
      (forM chunks fun z =>
        if z.offset < restart then updateChunkStatus (restamp .persisted "" when z)
        else deleteChunk { id := z.id }) >>= fun _ => pure (lastKept restart last chunks) := by
  induction chunks generalizing last with
  | nil => simp [reopenChunks, lastKept]
  | cons z chunks ih =>
    by_cases hz : z.offset < restart
    · simp [reopenChunks, hz, ih, lastKept]
    · simp [reopenChunks, hz, ih, lastKept]

def reopenedChunk (restart : Int64) (when : Time) (z : ChunkMetadata) : Option ChunkMetadata :=
  if z.offset < restart then some (stampChunk .persisted "" when z) else none

lemma reopenChunks_succeeds (f : FileID) (restart : Int64) (when : Time) (last : ChunkID)
    (hempty : (catalog s).chunk "" = none) :
    ∃ t, Yields (reopenChunks restart when last (chunksOfFile s f)) s
        (lastKept restart last (chunksOfFile s f)) t ∧
      catalog t = mapChunks (catalog s) f (reopenedChunk restart when) := by
  have hloop : ∃ t, Yields (forM (chunksOfFile s f) fun z =>
        if z.offset < restart then updateChunkStatus (restamp .persisted "" when z)
        else deleteChunk { id := z.id }) s () t ∧
      catalog t = mapChunks (catalog s) f (reopenedChunk restart when) := by
    apply chunkLoop hempty
    intro r z hz hview
    by_cases hlt : z.offset < restart
    · rw [if_pos hlt, reopenedChunk, if_pos hlt]
      refine ⟨_, (yields_updateChunkStatus hz rfl).mpr ⟨z, hview, rfl⟩, ?_⟩
      exact catalog_putChunk (stampChunk .persisted "" when z)
    · rw [if_neg hlt, reopenedChunk, if_neg hlt]
      exact ⟨_, (yields_deleteChunk hz).mpr ⟨⟨z, hview⟩, rfl⟩, catalog_eraseChunk z.id⟩
  obtain ⟨t, ht, hcatalog⟩ := hloop
  refine ⟨t, ?_, hcatalog⟩
  rw [reopenChunks_eq]
  exact yields_bind.mpr ⟨(), t, ht, yields_pure.mpr ⟨rfl, rfl⟩⟩

def retriedSession (when : Time) (last : ChunkID) (y : UploadSession) : UploadSession :=
  { y with
    status := .active
    confirmedOffset := y.retry.lastFailedOffset
    nextOffset := y.retry.lastFailedOffset
    lastPersistedChunk := last
    verifiedChecksum := none
    updatedAt := when }

theorem retryUpload_spec {req : RetryUploadRequest} (hw : WellFormed (catalog s))
    (h : Yields (retryUpload now req) s a t) :
    ∃ y file, RetryAccepted s req y file ∧
      catalog t = withUpload (catalog s) req.sessionID y.fileID
        (retriedSession (requestTime now req.retriedAt)
          (lastKept y.retry.lastFailedOffset "" (chunksOfFile s y.fileID)) y)
        { reopenedFile (requestTime now req.retriedAt) (maxChunkEnd (chunksOfFile t y.fileID)) file
          with checksum := {} }
        (reopenedChunk y.retry.lastFailedOffset (requestTime now req.retriedAt)) ∧
      (catalog t).file y.fileID = some a := by
  simp only [retryUpload, yields_reject_bind, yields_inTx, yields_getUploadSession_bind] at h
  obtain ⟨hid, h⟩ := h
  obtain ⟨y, file, ⟨hy, hfile⟩, hf, hyid, hfid, h⟩ := yields_uploads hw h
  simp only [yields_read_bind (fun _ _ => yields_rejectFileStatus), yields_reject_bind,
    yields_read_bind (fun _ _ => yields_listChunksByFile), exists_eq_left, hfid, hyid, ne_eq,
    not_not] at h
  obtain ⟨⟨⟩, hstatus, hretrying, h⟩ := h
  obtain ⟨last, r1, hreopen, h⟩ := yields_bind.mp h
  obtain ⟨r1', hreopen', hr1⟩ := reopenChunks_succeeds y.fileID y.retry.lastFailedOffset
    (requestTime now req.retriedAt) "" hw.links.no_empty_chunk
  obtain ⟨rfl, rfl⟩ := hreopen.unique hreopen'
  rw [yields_read_bind (fun _ _ => yields_currentStoredSize)] at h
  obtain ⟨_, rfl, h⟩ := h
  obtain ⟨⟨⟩, r2, hprogress, h⟩ := yields_bind.mp h
  obtain ⟨y1, hy1, _, hoffsets, hframe, hr2⟩ := updateUploadProgress_spec hprogress
  rw [hr1] at hy1 hr2
  obtain rfl : y = y1 := Option.mem_unique hy hy1
  obtain ⟨⟨⟩, r3, hupdate, hget⟩ := yields_bind.mp h
  obtain ⟨file1, hfile1, hchunks, ht⟩ := updateFile_spec hf rfl rfl hupdate
  obtain ⟨ha, rfl⟩ := (yields_getFile hf).mp hget
  rw [hr2] at hfile1 ht
  obtain rfl : file = file1 := Option.mem_unique hfile hfile1
  have hfiles : r1.files.lookup = s.files.lookup := congrArg Catalog.file hr1
  refine ⟨y, file, ⟨hid, ⟨hy, hfile⟩, hstatus, hretrying, ?_⟩, ?_, ha⟩
  · rw [OffsetsFit, uploadExpectedSize, hfiles] at hoffsets
    exact hoffsets
  · have hstored : chunksOfFile t y.fileID = chunksOfFile r1 y.fileID :=
      chunksOfFile_congr (hchunks.trans hframe.chunks)
    rw [ht, hstored]
    rfl

theorem RetryAccepted.returns {req : RetryUploadRequest} (hw : WellFormed (catalog s))
    (h : RetryAccepted s req y file) : Returns (retryUpload now req) s := by
  obtain ⟨r1, hreopen, hr1⟩ := reopenChunks_succeeds y.fileID y.retry.lastFailedOffset
    (requestTime now req.retriedAt) "" hw.links.no_empty_chunk
  have hy1 : (catalog r1).session req.sessionID = some y := by
    rw [hr1]
    exact h.uploads.session
  have hfile1 : (catalog r1).file y.fileID = some file := by
    rw [hr1]
    exact h.uploads.stored
  have hfiles : r1.files.lookup = s.files.lookup := congrArg Catalog.file hr1
  have hoffsets : OffsetsFit r1 y y.retry.lastFailedOffset y.retry.lastFailedOffset := by
    rw [OffsetsFit, uploadExpectedSize, hfiles]
    exact h.offsets
  have hopen : y.status ≠ .completed := by
    rw [h.retrying]
    exact UploadStatus.noConfusion
  refine unitThen (yields_reject.mpr ⟨h.sessionID_ne, rfl⟩) (returns_inTx.mpr ?_)
  refine h.uploads.returns hw fun hf hyid hfid => ?_
  refine unitThen (yields_rejectFileStatus.mpr ⟨h.status, rfl⟩) ?_
  refine unitThen (yields_reject.mpr ⟨not_not.mpr h.retrying, rfl⟩) ?_
  simp only [hyid, hfid]
  refine andThen (yields_listChunksByFile.mpr ⟨rfl, rfl⟩) ?_
  refine andThen hreopen ?_
  refine andThen (yields_currentStoredSize.mpr ⟨rfl, rfl⟩) ?_
  refine unitThen (yields_updateUploadProgress.mpr ⟨y, hy1, hopen, hoffsets, rfl⟩) ?_
  exact updateFile_getFile_returns hf rfl rfl hfile1

end AstraStorage.Proofs
