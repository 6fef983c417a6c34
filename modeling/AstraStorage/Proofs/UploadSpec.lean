import AstraStorage.Proofs.UploadChecks

/-!
# The upload calls: start and commit

For each upload call: the requests it accepts in a given state, that it accepts no others,
and the catalog that an accepted request leaves.
-/

namespace AstraStorage.Proofs
open Lib Store Service Function Yields

variable {s : MemoryState} {y : UploadSession} {file : FileMetadata} {req : CommitChunkRequest}
  {c : Catalog} {k : UploadSessionID}

structure Uploads (c : Catalog) (k : UploadSessionID) (y : UploadSession) (file : FileMetadata) :
    Prop where
  session : c.session k = some y
  stored : c.file y.fileID = some file

lemma Uploads.unique (h : Uploads c k y file) (h1 : Uploads c k y1 file1) :
    y = y1 ∧ file = file1 := by
  obtain rfl : y = y1 := Option.mem_unique h.session h1.session
  exact ⟨rfl, Option.mem_unique h.stored h1.stored⟩

lemma Uploads.fileID_ne (h : Uploads c k y file) (hw : WellFormed c) : y.fileID ≠ "" := by
  intro he
  have := h.stored
  rw [he, hw.links.no_empty_file] at this
  cases this

def withUpload (c : Catalog) (k : UploadSessionID) (f : FileID) (y' : UploadSession)
    (file' : FileMetadata) (g : ChunkMetadata → Option ChunkMetadata) : Catalog :=
  { mapChunks c f g with
    session := update c.session k (some y')
    file := update c.file f (some file') }

section WithUpload

variable {f : FileID} {y' : UploadSession} {file' : FileMetadata}
  {g : ChunkMetadata → Option ChunkMetadata}

@[simp] lemma session_withUpload :
    (withUpload c k f y' file' g).session = update c.session k (some y') := rfl

@[simp] lemma file_withUpload :
    (withUpload c k f y' file' g).file = update c.file f (some file') := rfl

end WithUpload

lemma mapChunks_some (c : Catalog) (f : FileID) : mapChunks c f some = c := by
  have hchunk : (mapChunks c f some).chunk = c.chunk := by
    funext k
    cases hz : c.chunk k with
    | none | some _ => simp [mapChunks, hz]
  ext1
  · rfl
  · rfl
  · exact hchunk
  · rfl
  · rfl
  · rfl

structure StartAccepted (s : MemoryState) (req : StartUploadRequest) (file : FileMetadata) :
    Prop where
  sessionID_ne : req.sessionID ≠ ""
  fileID_ne : req.fileID ≠ ""
  size : 0 ≤ req.expectedSize
  stored : (catalog s).file req.fileID = some file
  status : file.status ≠ .deleting ∧ file.status ≠ .deleted
  idle : NoActiveSession (catalog s) req.fileID
  fresh : (catalog s).session req.sessionID = none

def startedFile (when : Time) (req : StartUploadRequest) (file : FileMetadata) : FileMetadata :=
  { file with
    status := .uploading
    size := req.expectedSize
    latestUploadSessionID := req.sessionID
    updatedAt := when }

theorem startUpload_spec {req : StartUploadRequest} {a : UploadSession}
    (h : Yields (startUpload now req) s a t) :
    ∃ file, StartAccepted s req file ∧
      catalog t = withUpload (catalog s) req.sessionID req.fileID
        (startedSession (requestTime now req.createdAt) req)
        (startedFile (requestTime now req.createdAt) req file) some ∧
      a = startedSession (requestTime now req.createdAt) req := by
  simp only [startUpload, validateStartUploadRequest, bind_assoc, yields_reject_bind, yields_inTx,
    not_or, Int64.not_lt] at h
  obtain ⟨⟨hk, hf⟩, hsize, h⟩ := h
  rw [yields_getFile_bind hf] at h
  obtain ⟨file, hfile, h⟩ := h
  obtain hid : file.id = req.fileID := file_id hfile
  simp only [yields_reject_bind, not_or, hid,
    yields_read_bind (fun _ _ => yields_ensureNoActiveUploadSession)] at h
  obtain ⟨hstatus, ⟨⟩, hidle, h⟩ := h
  obtain ⟨⟨⟩, r, hcreate, h⟩ := yields_bind.mp h
  obtain ⟨⟨⟩, t', hupdate, hpure⟩ := yields_bind.mp h
  obtain ⟨rfl, rfl⟩ := yields_pure.mp hpure
  rw [yields_createUploadSession rfl] at hcreate
  obtain ⟨⟨_, _, hfresh, _⟩, rfl⟩ := hcreate
  obtain ⟨file', hfile', _, ht⟩ := updateFile_spec hf rfl rfl hupdate
  rw [catalog_putUploadSession] at hfile' ht
  obtain rfl : file = file' := Option.mem_unique hfile hfile'
  refine ⟨file, ⟨hk, hf, hsize, hfile, hstatus, hidle, hfresh⟩, ?_, rfl⟩
  rw [ht, withUpload, mapChunks_some]
  rfl

theorem StartAccepted.returns {req : StartUploadRequest} (h : StartAccepted s req file) :
    Returns (startUpload now req) s := by
  have hid : file.id = req.fileID := file_id h.stored
  have hsome : ((catalog s).file req.fileID).isSome := by rw [h.stored]; rfl
  have hids : ¬(req.sessionID = "" ∨ req.fileID = "") := by
    rintro (hk | hf)
    · exact h.sessionID_ne hk
    · exact h.fileID_ne hf
  have hstatus : ¬(file.status = .deleting ∨ file.status = .deleted) := not_or.mpr h.status
  rw [startUpload, validateStartUploadRequest, bind_assoc]
  refine unitThen (yields_reject.mpr ⟨hids, rfl⟩) ?_
  refine unitThen (yields_reject.mpr ⟨Int64.not_lt.mpr h.size, rfl⟩) (returns_inTx.mpr ?_)
  refine andThen ((yields_getFile h.fileID_ne).mpr ⟨h.stored, rfl⟩) ?_
  simp only [hid]
  refine unitThen (yields_reject.mpr ⟨hstatus, rfl⟩) ?_
  refine unitThen (yields_ensureNoActiveUploadSession.mpr ⟨h.idle, rfl⟩) ?_
  refine unitThen ((yields_createUploadSession rfl).mpr
    ⟨⟨h.sessionID_ne, h.fileID_ne, h.fresh, hsome⟩, rfl⟩) ?_
  refine unitThen ((yields_updateFile h.fileID_ne rfl rfl).mpr ⟨file, ?_, rfl⟩) returns_pure
  exact h.stored

structure CommitAccepted (s : MemoryState) (req : CommitChunkRequest) (y : UploadSession)
    (file : FileMetadata) : Prop where
  sessionID_ne : req.sessionID ≠ ""
  chunkID_ne : req.chunkID ≠ ""
  position : 0 ≤ req.index ∧ 0 ≤ req.offset ∧ 0 ≤ req.size
  shape : ∀ c ∈ req.checksum, c.verified = true → c.verifiedAt ≠ none
  uploads : Uploads (catalog s) req.sessionID y file
  unfinished : y.status ≠ .completed
  latest : file.latestUploadSessionID = "" ∨ file.latestUploadSessionID = req.sessionID
  replicas : ReplicasFit req.replicas y.fileID req.chunkID
  size_le : req.size ≤ fixedChunkSizeBytes
  offset : req.offset = req.index * fixedChunkSizeBytes
  free : ∀ k w, (catalog s).chunk k = some w → w.fileID = y.fileID → k ≠ req.chunkID →
    w.index ≠ req.index ∧ w.offset ≠ req.offset
  offsets : OffsetsFit s y (req.offset + req.size) (req.offset + req.size)

def committedSession (when : Time) (req : CommitChunkRequest) (y : UploadSession) : UploadSession :=
  { y with
    status := .active
    confirmedOffset := req.offset + req.size
    nextOffset := req.offset + req.size
    lastPersistedChunk := req.chunkID
    updatedAt := when }

def reopenedFile (when : Time) (storedSize : Int64) (file : FileMetadata) : FileMetadata :=
  { file with status := .uploading, storedSize := storedSize, updatedAt := when }

lemma chunkFits_committedChunk (hf : y.fileID ≠ "") (hk : req.chunkID ≠ "")
    (hfile : (catalog s).file y.fileID = some file) (hsize : 0 ≤ req.size) :
    ChunkFits s (committedChunk when req y file replicas) ↔
      req.size ≤ fixedChunkSizeBytes ∧ req.offset = req.index * fixedChunkSizeBytes ∧
        ∀ k w, (catalog s).chunk k = some w → w.fileID = y.fileID → k ≠ req.chunkID →
          w.index ≠ req.index ∧ w.offset ≠ req.offset := by
  constructor
  · intro h
    refine ⟨h.size_le, h.offset, ?_⟩
    intro k w hw hwf hwk
    rw [← not_or]
    intro hpos
    exact h.free ⟨k, w, hw, hwf, hwk, hpos⟩
  · rintro ⟨hle, hoff, hfree⟩
    refine ⟨hk, hf, by simp [committedChunk, hfile], hsize, hle, hoff, ?_⟩
    rintro ⟨k, w, hw, hwf, hwk, hpos⟩
    obtain ⟨hi, ho⟩ := hfree k w hw hwf hwk
    rcases hpos with h | h
    · exact hi h
    · exact ho h

theorem commitChunk_spec (hw : WellFormed (catalog s)) (h : Yields (commitChunk now req) s a t) :
    ∃ y file replicas, CommitAccepted s req y file ∧
      catalog t =
        { withUpload (catalog s) req.sessionID y.fileID
            (committedSession (requestTime now req.committedAt) req y)
            (reopenedFile (requestTime now req.committedAt)
              (maxChunkEnd (chunksOfFile t y.fileID)) file) some with
          chunk := update (catalog s).chunk req.chunkID
            (some (committedChunk (requestTime now req.committedAt) req y file replicas)) } ∧
      Yields (normalizeChunkReplicas req.replicas y.fileID req.chunkID) s replicas s ∧
      (catalog t).chunk req.chunkID = some a := by
  simp only [commitChunk, validateCommitChunkRequest, bind_assoc, yields_reject_bind, not_or,
    yields_read_bind (fun _ _ => yields_validateChecksumShape), yields_inTx,
    yields_getUploadSession_bind, Int64.not_lt] at h
  obtain ⟨hids, hpos, ⟨⟩, hshape, y, hy, hopen, h⟩ := h
  have hyid : y.id = req.sessionID := session_id hy
  obtain ⟨file, hfile⟩ := hw.links.session_file _ y hy
  have hf : y.fileID ≠ "" := Uploads.fileID_ne ⟨hy, hfile⟩ hw
  rw [yields_getFile_bind hf] at h
  obtain ⟨file', hfile', h⟩ := h
  obtain rfl : file = file' := Option.mem_unique hfile hfile'
  have hfid : file.id = y.fileID := file_id hfile
  simp only [yields_reject_bind, hfid, hyid] at h
  obtain ⟨hlatest, h⟩ := h
  obtain ⟨replicas, r, hnorm, hwrite⟩ := yields_bind.mp h
  obtain ⟨hfit, rfl⟩ := normalizeChunkReplicas_spec.1 _ _ hnorm
  obtain ⟨⟨⟩, r1, hupsert, hrest⟩ := yields_bind.mp hwrite
  rw [yields_upsertChunks_singleton] at hupsert
  obtain ⟨hfits, rfl⟩ := hupsert
  obtain ⟨hle, hoff, hfree⟩ := (chunkFits_committedChunk hf hids.2 hfile hpos.2.2).mp hfits
  obtain ⟨⟨⟩, r2, hprogress, hrest⟩ := yields_bind.mp hrest
  obtain ⟨y1, hy1, _, hoffsets, _, hr2⟩ := updateUploadProgress_spec hprogress
  obtain rfl : y = y1 := Option.mem_unique hy hy1
  rw [yields_read_bind (fun _ _ => yields_currentStoredSize)] at hrest
  obtain ⟨_, rfl, hrest⟩ := hrest
  obtain ⟨⟨⟩, r3, hupdate, hget⟩ := yields_bind.mp hrest
  obtain ⟨file1, hfile1, hchunks, ht⟩ := updateFile_spec hf rfl rfl hupdate
  rw [hr2] at hfile1 ht
  obtain rfl : file = file1 := Option.mem_unique hfile hfile1
  obtain ⟨ha, rfl⟩ := (yields_getChunk hids.2).mp hget
  refine ⟨y, file, replicas, ⟨hids.1, hids.2, hpos, hshape, ⟨hy, hfile⟩, hopen, ?_, hfit, hle,
    hoff, hfree, hoffsets⟩, ?_, hnorm, ha⟩
  · by_cases hempty : file.latestUploadSessionID = ""
    · exact .inl hempty
    · exact .inr (not_not.mp fun hne => hlatest ⟨hempty, hne⟩)
  · have hstored : chunksOfFile t y.fileID = chunksOfFile r2 y.fileID := chunksOfFile_congr hchunks
    rw [ht, catalog_putChunk, withUpload, hstored]
    rfl

theorem CommitAccepted.returns (hw : WellFormed (catalog s)) (h : CommitAccepted s req y file) :
    Returns (commitChunk now req) s := by
  have hf : y.fileID ≠ "" := h.uploads.fileID_ne hw
  have hyid : y.id = req.sessionID := session_id h.uploads.session
  have hfid : file.id = y.fileID := file_id h.uploads.stored
  have hids : ¬(req.sessionID = "" ∨ req.chunkID = "") :=
    not_or.mpr ⟨h.sessionID_ne, h.chunkID_ne⟩
  have hpos : ¬(req.index < 0 ∨ req.offset < 0 ∨ req.size < 0) := by
    simp only [not_or, Int64.not_lt]
    exact h.position
  have hlatest : ¬(file.latestUploadSessionID ≠ "" ∧ file.latestUploadSessionID ≠ y.id) := by
    rw [hyid]
    rintro ⟨hne, hother⟩
    rcases h.latest with he | he
    · exact hne he
    · exact hother he
  obtain ⟨replicas, hreplicas⟩ := (normalizeChunkReplicas_spec).2 h.replicas
  have hfits : ChunkFits s
      (committedChunk (requestTime now req.committedAt) req y file replicas) :=
    (chunkFits_committedChunk hf h.chunkID_ne h.uploads.stored h.position.2.2).mpr
      ⟨h.size_le, h.offset, h.free⟩
  rw [commitChunk, validateCommitChunkRequest, bind_assoc]
  refine unitThen (yields_reject.mpr ⟨hids, rfl⟩) ?_
  rw [bind_assoc]
  refine unitThen (yields_reject.mpr ⟨hpos, rfl⟩) ?_
  refine unitThen (yields_validateChecksumShape.mpr ⟨h.shape, rfl⟩) (returns_inTx.mpr ?_)
  refine andThen (yields_getUploadSession.mpr ⟨h.uploads.session, rfl⟩) ?_
  simp only [hyid]
  refine unitThen (yields_reject.mpr ⟨h.unfinished, rfl⟩) ?_
  refine andThen ((yields_getFile hf).mpr ⟨h.uploads.stored, rfl⟩) ?_
  simp only [hfid]
  refine unitThen (yields_reject.mpr ⟨hlatest, rfl⟩) ?_
  refine andThen hreplicas ?_
  refine unitThen (yields_upsertChunks_singleton.mpr ⟨hfits, rfl⟩) ?_
  refine unitThen (yields_updateUploadProgress.mpr
    ⟨y, h.uploads.session, h.unfinished, h.offsets, rfl⟩) ?_
  refine andThen (yields_currentStoredSize.mpr ⟨rfl, rfl⟩) ?_
  refine unitThen ((yields_updateFile hf rfl rfl).mpr ⟨file, h.uploads.stored, rfl⟩) ?_
  refine ((yields_getChunk h.chunkID_ne).mpr
    ⟨(?_ : _ = some (committedChunk (requestTime now req.committedAt) req y file replicas)), rfl⟩).returns
  simp [catalog, Records.lookup_put, committedChunk]

end AstraStorage.Proofs
