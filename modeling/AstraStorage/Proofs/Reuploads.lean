import AstraStorage.Proofs.ChunkedUploads

/-!
# Commit order and second uploads

All commits and the completion succeed in any order, but the verification does only if the last
chunk comes last. A file can be uploaded to again only while it has no chunks.
-/

namespace AstraStorage.Proofs
open Lib Store Service Function List

variable {s t : MemoryState} {history : List (MemoryState × Action)} {u : UploadSessionID}
  {y : UploadSession} {file : FileMetadata} {f : FileID} {size : Int64}
  {done : List CommitChunkRequest} {commits : List (Time × CommitChunkRequest)}
  {checksum : Checksum} {k : ChunkID} {req : StartUploadRequest}

lemma getLast_request_ends (hsize : 0 < size) (hplaces : done.map place = chunkPlaces size.toInt) :
    ∃ req ∈ done.getLast?, req.offset + req.size = size := by
  have hpos : 0 < size.toInt := Int64.lt_iff_toInt_lt.mp hsize
  obtain ⟨m, hm⟩ : ∃ m, ((size.toInt + 4194303) / 4194304).toNat = m + 1 :=
    Nat.exists_eq_succ_of_ne_zero (by omega)
  have hlast : (done.map place).getLast? = some (chunkPlace size.toInt m) := by
    rw [hplaces, chunkPlaces, hm, range_succ, map_append]
    exact getLast?_concat
  rw [getLast?_map, Option.map_eq_some_iff] at hlast
  obtain ⟨req, hreq, hplace⟩ := hlast
  refine ⟨req, hreq, ?_⟩
  simp only [chunkPlace, place, Prod.mk.injEq] at hplace
  rw [← Int64.toInt_inj, toInt_add_of_le (by omega) (by omega) (by omega : _ ≤ size.toInt)]
  omega

lemma getLast_ends (hsize : 0 < size)
    (hplaces : commits.map (fun p => place p.2) = chunkPlaces size.toInt) :
    ∃ p ∈ commits.getLast?, p.2.offset + p.2.size = size := by
  have hplaces' : (commits.map Prod.snd).map place = chunkPlaces size.toInt := by
    rw [map_map]
    exact hplaces
  obtain ⟨req, hreq, hend⟩ := getLast_request_ends hsize hplaces'
  rw [getLast?_map] at hreq
  obtain ⟨p, hp, rfl⟩ := Option.map_eq_some_iff.mp hreq
  exact ⟨p, hp, hend⟩

lemma sorted_chunkPlaces (n : Int) : (chunkPlaces n).Pairwise (·.1 < ·.1) := by
  rw [chunkPlaces, pairwise_map]
  exact pairwise_lt_range.imp fun hij => Int.ofNat_lt.mpr hij

lemma eq_of_sorted_perm {chunks chunks' : List ChunkMetadata} (hperm : chunks.Perm chunks')
    (h : chunks.Pairwise (·.index.toInt < ·.index.toInt))
    (h' : chunks'.Pairwise (·.index.toInt < ·.index.toInt)) : chunks = chunks' := by
  refine List.Perm.eq_of_pairwise ?_ h h' hperm
  intro z w _ _ hlt hgt
  omega

lemma Uploaded.untimed_sorted (h : Uploaded t f file size checksum done) :
    ((chunksOfFile t f).map untimedChunk).Pairwise (·.index.toInt < ·.index.toInt) :=
  pairwise_map.mpr h.sorted

lemma Uploaded.chunks_eq (h : Uploaded t f file size checksum done) (hperm : done.Perm inOrder)
    (hplaces : inOrder.map place = chunkPlaces n) :
    (chunksOfFile t f).map untimedChunk = inOrder.map (availableChunk f file.replicaPolicy) := by
  refine eq_of_sorted_perm (h.chunks.trans (hperm.map _)) h.untimed_sorted ?_
  have hsorted := sorted_chunkPlaces n
  rw [← hplaces, pairwise_map] at hsorted
  exact pairwise_map.mpr hsorted

structure FreshUpload (s : MemoryState) (u : UploadSessionID) (y : UploadSession)
    (file : FileMetadata) : Prop where
  named : u ≠ ""
  uploads : Uploads (catalog s) u y file
  unfinished : y.status ≠ .completed
  latest : file.latestUploadSessionID = u
  expected : 0 < y.expectedSize
  empty : ∀ k z, (catalog s).chunk k = some z → z.fileID ≠ y.fileID

lemma chunksOfFile_eq_nil (h : ∀ k z, (catalog s).chunk k = some z → z.fileID ≠ f) :
    chunksOfFile s f = [] := by
  refine eq_nil_iff_forall_not_mem.mpr fun z hz => ?_
  obtain ⟨hz, hzf⟩ := mem_chunksOfFile.mp hz
  exact h _ z hz hzf

lemma FreshUpload.uploading (h : FreshUpload s u y file) (hw : WellFormed (catalog s))
    (hc : ChunkTable (catalog s)) (hprogress : ProgressFits y) : Uploading s u y file [] := by
  have hnil := chunksOfFile_eq_nil h.empty
  refine ⟨hw, hc, h.named, h.uploads, h.unfinished, h.latest, h.expected, hprogress, by simp, ?_, ?_⟩
  · rw [hnil]
    exact List.Perm.refl []
  · simp [hnil]

def SameUpload (f : FileID) (t t' : MemoryState) : Prop :=
  ((catalog t).file f).map untimedFile = ((catalog t').file f).map untimedFile ∧
    (chunksOfFile t f).map untimedChunk = (chunksOfFile t' f).map untimedChunk

lemma Uploading.closes_fresh (complete : Time × CompleteUploadRequest)
    (verify : Time × VerifyUploadRequest) (h : Uploading s u y file [])
    (hplaces : (commits.map fun p => place p.2).Perm (chunkPlaces y.expectedSize.toInt))
    (hids : (commits.map (·.2.chunkID)).Nodup)
    (hsound : ∀ p ∈ commits, SoundCommit u y.fileID (requiredReplicas file) p.2)
    (hcomplete : SoundComplete u complete.2) (hverify : SoundVerify u complete.2 verify.2)
    (hchecksum : uploadChecksum complete.2 verify.2 y = some checksum) :
    (Returns (runCalls (uploadCalls commits complete verify)) s ↔
      ∃ p ∈ commits.getLast?, p.2.offset + p.2.size = y.expectedSize) ∧
    ∀ t, Yields (runCalls (uploadCalls commits complete verify)) s () t →
      Uploaded t y.fileID file y.expectedSize checksum (commits.map Prod.snd).reverse := by
  have hne : commits ≠ [] := by
    rintro rfl
    have hlength := hplaces.length_eq
    have hpos : 0 < y.expectedSize.toInt := Int64.lt_iff_toInt_lt.mp h.expected
    simp [chunkPlaces] at hlength
    omega
  have hwhole : Whole y ((commits.map Prod.snd).reverse ++ []) := by
    rw [Whole, append_nil, map_reverse, map_map]
    exact (reverse_perm _).trans hplaces
  have hids' : (((commits.map Prod.snd).reverse ++ []).map CommitChunkRequest.chunkID).Nodup := by
    rw [append_nil, map_reverse, map_map, nodup_reverse]
    exact hids
  have hsound' : ∀ req ∈ (commits.map Prod.snd).reverse ++ [],
      SoundCommit u y.fileID (requiredReplicas file) req := by
    rw [append_nil]
    intro req hreq
    obtain ⟨p, hp, rfl⟩ := mem_map.mp (mem_reverse.mp hreq)
    exact hsound p hp
  obtain ⟨hreturns, hresult⟩ := h.closes hne hsound' hwhole hids' hcomplete hverify hchecksum
  refine ⟨hreturns, fun t ht => ?_⟩
  have huploaded := (hresult t ht).1
  rwa [append_nil] at huploaded

/-- Commits in any order, with the completion and the verification, succeed and lead to what the
commits in order lead to, exactly when the last commit ends the content. -/
theorem commitOrder_iff (hrun : ServiceRun history s) (hfresh : FreshUpload s u y file)
    {order inOrder : List (Time × CommitChunkRequest)} {complete : CompleteUploadRequest}
    {verify : VerifyUploadRequest} (completed completed' verified verified' : Time)
    (hplaces : inOrder.map (fun p => place p.2) = chunkPlaces y.expectedSize.toInt)
    (hids : (inOrder.map (·.2.chunkID)).Nodup)
    (hsound : ∀ p ∈ inOrder, SoundCommit u y.fileID (requiredReplicas file) p.2)
    (hperm : (order.map Prod.snd).Perm (inOrder.map Prod.snd))
    (hcomplete : SoundComplete u complete) (hverify : SoundVerify u complete verify) :
    (∃ t t', Yields (runCalls (uploadCalls order (completed, complete) (verified, verify))) s () t ∧
        Yields (runCalls (uploadCalls inOrder (completed', complete) (verified', verify))) s () t' ∧
        SameUpload y.fileID t t') ↔
      ∃ p ∈ order.getLast?, p.2.offset + p.2.size = y.expectedSize := by
  have h : Uploading s u y file [] := hfresh.uploading (wellFormed_of_run hrun)
    (chunkTable_of_run hrun) (progressFits_of_run hrun u y hfresh.uploads.session)
  obtain ⟨checksum, hchecksum⟩ := hverify.checksum y
  have hplaces' : (order.map fun p => place p.2).Perm (chunkPlaces y.expectedSize.toInt) := by
    have := hperm.map place
    rw [map_map, map_map] at this
    exact this.trans (hplaces ▸ List.Perm.refl _)
  have hids' : (order.map (·.2.chunkID)).Nodup := by
    have := hperm.map CommitChunkRequest.chunkID
    rw [map_map, map_map] at this
    exact this.nodup_iff.mpr hids
  have hsound' : ∀ p ∈ order, SoundCommit u y.fileID (requiredReplicas file) p.2 := by
    intro p hp
    obtain ⟨q, hq, heq⟩ := mem_map.mp (hperm.mem_iff.mp (mem_map_of_mem hp))
    rw [← heq]
    exact hsound q hq
  obtain ⟨hreturns, hresult⟩ := h.closes_fresh (completed, complete) (verified, verify) hplaces'
    hids' hsound' hcomplete hverify hchecksum
  obtain ⟨hreturns', hresult'⟩ := h.closes_fresh (completed', complete) (verified', verify)
    (hplaces ▸ List.Perm.refl _) hids hsound hcomplete hverify hchecksum
  constructor
  · rintro ⟨t, _, ht, _⟩
    exact hreturns.mp ⟨(), t, ht⟩
  · intro hlast
    obtain ⟨⟨⟩, t, ht⟩ := hreturns.mpr hlast
    obtain ⟨⟨⟩, t', ht'⟩ := hreturns'.mpr (getLast_ends hfresh.expected hplaces)
    have huploaded := hresult t ht
    have huploaded' := hresult' t' ht'
    refine ⟨t, t', ht, ht', huploaded.record.trans huploaded'.record.symm, ?_⟩
    refine eq_of_sorted_perm ?_ huploaded.untimed_sorted huploaded'.untimed_sorted
    refine (huploaded.chunks.trans (List.Perm.map _ ?_)).trans huploaded'.chunks.symm
    exact (reverse_perm _).trans (hperm.trans (reverse_perm _).symm)

def startedUpload : List Call :=
  [rootFile "i1" "f" "a" 0,
    .startUpload { sessionID := "u", fileID := "f", expectedSize := 8388612 }]

def chunkRequest (k : ChunkID) (index size : Int64) : CommitChunkRequest where
  sessionID := "u"
  chunkID := k
  index := index
  offset := index * 4194304
  size := size
  checksum := some (verifiedDigest "00")
  replicas := some (AList.insert "n" { state := .ready } ∅)

lemma soundCommit_chunkRequest (hk : k ≠ "") (index size : Int64) :
    SoundCommit "u" "f" 1 (chunkRequest k index size) := by
  refine ⟨rfl, hk, ⟨_, rfl, rfl⟩, ?_, le_rfl, ChunkStatus.noConfusion, ChunkStatus.noConfusion⟩
  rintro table ⟨⟩ e he
  obtain rfl : e = ⟨"n", { state := .ready }⟩ := by simpa using he
  exact ⟨by decide, .inl rfl, .inl rfl, .inl rfl⟩

lemma chunkless_of_length (h : s.chunks.values.length = 0) :
    ∀ k z, (catalog s).chunk k = some z → z.fileID ≠ f := by
  intro k z hz
  obtain ⟨hmem, -⟩ := Records.lookup_eq_some.mp hz
  rw [length_eq_zero_iff.mp h] at hmem
  cases hmem

lemma freshUpload_startedUpload : ∃ y file, FreshUpload (play 1 startedUpload).2 "u" y file ∧
    y.fileID = "f" ∧ y.expectedSize = 8388612 ∧ requiredReplicas file = 1 := by
  have hsession : ((catalog (play 1 startedUpload).2).session "u").map
      (fun y => (y.fileID, y.status, y.expectedSize)) = some ("f", .pending, 8388612) := by
    decide +kernel
  have hfile : ((catalog (play 1 startedUpload).2).file "f").map
      (fun file => (file.latestUploadSessionID, requiredReplicas file)) = some ("u", 1) := by
    decide +kernel
  have hchunks : (play 1 startedUpload).2.chunks.values.length = 0 := by decide +kernel
  obtain ⟨y, hy, hyeq⟩ := Option.map_eq_some_iff.mp hsession
  obtain ⟨file, hfile, hfileq⟩ := Option.map_eq_some_iff.mp hfile
  simp only [Prod.mk.injEq] at hyeq hfileq
  obtain ⟨hf, hstatus, hsize⟩ := hyeq
  refine ⟨y, file, ⟨by decide, ⟨hy, hf ▸ hfile⟩, ?_, hfileq.1, ?_, chunkless_of_length hchunks⟩, hf,
    hsize, hfileq.2⟩
  · rw [hstatus]
    exact UploadStatus.noConfusion
  · rw [hsize]
    decide

def threeChunks : List (Time × CommitChunkRequest) :=
  [(1, chunkRequest "k" 0 4194304), (2, chunkRequest "l" 1 4194304), (3, chunkRequest "m" 2 4)]

lemma soundCommit_threeChunks : ∀ p ∈ threeChunks, SoundCommit "u" "f" 1 p.2 := by
  simp only [threeChunks, forall_mem_cons]
  exact ⟨soundCommit_chunkRequest (by decide) _ _, soundCommit_chunkRequest (by decide) _ _,
    soundCommit_chunkRequest (by decide) _ _, fun _ h => by cases h⟩

def swappedChunks : List (Time × CommitChunkRequest) :=
  [(1, chunkRequest "l" 1 4194304), (2, chunkRequest "k" 0 4194304), (3, chunkRequest "m" 2 4)]

lemma soundComplete_verified : SoundComplete "u"
    { sessionID := "u", finalChecksum := some (verifiedDigest "00") } := by
  refine ⟨rfl, ?_, .inl rfl⟩
  rintro c ⟨⟩ _
  exact Option.some_ne_none _

lemma soundVerify_verified : SoundVerify "u"
    { sessionID := "u", finalChecksum := some (verifiedDigest "00") } { sessionID := "u" } := by
  refine ⟨rfl, ?_, .inl rfl, .inr ⟨_, rfl, rfl⟩⟩
  rintro c ⟨⟩

theorem commitOrder_swappedChunks :
    ∃ t t', Yields (runCalls (uploadCalls swappedChunks
          (4, { sessionID := "u", finalChecksum := some (verifiedDigest "00") })
          (5, { sessionID := "u" }))) (play 1 startedUpload).2 () t ∧
      Yields (runCalls (uploadCalls threeChunks
          (6, { sessionID := "u", finalChecksum := some (verifiedDigest "00") })
          (7, { sessionID := "u" }))) (play 1 startedUpload).2 () t' ∧ SameUpload "f" t t' := by
  obtain ⟨y, file, hfresh, hf, hsize, hrequired⟩ := freshUpload_startedUpload
  rw [← hf]
  refine (commitOrder_iff (serviceRun_play 1 startedUpload) hfresh 4 6 5 7 ?_ (by decide) ?_ ?_ ?_
    ?_).mpr ?_
  · rw [hsize]
    decide
  · rw [hf, hrequired]
    exact soundCommit_threeChunks
  · exact List.Perm.swap _ _ _
  · exact soundComplete_verified
  · exact soundVerify_verified
  · rw [hsize]
    exact ⟨_, rfl, by decide⟩

def lastChunkFirst : List (Time × CommitChunkRequest) :=
  [(1, chunkRequest "m" 2 4), (2, chunkRequest "k" 0 4194304), (3, chunkRequest "l" 1 4194304)]

theorem commitOrder_lastChunkFirst :
    ServiceRun (play 1 startedUpload).1 (play 1 startedUpload).2 ∧
      (∃ y file, FreshUpload (play 1 startedUpload).2 "u" y file ∧ y.fileID = "f" ∧
        y.expectedSize = 8388612 ∧ requiredReplicas file = 1) ∧
      (lastChunkFirst.map Prod.snd).Perm (threeChunks.map Prod.snd) ∧
      threeChunks.map (fun p => place p.2) = chunkPlaces 8388612 ∧
      (∀ p ∈ threeChunks, SoundCommit "u" "f" 1 p.2) ∧
      ¬Returns (runCalls (uploadCalls lastChunkFirst
          (4, { sessionID := "u", finalChecksum := some (verifiedDigest "00") })
          (5, { sessionID := "u" }))) (play 1 startedUpload).2 := by
  refine ⟨serviceRun_play 1 startedUpload, freshUpload_startedUpload, ?_, by decide,
    soundCommit_threeChunks, by decide +kernel⟩
  have hrotated : ([chunkRequest "m" 2 4] ++
        [chunkRequest "k" 0 4194304, chunkRequest "l" 1 4194304]).Perm
          (threeChunks.map Prod.snd) := perm_append_comm
  exact hrotated

def Live (file : FileMetadata) : Prop := file.status ≠ .deleting ∧ file.status ≠ .deleted

lemma Effect.live (h : Effect ok s t a) (hw : WellFormed (catalog s))
    (hs : ∀ f file, (catalog s).file f = some file → Live file) :
    ∀ f file, (catalog t).file f = some file → Live file := by
  intro f file' hfile'
  have hupload {f0 : FileID} {file0 : FileMetadata}
      (ht : (catalog t).file = update (catalog s).file f0 (some file0)) (h0 : Live file0) :
      Live file' := by
    rw [ht, update_some_eq_some] at hfile'
    rcases hfile' with ⟨_, rfl⟩ | ⟨_, hfile'⟩
    · exact h0
    · exact hs f file' hfile'
  cases h with
  | same ht => exact hs f file' (ht ▸ hfile')
  | nodes ht => exact hs f file' (ht.file ▸ hfile')
  | namespaces ht =>
    rcases contentsKept_of_namespaceChanges hw ht hfile' with hnew | ⟨file, hfile, hsame, _⟩
    · rw [Live, hnew.pending]
      exact ⟨FileStatus.noConfusion, FileStatus.noConfusion⟩
    · rw [Live, hsame.status]
      exact hs f file hfile
  | upload h =>
    cases h with
    | start _ ht | commit _ ht | complete _ ht | verify _ ht | fail _ ht | retry _ ht =>
      exact hupload (congrArg Catalog.file ht) ⟨FileStatus.noConfusion, FileStatus.noConfusion⟩

lemma live_of_run (hrun : ServiceRun history s) :
    ∀ f file, (catalog s).file f = some file → Live file := by
  refine kept_of_serviceRun (I := fun s => ∀ f file, (catalog s).file f = some file → Live file)
    hrun (by rintro now f file ⟨⟩) ?_
  intro s a t hw hlive hstep
  exact (effect_of_step hw hstep).live hw hlive

structure SoundStart (s : MemoryState) (f : FileID) (req : StartUploadRequest) : Prop where
  fileID : req.fileID = f
  sessionID_ne : req.sessionID ≠ ""
  fresh : (catalog s).session req.sessionID = none
  size : 0 < req.expectedSize

lemma StartAccepted.uploading (now : Time) (h : StartAccepted s req file)
    (hw : WellFormed (catalog s)) (htable : ChunkTable (catalog s)) (hsize : 0 < req.expectedSize)
    (hempty : ∀ k z, (catalog s).chunk k = some z → z.fileID ≠ req.fileID) :
    ∃ t, Yields ((Call.startUpload req).run now) s () t ∧
      Uploading t req.sessionID (startedSession (requestTime now req.createdAt) req)
        (startedFile (requestTime now req.createdAt) req file) [] := by
  obtain ⟨a, t, hyields⟩ : Returns (startUpload now req) s := h.returns
  have hcall : Yields ((Call.startUpload req).run now) s () t := yields_map.mpr ⟨a, hyields, rfl⟩
  have hstep := step_of_yields hcall
  obtain ⟨file1, haccepted1, ht, _⟩ := startUpload_spec hyields
  obtain rfl : file = file1 := Option.mem_unique h.stored haccepted1.stored
  refine ⟨t, hcall, FreshUpload.uploading ⟨h.sessionID_ne, ⟨?_, ?_⟩, UploadStatus.noConfusion, rfl,
    hsize, ?_⟩ (hw.step hstep) ?_ ⟨Int64.le_refl 0, Int64.le_refl 0, Int64.le_of_lt⟩⟩
  · rw [ht]
    exact update_self req.sessionID _ _
  · rw [ht]
    exact update_self req.fileID _ _
  · intro k z hz
    rw [ht, withUpload, mapChunks_some] at hz
    exact hempty k z hz
  · exact htable.effect (effect_of_step hw hstep)

lemma start_uploading (now : Time) (hrun : ServiceRun history s)
    (hfile : (catalog s).file f = some file) (hidle : NoActiveSession (catalog s) f)
    (hreq : SoundStart s f req) (hempty : ∀ k z, (catalog s).chunk k = some z → z.fileID ≠ f) :
    ∃ t, Yields ((Call.startUpload req).run now) s () t ∧
      Uploading t req.sessionID (startedSession (requestTime now req.createdAt) req)
        (startedFile (requestTime now req.createdAt) req file) [] := by
  obtain ⟨rfl, hu, hfresh, hsize⟩ := hreq
  have hw := wellFormed_of_run hrun
  have hf : req.fileID ≠ "" := by
    intro he
    rw [he, hw.links.no_empty_file] at hfile
    cases hfile
  have haccepted : StartAccepted s req file :=
    ⟨hu, hf, Int64.le_of_lt hsize, hfile, live_of_run hrun _ file hfile, hidle, hfresh⟩
  exact haccepted.uploading now hw (chunkTable_of_run hrun) hsize hempty

lemma chunk_stays {start : Time × StartUploadRequest} (hw : WellFormed (catalog s))
    (hchunk : ∃ z, (catalog s).chunk k = some z ∧ z.fileID = f)
    (hk : ∀ p ∈ commits, p.2.chunkID ≠ k)
    (h : Yields (runCalls ((start.1, .startUpload start.2) :: uploadCalls commits complete verify))
      s () t) : ∃ z, (catalog t).chunk k = some z ∧ z.fileID = f := by
  have hkept {r r' : MemoryState} {u : UploadSessionID} {f0 : FileID} {y' : UploadSession}
      {file' : FileMetadata} {g : ChunkMetadata → ChunkMetadata}
      (hr' : catalog r' = withUpload (catalog r) u f0 y' file' fun z => some (g z))
      (hg : ∀ z, (g z).fileID = z.fileID)
      (hr : ∃ z, (catalog r).chunk k = some z ∧ z.fileID = f) :
      ∃ z, (catalog r').chunk k = some z ∧ z.fileID = f := by
    obtain ⟨z, hz, hzf⟩ := hr
    by_cases hf0 : z.fileID = f0
    · exact ⟨g z, by rw [hr', chunk_withUpload]; exact ⟨z, hz, if_pos hf0⟩, (hg z).trans hzf⟩
    · exact ⟨z, by rw [hr', chunk_withUpload]; exact ⟨z, hz, if_neg hf0⟩, hzf⟩
  have hall : WellFormed (catalog t) ∧ ∃ z, (catalog t).chunk k = some z ∧ z.fileID = f := by
    refine h.forM_preserves (I := fun r => WellFormed (catalog r) ∧
      ∃ z, (catalog r).chunk k = some z ∧ z.fileID = f) ?_ ⟨hw, hchunk⟩
    rintro ⟨now, call⟩ hcall r ⟨⟩ r' ⟨hw, hr⟩ hyields
    refine ⟨hw.step (step_of_yields hyields), ?_⟩
    rw [mem_cons, uploadCalls, mem_append, mem_cons, mem_singleton, commitCalls,
      mem_map] at hcall
    rcases hcall with ⟨rfl, rfl⟩ | ⟨p, hp, rfl, rfl⟩ | ⟨rfl, rfl⟩ | ⟨rfl, rfl⟩
    · cases run_uploadEffect hw rfl hyields with
      | start _ ht => exact hkept ht (fun _ => rfl) hr
    · cases run_uploadEffect hw rfl hyields with
      | commit _ ht =>
        obtain ⟨z, hz, hzf⟩ := hr
        refine ⟨z, ?_, hzf⟩
        rw [ht]
        exact update_some_eq_some.mpr (.inr ⟨(hk p hp).symm, hz⟩)
    · cases run_uploadEffect hw rfl hyields with
      | complete _ ht => exact hkept ht (fun _ => rfl) hr
    · cases run_uploadEffect hw rfl hyields with
      | verify _ ht => exact hkept ht (fun _ => rfl) hr
  exact hall.2

def Replaced (t : MemoryState) (f : FileID) (policy : ReplicaPolicy) (size : Int64)
    (commits : List (Time × CommitChunkRequest)) : Prop :=
  (∃ file, (catalog t).file f = some file ∧ file.status = .available ∧ file.size = size) ∧
    (chunksOfFile t f).map untimedChunk = commits.map fun p => availableChunk f policy p.2

/-- A new upload of an idle file succeeds exactly when the file has no chunks. -/
theorem reupload_iff (hrun : ServiceRun history s) (hfile : (catalog s).file f = some file)
    (hidle : NoActiveSession (catalog s) f) (start : Time × StartUploadRequest)
    (commits : List (Time × CommitChunkRequest)) (complete : Time × CompleteUploadRequest)
    (verify : Time × VerifyUploadRequest) (hstart : SoundStart s f start.2)
    (hplaces : commits.map (fun p => place p.2) = chunkPlaces start.2.expectedSize.toInt)
    (hids : (commits.map (·.2.chunkID)).Nodup)
    (hnew : ∀ p ∈ commits, (catalog s).chunk p.2.chunkID = none)
    (hsound : ∀ p ∈ commits, SoundCommit start.2.sessionID f (requiredReplicas file) p.2)
    (hcomplete : SoundComplete start.2.sessionID complete.2)
    (hverify : SoundVerify start.2.sessionID complete.2 verify.2) :
    (∃ t, Yields (runCalls ((start.1, .startUpload start.2) :: uploadCalls commits complete verify))
          s () t ∧
        Replaced t f file.replicaPolicy start.2.expectedSize commits) ↔
      ∀ k z, (catalog s).chunk k = some z → z.fileID ≠ f := by
  constructor
  · -- A chunk that was there before is still there, but it is none of the new ones.
    rintro ⟨t, ht, -, hchunks⟩ k z hz hzf
    have hother : ∀ p ∈ commits, p.2.chunkID ≠ k := by
      rintro p hp rfl
      rw [hnew p hp] at hz
      cases hz
    obtain ⟨w, hw, hwf⟩ := chunk_stays (wellFormed_of_run hrun) ⟨z, hz, hzf⟩ hother ht
    obtain rfl := chunk_id hw
    have hmem := mem_map_of_mem (f := untimedChunk) (mem_chunksOfFile.mpr ⟨hw, hwf⟩)
    rw [hchunks] at hmem
    obtain ⟨p, hp, heq⟩ := mem_map.mp hmem
    exact hother p hp (congrArg ChunkMetadata.id heq)
  · intro hempty
    obtain ⟨t0, hcall, h⟩ := start_uploading start.1 hrun hfile hidle hstart hempty
    obtain ⟨rfl, -, -, hsize⟩ := hstart
    obtain ⟨checksum, hchecksum⟩ :=
      hverify.checksum (startedSession (requestTime start.1 start.2.createdAt) start.2)
    obtain ⟨hreturns, hresult⟩ := h.closes_fresh complete verify (hplaces ▸ List.Perm.refl _) hids
      hsound hcomplete hverify hchecksum
    obtain ⟨⟨⟩, t, ht⟩ := hreturns.mpr (getLast_ends hsize hplaces)
    refine ⟨t, yields_forM_cons.mpr ⟨t0, hcall, ht⟩, ?_⟩
    have huploaded := hresult t ht
    obtain ⟨file', hfile', hrecord⟩ := Option.map_eq_some_iff.mp huploaded.record
    refine ⟨⟨file', hfile', (congrArg FileMetadata.status hrecord :),
      (congrArg FileMetadata.size hrecord :)⟩, ?_⟩
    have hplaces' : (commits.map Prod.snd).map place = chunkPlaces start.2.expectedSize.toInt := by
      rw [map_map]
      exact hplaces
    have hlist := huploaded.chunks_eq (reverse_perm _) hplaces'
    rw [map_map] at hlist
    exact hlist

def failedUpload : List Call :=
  [rootFile "i1" "f" "a" 0,
    .startUpload { sessionID := "v", fileID := "f", expectedSize := 4 },
    .failUploadVerification { sessionID := "v", errorCode := "E", maxAttempts := 1 }]

def nextUpload : List (Time × Call) :=
  (1, .startUpload { sessionID := "u", fileID := "f", expectedSize := 8388612 }) ::
    uploadCalls threeChunks
      (4, { sessionID := "u", finalChecksum := some (verifiedDigest "00") })
      (5, { sessionID := "u" })

lemma noActiveSession_of_values
    (h : ∀ y ∈ s.uploadSessions.values, isTerminalUploadStatus y.status = true) :
    NoActiveSession (catalog s) f :=
  fun _ y hy _ => h y (Records.lookup_eq_some.mp hy).1

theorem reupload_failedUpload :
    ∃ t policy, Yields (runCalls nextUpload) (play 1 failedUpload).2 () t ∧
      Replaced t "f" policy 8388612 threeChunks := by
  have hfile : ((catalog (play 1 failedUpload).2).file "f").map requiredReplicas = some 1 := by
    decide +kernel
  obtain ⟨file, hfile, hrequired⟩ := Option.map_eq_some_iff.mp hfile
  have hchunks : (play 1 failedUpload).2.chunks.values.length = 0 := by decide +kernel
  have hidle : NoActiveSession (catalog (play 1 failedUpload).2) "f" :=
    noActiveSession_of_values (by decide +kernel)
  have hstart : SoundStart (play 1 failedUpload).2 "f"
      { sessionID := "u", fileID := "f", expectedSize := 8388612 } :=
    ⟨rfl, by decide, Option.isNone_iff_eq_none.mp (by decide +kernel), by decide⟩
  have hnew : ∀ p ∈ threeChunks, (catalog (play 1 failedUpload).2).chunk p.2.chunkID = none := by
    decide +kernel
  have hsound : ∀ p ∈ threeChunks, SoundCommit "u" "f" (requiredReplicas file) p.2 := by
    rw [hrequired]
    exact soundCommit_threeChunks
  obtain ⟨t, ht, hreplaced⟩ := (reupload_iff (serviceRun_play 1 failedUpload) hfile hidle
    (1, { sessionID := "u", fileID := "f", expectedSize := 8388612 }) threeChunks
    (4, { sessionID := "u", finalChecksum := some (verifiedDigest "00") }) (5, { sessionID := "u" })
    hstart (by decide) (by decide) hnew hsound soundComplete_verified soundVerify_verified).mpr
      (chunkless_of_length hchunks)
  exact ⟨t, _, ht, hreplaced⟩

/-- A file of one chunk that is available. -/
def finishedUpload : List Call :=
  [rootFile "i1" "f" "a" 0,
    .startUpload { sessionID := "v", fileID := "f", expectedSize := 4 },
    .commitChunk {
      sessionID := "v", chunkID := "a", size := 4, checksum := some (verifiedDigest "00")
      replicas := some (AList.insert "n" { state := .ready } ∅) },
    .completeUpload { sessionID := "v", finalChecksum := some (verifiedDigest "00") },
    .verifyUpload { sessionID := "v" }]

theorem reupload_finishedUpload :
    ServiceRun (play 1 finishedUpload).1 (play 1 finishedUpload).2 ∧
      ((catalog (play 1 finishedUpload).2).file "f").map
        (fun file => (file.status, requiredReplicas file)) = some (.available, 1) ∧
      NoActiveSession (catalog (play 1 finishedUpload).2) "f" ∧
      SoundStart (play 1 finishedUpload).2 "f"
        { sessionID := "u", fileID := "f", expectedSize := 8388612 } ∧
      (∀ p ∈ threeChunks, ((catalog (play 1 finishedUpload).2).chunk p.2.chunkID).isNone) ∧
      (∀ p ∈ threeChunks, SoundCommit "u" "f" 1 p.2) ∧
      threeChunks.map (fun p => place p.2) = chunkPlaces 8388612 ∧
      ¬Returns (runCalls nextUpload) (play 1 finishedUpload).2 := by
  refine ⟨serviceRun_play 1 finishedUpload, by decide +kernel,
    noActiveSession_of_values (by decide +kernel), ?_, by decide +kernel, soundCommit_threeChunks,
    by decide, by decide +kernel⟩
  exact ⟨rfl, by decide, Option.isNone_iff_eq_none.mp (by decide +kernel), by decide⟩

end AstraStorage.Proofs
