import AstraStorage.Proofs.Placement
import AstraStorage.Proofs.Reuploads

/-!
# Uploads that fail and are retried

After a failure and a retry, what is left is an upload under way that made only the requests before
the restart offset. Any number of such rounds leads to what the upload without failures leads to.
-/

namespace AstraStorage.Proofs
open Lib Store Service Allocator Function List

variable {s t : MemoryState} {history : List (MemoryState × Action)} {u : UploadSessionID}
  {y y0 : UploadSession} {file file0 : FileMetadata} {f : FileID} {done : List CommitChunkRequest}
  {req req' : CommitChunkRequest} {n : Int} {complete : CompleteUploadRequest} {round : Round}
  {checksum : Checksum}

/-! ### Failing and opening again -/

structure SoundFail (u : UploadSessionID) (status : FileStatus) (done : List CommitChunkRequest)
    (req : FailUploadVerificationRequest) : Prop where
  session : req.sessionID = u
  errorCode_ne : req.errorCode ≠ ""
  retryable : req.retryable = true
  attempt : 0 ≤ req.attempt ∧ req.attempt < req.maxAttempts
  shape : ∀ c ∈ req.actualChecksum, c.verified = true → c.verifiedAt ≠ none
  status : req.expectedStatuses = [] ∨ status ∈ req.expectedStatuses
  chunk : req.chunkID ≠ "" → ∃ req' ∈ done, req'.chunkID = req.chunkID

structure SoundRetry (u : UploadSessionID) (req : RetryUploadRequest) : Prop where
  session : req.sessionID = u
  status : req.expectedStatuses = [] ∨ .failed ∈ req.expectedStatuses

def restartOffset (k : ChunkID) (done : List CommitChunkRequest) : Int64 :=
  if k = "" then 0 else (done.find? (·.chunkID = k)).elim 0 (·.offset)

def keptRequests (k : ChunkID) (done : List CommitChunkRequest) : List CommitChunkRequest :=
  done.filter fun req => req.offset < restartOffset k done

lemma restartOffset_cases (k : ChunkID) (done : List CommitChunkRequest) :
    restartOffset k done = 0 ∨ ∃ req ∈ done, req.chunkID = k ∧ restartOffset k done = req.offset := by
  unfold restartOffset
  split_ifs with hk
  · exact .inl rfl
  · cases hfind : done.find? (·.chunkID = k) with
    | none => exact .inl rfl
    | some req =>
      have hid : req.chunkID = k := by simpa using find?_some hfind
      exact .inr ⟨req, mem_of_find?_eq_some hfind, hid, rfl⟩

section

variable (h : Uploading t u y file done)
include h

lemma Uploading.perm (hperm : done.Perm done') : Uploading t u y file done' :=
  { h with
    placed := fun req hreq => h.placed req (hperm.mem_iff.mpr hreq)
    chunks := h.chunks.trans (hperm.map _) }

lemma Uploading.stored (hreq : req ∈ done) :
    ∃ z, (catalog t).chunk req.chunkID = some z ∧ z.fileID = y.fileID ∧ z.offset = req.offset := by
  obtain ⟨z, hz, hcore⟩ := mem_map.mp (h.chunks.mem_iff.mpr (mem_map_of_mem hreq))
  obtain ⟨hstored, hf⟩ := mem_chunksOfFile.mp hz
  have hid : z.id = req.chunkID := congrArg ChunkMetadata.id hcore
  exact ⟨z, hid ▸ hstored, hf, congrArg ChunkMetadata.offset hcore⟩

lemma Uploading.restart_fits (k : ChunkID) :
    0 ≤ restartOffset k done ∧ restartOffset k done ≤ y.expectedSize := by
  rcases restartOffset_cases k done with hzero | ⟨req, hreq, _, heq⟩
  · rw [hzero]
    exact ⟨Int64.le_refl 0, Int64.le_of_lt h.expected⟩
  · obtain ⟨i, hi, hplace⟩ := mem_chunkPlaces.mp (h.placed req hreq)
    simp only [chunkPlace, place, Prod.mk.injEq] at hplace
    rw [heq, Int64.le_iff_toInt_le, Int64.le_iff_toInt_le, Int64.toInt_zero]
    omega

lemma Uploading.blamedOffset_eq {req : FailUploadVerificationRequest}
    (hreq : SoundFail u file.status done req) :
    blamedOffset t req = restartOffset req.chunkID done := by
  by_cases hk : req.chunkID = ""
  · rw [blamedOffset, restartOffset, if_pos hk, if_pos hk]
  · obtain ⟨req', hreq', hid⟩ := hreq.chunk hk
    obtain ⟨blamed, hfind⟩ : ∃ blamed, done.find? (·.chunkID = req.chunkID) = some blamed :=
      Option.isSome_iff_exists.mp (find?_isSome.mpr ⟨req', hreq', by simpa using hid⟩)
    have hblamed : blamed.chunkID = req.chunkID := by simpa using find?_some hfind
    obtain ⟨z, hz, _, hoffset⟩ := h.stored (mem_of_find?_eq_some hfind)
    rw [hblamed] at hz
    rw [blamedOffset, restartOffset, if_neg hk, if_neg hk, hz, hfind]
    exact hoffset

end

lemma Uploading.fails {req : FailUploadVerificationRequest} (now : Time)
    (h : Uploading t u y file done) (hreq : SoundFail u file.status done req) :
    ∃ t' stored, Yields ((Call.failUploadVerification req).run now) t () t' ∧
      WellFormed (catalog t') ∧ ChunkTable (catalog t') ∧
      Uploads (catalog t') u
        (failedSession (requestTime now req.failedAt) (restartOffset req.chunkID done) req y)
        (failedFile (requestTime now req.failedAt) stored file) ∧
      chunksOfFile t' y.fileID =
        (chunksOfFile t y.fileID).map (failedChunk (requestTime now req.failedAt) req) := by
  have huploads : Uploads (catalog t) req.sessionID y file := by
    rw [hreq.session]
    exact h.uploads
  have haccepted : FailAccepted t req y file := by
    refine ⟨?_, hreq.errorCode_ne, hreq.attempt.1, lt_of_le_of_lt hreq.attempt.1 hreq.attempt.2,
      hreq.shape, huploads, hreq.status, fun hk => ?_⟩
    · rw [hreq.session]
      exact h.named
    · obtain ⟨req', hreq', hid⟩ := hreq.chunk hk
      obtain ⟨z, hz, hf, _⟩ := h.stored hreq'
      exact ⟨z, hid ▸ hz, hf⟩
  obtain ⟨a, t', hyields⟩ : Returns (failUploadVerification now req) t := haccepted.returns h.wellFormed
  have hrun : Yields ((Call.failUploadVerification req).run now) t () t' :=
    yields_map.mpr ⟨a, hyields, rfl⟩
  have hstep := step_of_yields hrun
  have hc : ChunkTable (catalog t') :=
    h.chunkTable.effect (effect_of_step h.wellFormed hstep)
  obtain ⟨y1, file1, haccepted1, ht', _⟩ := failUploadVerification_spec h.wellFormed hyields
  obtain ⟨rfl, rfl⟩ := huploads.unique haccepted1.uploads
  rw [h.blamedOffset_eq hreq] at ht'
  refine ⟨t', maxChunkEnd (chunksOfFile t' y.fileID), hrun, h.wellFormed.step hstep, hc, ⟨?_, ?_⟩, ?_⟩
  · rw [ht', hreq.session]
    exact update_self u _ _
  · rw [ht']
    exact update_self y.fileID _ _
  · exact chunksOfFile_withUpload hc (fun _ => ⟨rfl, rfl, rfl, rfl, rfl⟩) ht'

lemma chunksOfFile_retry
    (ht : catalog t = withUpload (catalog s) u f y' file' (reopenedChunk restart when)) :
    (chunksOfFile t f).Perm
      (((chunksOfFile s f).filter (·.offset < restart)).map (stampChunk .persisted "" when)) := by
  have hids : (((chunksOfFile s f).filter (·.offset < restart)).map
      (stampChunk .persisted "" when)).Nodup := by
    refine List.Nodup.of_map ChunkMetadata.id ?_
    rw [map_map]
    exact (nodup_chunksOfFile f).sublist (filter_sublist.map ChunkMetadata.id)
  refine (perm_ext_iff_of_nodup (nodup_chunksOfFile f).of_map hids).mpr fun w => ?_
  simp only [mem_chunksOfFile, mem_map, mem_filter, decide_eq_true_eq, ht, chunk_withUpload]
  constructor
  · rintro ⟨⟨z, hz, hzw⟩, hwf⟩
    by_cases hzf : z.fileID = f
    · rw [reopenedChunk] at hzw
      split_ifs at hzw with hlt
      exact ⟨z, ⟨⟨chunk_id hz ▸ hz, hzf⟩, hlt⟩, Option.some.inj hzw⟩
    · rw [if_neg hzf] at hzw
      obtain rfl := Option.some.inj hzw
      exact absurd hwf hzf
  · rintro ⟨z, ⟨⟨hz, hzf⟩, hlt⟩, rfl⟩
    refine ⟨⟨z, hz, ?_⟩, hzf⟩
    rw [if_pos hzf, reopenedChunk, if_pos hlt]

lemma chunkCore_reopened {req : FailUploadVerificationRequest} (h : z.id ≠ req.chunkID) :
    chunkCore (stampChunk .persisted "" when' (failedChunk when req z)) = chunkCore z := by
  rw [failedChunk, if_neg h]
  rfl

lemma Uploading.kept_chunks {req : FailUploadVerificationRequest} {chunks : List ChunkMetadata}
    (h : Uploading t u y file done) (hreq : SoundFail u file.status done req)
    (hchunks : chunks.Perm ((((chunksOfFile t y.fileID).map (failedChunk when req)).filter
      (·.offset < restartOffset req.chunkID done)).map (stampChunk .persisted "" when'))) :
    (chunks.map chunkCore).Perm
      ((keptRequests req.chunkID done).map (requestedChunk y.fileID file.replicaPolicy)) := by
  have hblamed := h.blamedOffset_eq hreq
  have hother : ∀ z ∈ (chunksOfFile t y.fileID).filter (·.offset < restartOffset req.chunkID done),
      z.id ≠ req.chunkID := by
    intro z hz hid
    obtain ⟨hz, hlt⟩ := mem_filter.mp hz
    obtain ⟨hstored, _⟩ := mem_chunksOfFile.mp hz
    have hk : req.chunkID ≠ "" := by
      intro hk
      rw [hid, hk, h.wellFormed.links.no_empty_chunk] at hstored
      cases hstored
    rw [blamedOffset, if_neg hk, ← hid, hstored] at hblamed
    rw [← hid, ← hblamed, decide_eq_true_eq] at hlt
    exact Int64.lt_irrefl hlt
  have hcores : (((chunksOfFile t y.fileID).map (failedChunk when req)).filter
        (·.offset < restartOffset req.chunkID done)).map
          (chunkCore ∘ stampChunk .persisted "" when') =
      ((chunksOfFile t y.fileID).map chunkCore).filter
        (·.offset < restartOffset req.chunkID done) := by
    rw [filter_map, map_map, filter_map]
    exact map_congr_left fun z hz => chunkCore_reopened (hother z hz)
  have hkept := h.chunks.filter (·.offset < restartOffset req.chunkID done)
  rw [filter_map (l := done)] at hkept
  have hmapped := hchunks.map chunkCore
  rw [map_map, hcores] at hmapped
  exact hmapped.trans hkept

/-- A failure and a retry leave an upload under way with the requests before the restart offset. -/
theorem Uploading.restart {fail : Time × FailUploadVerificationRequest}
    {retry : Time × RetryUploadRequest} (h : Uploading t u y file done)
    (hfail : SoundFail u file.status done fail.2) (hretry : SoundRetry u retry.2) :
    ∃ t' last stored stored', Yields (runCalls [(fail.1, .failUploadVerification fail.2),
        (retry.1, .retryUpload retry.2)]) t () t' ∧
      Uploading t' u
        (retriedSession (requestTime retry.1 retry.2.retriedAt) last
          (failedSession (requestTime fail.1 fail.2.failedAt)
            (restartOffset fail.2.chunkID done) fail.2 y))
        { reopenedFile (requestTime retry.1 retry.2.retriedAt) stored'
            (failedFile (requestTime fail.1 fail.2.failedAt) stored file) with checksum := {} }
        (keptRequests fail.2.chunkID done) := by
  obtain ⟨t1, stored, hrun1, hw1, hc1, huploads1, hchunks1⟩ := h.fails fail.1 hfail
  obtain ⟨hnonneg, hle⟩ := h.restart_fits fail.2.chunkID
  have hsize : uploadExpectedSize t1 (failedSession (requestTime fail.1 fail.2.failedAt)
      (restartOffset fail.2.chunkID done) fail.2 y) = y.expectedSize := if_pos h.expected
  have haccepted : RetryAccepted t1 retry.2
      (failedSession (requestTime fail.1 fail.2.failedAt) (restartOffset fail.2.chunkID done) fail.2 y)
      (failedFile (requestTime fail.1 fail.2.failedAt) stored file) := by
    refine ⟨?_, hretry.session ▸ huploads1, hretry.status,
      if_pos ⟨hfail.retryable, hfail.attempt.2⟩, hnonneg, hnonneg, Int64.le_refl _, fun _ => ?_⟩
    · rw [hretry.session]
      exact h.named
    · rw [hsize]
      exact hle
  obtain ⟨a, t2, hyields⟩ : Returns (retryUpload retry.1 retry.2) t1 := haccepted.returns hw1
  have hrun2 : Yields ((Call.retryUpload retry.2).run retry.1) t1 () t2 :=
    yields_map.mpr ⟨a, hyields, rfl⟩
  have hstep := step_of_yields hrun2
  obtain ⟨y2, file2, haccepted2, ht2, _⟩ := retryUpload_spec hw1 hyields
  obtain ⟨rfl, rfl⟩ := haccepted.uploads.unique haccepted2.uploads
  have hkept : (chunksOfFile t2 y.fileID).Perm
      (((chunksOfFile t1 y.fileID).filter (·.offset < restartOffset fail.2.chunkID done)).map
        (stampChunk .persisted "" (requestTime retry.1 retry.2.retriedAt))) :=
    chunksOfFile_retry ht2
  rw [hchunks1] at hkept
  refine ⟨t2, lastKept (restartOffset fail.2.chunkID done) "" (chunksOfFile t1 y.fileID), stored,
    maxChunkEnd (chunksOfFile t2 y.fileID), ?_, hw1.step hstep,
    hc1.effect (effect_of_step hw1 hstep), h.named, ⟨?_, ?_⟩,
    UploadStatus.noConfusion, h.latest, h.expected, ⟨hnonneg, Int64.le_refl _, fun _ => hle⟩, ?_,
    h.kept_chunks hfail hkept, ?_⟩
  · exact yields_forM_cons.mpr ⟨t1, hrun1, yields_forM_cons.mpr ⟨t2, hrun2, yields_forM_nil.mpr rfl⟩⟩
  · rw [ht2, hretry.session]
    exact update_self u _ _
  · rw [ht2]
    exact update_self y.fileID _ _
  · exact fun req hreq => h.placed req (mem_of_mem_filter hreq)
  · intro z hz
    obtain ⟨w, _, rfl⟩ := mem_map.mp (hkept.mem_iff.mp hz)
    exact ⟨ChunkStatus.noConfusion, ChunkStatus.noConfusion⟩

/-! ### Rounds -/

structure Round where
  completed : Option Time
  fail : Time × FailUploadVerificationRequest
  retry : Time × RetryUploadRequest
  commits : List (Time × CommitChunkRequest)

def Round.reopening (complete : CompleteUploadRequest) (round : Round) : List (Time × Call) :=
  (round.completed.toList.map fun now => (now, Call.completeUpload complete)) ++
    [(round.fail.1, .failUploadVerification round.fail.2), (round.retry.1, .retryUpload round.retry.2)]

def Round.calls (complete : CompleteUploadRequest) (round : Round) : List (Time × Call) :=
  round.reopening complete ++ commitCalls round.commits

def Round.status (round : Round) : FileStatus :=
  if round.completed.isSome then .verifying else .uploading

def Round.after (done : List CommitChunkRequest) (round : Round) : List CommitChunkRequest :=
  keptRequests round.fail.2.chunkID done ++ round.commits.map Prod.snd

structure SoundRound (u : UploadSessionID) (f : FileID) (required n : Int)
    (done : List CommitChunkRequest) (round : Round) : Prop where
  whole : round.completed.isSome → done.map place = chunkPlaces n
  fail : SoundFail u round.status done round.fail.2
  retry : SoundRetry u round.retry.2
  commits : ∀ p ∈ round.commits, SoundCommit u f required p.2
  inOrder : (round.after done).map place <+: chunkPlaces n
  chunkIDs : ((round.after done).map (·.chunkID)).Nodup

def SoundRounds (u : UploadSessionID) (f : FileID) (required n : Int) :
    List CommitChunkRequest → List Round → Prop
  | _, [] => True
  | done, round :: rounds =>
    SoundRound u f required n done round ∧ SoundRounds u f required n (round.after done) rounds

def standing (done : List CommitChunkRequest) (rounds : List Round) : List CommitChunkRequest :=
  rounds.foldl Round.after done

structure Underway (u : UploadSessionID) (complete : CompleteUploadRequest) (y0 : UploadSession)
    (file0 : FileMetadata) (t : MemoryState) (y : UploadSession) (file : FileMetadata)
    (done : List CommitChunkRequest) : Prop where
  uploading : Uploading t u y file done
  status : file.status = .uploading
  session : sessionCore (verifyingSession 0 complete y) = sessionCore (verifyingSession 0 complete y0)
  record : verifiedFile 0 {} file = verifiedFile 0 {} file0
  sound : ∀ req ∈ done, SoundCommit u y0.fileID (requiredReplicas file0) req
  inOrder : done.map place <+: chunkPlaces y0.expectedSize.toInt
  chunkIDs : (done.map (·.chunkID)).Nodup
  ended : done.map place = chunkPlaces y0.expectedSize.toInt →
    y.confirmedOffset = y0.expectedSize ∧ y.nextOffset = y0.expectedSize ∧
      ∃ req ∈ done.getLast?, y.lastPersistedChunk = req.chunkID

lemma chunkPlaces_ne_nil (hn : 0 < n) : chunkPlaces n ≠ [] := by
  intro hnil
  have hmem : chunkPlace n 0 ∈ chunkPlaces n := mem_chunkPlaces.mpr ⟨0, by simpa using hn, rfl⟩
  rw [hnil] at hmem
  cases hmem

lemma sessionCore_verifying_twice (complete : CompleteUploadRequest) (y : UploadSession)
    (when : Time) :
    sessionCore (verifyingSession 0 complete (verifyingSession when complete y)) =
      sessionCore (verifyingSession 0 complete y) := by
  have htwice (c c' : Option Checksum) : (c <|> (c <|> c')) = (c <|> c') := by
    cases c with
    | none | some c => rfl
  simp only [sessionCore, verifyingSession, htwice]

lemma sessionCore_retried
    (h : sessionCore (verifyingSession 0 complete y) = sessionCore (verifyingSession 0 complete y0))
    (hnone : y0.verifiedChecksum = none) :
    sessionCore (verifyingSession 0 complete (retriedSession when last y)) =
      sessionCore (verifyingSession 0 complete y0) := by
  have hcleared := congrArg (fun y : UploadSession => { y with
    verifiedChecksum := complete.finalChecksum.filter checksumReady <|> none }) h
  refine hcleared.trans ?_
  rw [← hnone]
  rfl

section Underway

section

variable (h : Underway u complete y0 file0 t y file done)
include h

lemma Underway.fileID : y.fileID = y0.fileID :=
  (congrArg UploadSession.fileID h.session :)

lemma Underway.expectedSize : y.expectedSize = y0.expectedSize :=
  (congrArg UploadSession.expectedSize h.session :)

lemma Underway.replicaPolicy : file.replicaPolicy = file0.replicaPolicy :=
  (congrArg FileMetadata.replicaPolicy h.record :)

lemma Underway.required : requiredReplicas file = requiredReplicas file0 := by
  rw [requiredReplicas, requiredReplicas, h.replicaPolicy]

end

lemma Underway.commit (now : Time) (h : Underway u complete y0 file0 t y file done)
    (hreq : SoundCommit u y0.fileID (requiredReplicas file0) req)
    (hinOrder : (done ++ [req]).map place <+: chunkPlaces y0.expectedSize.toInt)
    (hids : ((done ++ [req]).map (·.chunkID)).Nodup) :
    ∃ t' y' file', Yields ((Call.commitChunk req).run now) t () t' ∧
      Underway u complete y0 file0 t' y' file' (done ++ [req]) := by
  have hindexes : (((done ++ [req]).map place).map Prod.fst).Nodup :=
    (nodup_chunkPlaces _).sublist (hinOrder.sublist.map Prod.fst)
  have hpair := pairwise_append.mp (separate_of_nodup hids hindexes)
  have hnext : Next y done req := by
    refine ⟨?_, fun req' hreq' => hpair.2.2 req' hreq' req (mem_singleton_self req)⟩
    rw [h.expectedSize]
    exact hinOrder.subset (mem_map_of_mem (mem_append_right done mem_cons_self))
  have hsound : SoundCommit u y.fileID (requiredReplicas file) req := by
    rw [h.fileID, h.required]
    exact hreq
  obtain ⟨t', stored, hrun, h'⟩ := h.uploading.commit now hnext hsound
  refine ⟨t', _, _, hrun, h'.perm (perm_append_singleton req done).symm, rfl, h.session,
    h.record, ?_, hinOrder, hids, fun hwhole => ?_⟩
  · intro req' hreq'
    rcases mem_append.mp hreq' with hreq' | hreq'
    · exact h.sound req' hreq'
    · rw [mem_singleton.mp hreq']
      exact hreq
  · have hexpected : 0 < y0.expectedSize := h.expectedSize ▸ h.uploading.expected
    obtain ⟨last, hlast, hend⟩ := getLast_request_ends hexpected hwhole
    rw [getLast?_concat, Option.mem_def, Option.some.injEq] at hlast
    obtain rfl := hlast
    exact ⟨hend, hend, req, by rw [getLast?_concat]; rfl, rfl⟩

lemma Underway.commits {commits : List (Time × CommitChunkRequest)}
    (h : Underway u complete y0 file0 t y file done)
    (hsound : ∀ p ∈ commits, SoundCommit u y0.fileID (requiredReplicas file0) p.2)
    (hinOrder : (done ++ commits.map Prod.snd).map place <+: chunkPlaces y0.expectedSize.toInt)
    (hids : ((done ++ commits.map Prod.snd).map (·.chunkID)).Nodup) :
    ∃ t' y' file', Yields (runCalls (commitCalls commits)) t () t' ∧
      Underway u complete y0 file0 t' y' file' (done ++ commits.map Prod.snd) := by
  induction commits generalizing t y file done with
  | nil =>
    rw [map_nil, append_nil]
    exact ⟨t, y, file, yields_forM_nil.mpr rfl, h⟩
  | cons p rest ih =>
    obtain ⟨hp, hsound⟩ := forall_mem_cons.mp hsound
    have hsplit : done ++ (p :: rest).map Prod.snd = (done ++ [p.2]) ++ rest.map Prod.snd := by
      rw [map_cons, append_assoc, singleton_append]
    rw [hsplit] at hinOrder hids ⊢
    obtain ⟨t1, y1, file1, hrun, h1⟩ := h.commit p.1 hp
      ((((prefix_append _ _).map place)).trans hinOrder)
      (hids.sublist ((sublist_append_left _ _).map _))
    obtain ⟨t', y', file', hrest, h'⟩ := ih h1 hsound hinOrder hids
    exact ⟨t', y', file', yields_forM_cons.mpr ⟨t1, hrun, hrest⟩, h'⟩

lemma Underway.completes (h : Underway u complete y0 file0 t y file done)
    (hcomplete : SoundComplete u complete)
    (hwhole : round.completed.isSome → done.map place = chunkPlaces y0.expectedSize.toInt) :
    ∃ t' y' file', Yields (runCalls
        (round.completed.toList.map fun now => (now, Call.completeUpload complete))) t () t' ∧
      Uploading t' u y' file' done ∧ file'.status = round.status ∧
      sessionCore (verifyingSession 0 complete y') = sessionCore (verifyingSession 0 complete y0) ∧
      verifiedFile 0 {} file' = verifiedFile 0 {} file0 := by
  cases hcompleted : round.completed with
  | none =>
    refine ⟨t, y, file, yields_forM_nil.mpr rfl, h.uploading, ?_, h.session, h.record⟩
    rw [h.status, Round.status, hcompleted]
    rfl
  | some now =>
    have hall : Whole y done := by
      rw [Whole, hwhole (by rw [hcompleted]; rfl), h.expectedSize]
    obtain ⟨t', hrun, h'⟩ := h.uploading.complete now hall h.status hcomplete
    refine ⟨t', _, _, yields_forM_cons.mpr ⟨t', hrun, yields_forM_nil.mpr rfl⟩, h', ?_, ?_, h.record⟩
    · rw [Round.status, hcompleted]
      rfl
    · rw [sessionCore_verifying_twice]
      exact h.session

lemma keptRequests_not_whole (k : ChunkID) (hn : 0 < n)
    (hinOrder : done.map place <+: chunkPlaces n) :
    (keptRequests k done).map place ≠ chunkPlaces n := by
  intro hwhole
  have hsublist : (keptRequests k done).Sublist done := filter_sublist
  have hlength := hinOrder.length_le
  rw [← hwhole, length_map, length_map] at hlength
  have hall : keptRequests k done = done := hsublist.eq_of_length_le hlength
  have hbefore : ∀ req ∈ done, req.offset < restartOffset k done := by
    intro req hreq
    rw [← hall] at hreq
    exact of_decide_eq_true (mem_filter.mp hreq).2
  rcases restartOffset_cases k done with hzero | ⟨req, hreq, _, heq⟩
  · rw [hall] at hwhole
    obtain ⟨req, hreq⟩ : ∃ req, req ∈ done := by
      refine exists_mem_of_ne_nil done ?_
      rintro rfl
      exact chunkPlaces_ne_nil hn hwhole.symm
    have hlt := hbefore req hreq
    obtain ⟨i, hi, hplace⟩ := mem_chunkPlaces.mp (hinOrder.subset (mem_map_of_mem hreq))
    simp only [chunkPlace, place, Prod.mk.injEq] at hplace
    rw [hzero, Int64.lt_iff_toInt_lt, Int64.toInt_zero] at hlt
    omega
  · have hlt := hbefore req hreq
    rw [heq] at hlt
    exact Int64.lt_irrefl hlt

lemma Underway.reopens (h : Underway u complete y0 file0 t y file done)
    (hcomplete : SoundComplete u complete) (hnone : y0.verifiedChecksum = none)
    (hround : SoundRound u y0.fileID (requiredReplicas file0) y0.expectedSize.toInt done round) :
    ∃ t' y' file', Yields (runCalls (round.reopening complete)) t () t' ∧
      Underway u complete y0 file0 t' y' file' (keptRequests round.fail.2.chunkID done) ∧
      y'.nextOffset = restartOffset round.fail.2.chunkID done := by
  obtain ⟨t1, y1, file1, hrun1, h1, hstatus, hsession, hrecord⟩ :=
    h.completes hcomplete hround.whole
  obtain ⟨t2, last, stored, stored', hrun2, h2⟩ := h1.restart (hstatus ▸ hround.fail) hround.retry
  have hpos : 0 < y0.expectedSize.toInt := by
    rw [← h.expectedSize]
    exact Int64.lt_iff_toInt_lt.mp h.uploading.expected
  refine ⟨t2, _, _, ?_, ⟨h2, rfl, ?_, hrecord, ?_, ?_, ?_, fun hwhole => ?_⟩, rfl⟩
  · rw [runCalls]
    exact yields_forM_append.mpr ⟨t1, hrun1, hrun2⟩
  · exact sessionCore_retried hsession hnone
  · exact fun req hreq => h.sound req (mem_of_mem_filter hreq)
  · exact ((prefix_append _ _).map place).trans hround.inOrder
  · exact h.chunkIDs.sublist (filter_sublist.map _)
  · exact absurd hwhole (keptRequests_not_whole _ hpos h.inOrder)

lemma Underway.rounds {rounds : List Round} (h : Underway u complete y0 file0 t y file done)
    (hcomplete : SoundComplete u complete) (hnone : y0.verifiedChecksum = none)
    (hrounds : SoundRounds u y0.fileID (requiredReplicas file0) y0.expectedSize.toInt done rounds) :
    ∃ t' y' file', Yields (runCalls (rounds.flatMap (Round.calls complete))) t () t' ∧
      Underway u complete y0 file0 t' y' file' (standing done rounds) := by
  induction rounds generalizing t y file done with
  | nil => exact ⟨t, y, file, yields_forM_nil.mpr rfl, h⟩
  | cons round rounds ih =>
    obtain ⟨hround, hrounds⟩ := hrounds
    obtain ⟨t1, y1, file1, hrun1, h1, _⟩ := h.reopens hcomplete hnone hround
    obtain ⟨t2, y2, file2, hrun2, h2⟩ := h1.commits hround.commits hround.inOrder hround.chunkIDs
    obtain ⟨t', y', file', hrest, h'⟩ := ih h2 hrounds
    refine ⟨t', y', file', ?_, h'⟩
    exact yields_forM_append.mpr ⟨t2, yields_forM_append.mpr ⟨t1, hrun1, hrun2⟩, hrest⟩

end Underway

/-! ### Closing the upload -/

def settledSession (y : UploadSession) : UploadSession :=
  { y with lastPersistedChunk := "", retry := {}, updatedAt := 0, completedAt := none }

structure SettledUpload (u : UploadSessionID) (complete : CompleteUploadRequest)
    (verify : VerifyUploadRequest) (y0 : UploadSession) (file0 : FileMetadata) (checksum : Checksum)
    (t : MemoryState) (done : List CommitChunkRequest) : Prop where
  record : ((catalog t).file y0.fileID).map untimedFile =
    some (verifiedFile y0.expectedSize checksum file0)
  chunks : (chunksOfFile t y0.fileID).map untimedChunk =
    done.map (availableChunk y0.fileID file0.replicaPolicy)
  session : ∃ y, (catalog t).session u = some y ∧
    settledSession y = settledSession (availableSession 0 verify { verifyingSession 0 complete y0 with
      confirmedOffset := y0.expectedSize, nextOffset := y0.expectedSize }) ∧
    ∃ req ∈ done.getLast?, y.lastPersistedChunk = req.chunkID

theorem Underway.finishes {complete : Time × CompleteUploadRequest}
    (h : Underway u complete.2 y0 file0 t y file done)
    (hplaces : done.map place = chunkPlaces y0.expectedSize.toInt)
    (hcomplete : SoundComplete u complete.2) (hverify : SoundVerify u complete.2 verify.2)
    (hchecksum : uploadChecksum complete.2 verify.2 y0 = some checksum) :
    ∃ t', Yields (runCalls (closingCalls complete verify)) t () t' ∧
      SettledUpload u complete.2 verify.2 y0 file0 checksum t' done := by
  obtain ⟨hconfirmed, hnext, hlast⟩ := h.ended hplaces
  have hwhole : Whole y done := by
    rw [Whole, hplaces, h.expectedSize]
  have hsound : ∀ req ∈ done, SoundCommit u y.fileID (requiredReplicas file) req := by
    rw [h.fileID, h.required]
    exact h.sound
  have hverified : (complete.2.finalChecksum.filter checksumReady <|> y.verifiedChecksum) =
      (complete.2.finalChecksum.filter checksumReady <|> y0.verifiedChecksum) :=
    (congrArg UploadSession.verifiedChecksum h.session :)
  have hchecksum' : uploadChecksum complete.2 verify.2 y = some checksum := by
    rw [← hchecksum, uploadChecksum, uploadChecksum, hverified]
  obtain ⟨hreturns, hresult⟩ :=
    h.uploading.finishes hwhole hsound h.status hcomplete hverify hchecksum'
  obtain ⟨⟨⟩, t', ht'⟩ := hreturns.mpr (hconfirmed.trans h.expectedSize.symm)
  obtain ⟨huploaded, hsession⟩ := hresult t' ht'
  refine ⟨t', ht', ?_, ?_, _, hsession, ?_, hlast⟩
  · have hrecord := huploaded.record
    rw [h.fileID, h.expectedSize] at hrecord
    have hsame := congrArg (fun file => some (verifiedFile y0.expectedSize checksum file)) h.record
    exact hrecord.trans hsame
  · have hchunks := huploaded.chunks_eq (List.Perm.refl done) hplaces
    rwa [h.fileID, h.replicaPolicy] at hchunks
  · have hclosed := congrArg (fun x : UploadSession => settledSession (availableSession 0 verify.2
      { x with confirmedOffset := y.confirmedOffset, nextOffset := y.nextOffset })) h.session
    refine hclosed.trans ?_
    rw [hconfirmed, hnext]
    rfl

def retriedCalls (first : List (Time × CommitChunkRequest)) (rounds : List Round)
    (complete : Time × CompleteUploadRequest) (verify : Time × VerifyUploadRequest) :
    List (Time × Call) :=
  commitCalls first ++ (rounds.flatMap (Round.calls complete.2) ++ closingCalls complete verify)

/-! ### Chunks that were committed again -/

def anonymousReplica (replica : ReplicaMetadata) : ReplicaMetadata :=
  { replica with id := "", chunkID := "" }

def SameReplicas (replicas replicas' : ReplicaSet) : Prop :=
  ∀ nodeID, (replicaOn replicas nodeID).map anonymousReplica =
    (replicaOn replicas' nodeID).map anonymousReplica

structure SameContent (req req' : CommitChunkRequest) : Prop where
  index : req.index = req'.index
  offset : req.offset = req'.offset
  size : req.size = req'.size
  checksum : req.checksum = req'.checksum
  replicaPolicy : req.replicaPolicy = req'.replicaPolicy
  replicas : SameReplicas req.replicas req'.replicas

structure SameButIDs (z z' : ChunkMetadata) : Prop where
  fields : { z with id := "", replicas := none } = { z' with id := "", replicas := none }
  replicas : SameReplicas z.replicas z'.replicas

section Recommitted

variable {k : ChunkID} {replicas replicas' : ReplicaSet}

lemma SameReplicas.filled (h : SameReplicas replicas replicas') :
    SameReplicas (filledReplicas f k replicas) (filledReplicas f k' replicas') := by
  intro nodeID
  have hplaced := congrArg
    (Option.map fun replica : ReplicaMetadata => { replica with nodeID := nodeID, fileID := f }) (h nodeID)
  rw [Option.map_map, Option.map_map] at hplaced
  rw [replicaOn_filledReplicas, replicaOn_filledReplicas, Option.map_map, Option.map_map]
  exact hplaced

lemma SameReplicas.size_eq (h : SameReplicas replicas replicas') :
    replicas.elim 0 Table.size = replicas'.elim 0 Table.size := by
  have hsize (replicas : ReplicaSet) :
      replicas.elim 0 Table.size = Table.size (replicas.getD ∅) := by
    cases replicas with
    | none | some table => rfl
  rw [hsize, hsize]
  refine Table.size_congr fun nodeID => ?_
  have hsome := congrArg Option.isSome (h nodeID)
  rw [Option.isSome_map, Option.isSome_map] at hsome
  rw [lookup_replicas, lookup_replicas, hsome]

lemma SameContent.place_eq (h : SameContent req req') : place req = place req' := by
  rw [place, place, h.index, h.offset, h.size]

lemma SameContent.availableChunk (h : SameContent req req') :
    SameButIDs (availableChunk f policy req) (availableChunk f policy req') := by
  have hfilled : SameReplicas (filledReplicas f req.chunkID req.replicas)
      (filledReplicas f req'.chunkID req'.replicas) := h.replicas.filled
  refine ⟨?_, hfilled⟩
  simp only [Proofs.availableChunk, requestedChunk, h.index, h.offset, h.size, h.checksum,
    h.replicaPolicy, hfilled.size_eq]

end Recommitted

/-- How many chunks no round ever dropped. -/
def untouched : List CommitChunkRequest → List Round → Nat
  | done, [] => done.length
  | done, round :: rounds =>
    min (keptRequests round.fail.2.chunkID done).length (untouched (round.after done) rounds)

lemma filter_prefix_of_pairwise (h : l.Pairwise fun a b => p b = true → p a = true) :
    l.filter p <+: l := by
  induction l with
  | nil => exact prefix_refl []
  | cons a l ih =>
    obtain ⟨hhead, htail⟩ := pairwise_cons.mp h
    by_cases ha : p a = true
    · rw [filter_cons_of_pos ha]
      exact (prefix_cons_inj a).mpr (ih htail)
    · have hnone : (a :: l).filter p = [] := by
        rw [filter_cons_of_neg ha, filter_eq_nil_iff]
        exact fun b hb hpb => ha (hhead b hb hpb)
      rw [hnone]
      exact nil_prefix

lemma keptRequests_prefix (k : ChunkID) (hinOrder : done.map place <+: chunkPlaces n) :
    keptRequests k done <+: done := by
  have hplaces : (chunkPlaces n).Pairwise (·.2.1 < ·.2.1) := by
    rw [chunkPlaces, pairwise_map]
    refine pairwise_lt_range.imp fun hij => ?_
    simp only [chunkPlace]
    omega
  have hoffsets := hplaces.sublist hinOrder.sublist
  rw [pairwise_map] at hoffsets
  refine filter_prefix_of_pairwise (hoffsets.imp fun hlt hbefore => ?_)
  rw [decide_eq_true_eq] at hbefore ⊢
  exact Int64.lt_trans (Int64.lt_iff_toInt_lt.mpr hlt) hbefore

lemma take_eq_take_of_initial (h : l <+: l') (hm : m ≤ l.length) : l'.take m = l.take m := by
  obtain ⟨rest, rfl⟩ := h
  exact take_append_of_le_length hm

lemma untouched_le (done : List CommitChunkRequest) (rounds : List Round) :
    untouched done rounds ≤ done.length := by
  cases rounds with
  | nil => exact le_rfl
  | cons round rounds =>
    exact (min_le_left _ _).trans (length_filter_le _ done)

lemma take_standing (hinOrder : done.map place <+: chunkPlaces n)
    (hrounds : SoundRounds u f required n done rounds) :
    (standing done rounds).take (untouched done rounds) = done.take (untouched done rounds) := by
  induction rounds generalizing done with
  | nil => rfl
  | cons round rounds ih =>
    obtain ⟨hround, hrounds⟩ := hrounds
    have hkept := keptRequests_prefix round.fail.2.chunkID hinOrder
    have hle : untouched done (round :: rounds) ≤ (keptRequests round.fail.2.chunkID done).length :=
      min_le_left _ _
    have hle' : untouched done (round :: rounds) ≤ untouched (round.after done) rounds :=
      min_le_right _ _
    have hrest := congrArg (take (untouched done (round :: rounds)))
      (ih hround.inOrder hrounds)
    rw [take_take, take_take, min_eq_left hle'] at hrest
    calc (standing (round.after done) rounds).take (untouched done (round :: rounds))
        = (round.after done).take (untouched done (round :: rounds)) := hrest
      _ = (keptRequests round.fail.2.chunkID done).take (untouched done (round :: rounds)) :=
        take_eq_take_of_initial (prefix_append _ _) hle
      _ = done.take (untouched done (round :: rounds)) := (take_eq_take_of_initial hkept hle).symm

/-! ### With and without failures -/

structure SameAfterRetries (f : FileID) (u : UploadSessionID) (kept : Nat) (t t' : MemoryState) :
    Prop where
  file : ((catalog t).file f).map untimedFile = ((catalog t').file f).map untimedFile
  chunks : List.Forall₂ SameButIDs ((chunksOfFile t f).map untimedChunk)
    ((chunksOfFile t' f).map untimedChunk)
  kept : ((chunksOfFile t f).map untimedChunk).take kept =
    ((chunksOfFile t' f).map untimedChunk).take kept
  session : ∃ y y', (catalog t).session u = some y ∧ (catalog t').session u = some y' ∧
    settledSession y = settledSession y' ∧
    (chunksOfFile t f).getLast?.map (·.id) = some y.lastPersistedChunk ∧
    (chunksOfFile t' f).getLast?.map (·.id) = some y'.lastPersistedChunk

section

variable (h : SettledUpload u complete verify y0 file0 checksum t done)
include h

lemma SettledUpload.last_chunk (hreq : req ∈ done.getLast?) :
    (chunksOfFile t y0.fileID).getLast?.map (·.id) = some req.chunkID := by
  have hids := congrArg (fun chunks => (chunks.map ChunkMetadata.id).getLast?) h.chunks
  simp only [map_map, getLast?_map] at hids
  rw [Option.mem_def.mp hreq] at hids
  exact hids

lemma SettledUpload.same (h' : SettledUpload u complete verify y0 file0 checksum s done')
    (hcontent : List.Forall₂ SameContent done done') (hkept : done.take kept = done'.take kept) :
    SameAfterRetries y0.fileID u kept t s := by
  refine ⟨h.record.trans h'.record.symm, ?_, ?_, ?_⟩
  · rw [h.chunks, h'.chunks]
    exact forall₂_map_left_iff.mpr (forall₂_map_right_iff.mpr
      (hcontent.imp fun _ _ hsame => hsame.availableChunk))
  · rw [h.chunks, h'.chunks, ← map_take, ← map_take, hkept]
  · obtain ⟨y, hy, hsettled, req, hreq, hlast⟩ := h.session
    obtain ⟨y', hy', hsettled', req', hreq', hlast'⟩ := h'.session
    refine ⟨y, y', hy, hy', hsettled.trans hsettled'.symm, ?_, ?_⟩
    · rw [hlast]
      exact h.last_chunk hreq
    · rw [hlast']
      exact h'.last_chunk hreq'

end

lemma underway_started (complete : CompleteUploadRequest) (h : Uploading t u y0 file0 [])
    (hstatus : file0.status = .uploading) : Underway u complete y0 file0 t y0 file0 [] := by
  refine ⟨h, hstatus, rfl, rfl, by simp, nil_prefix, nodup_nil, fun hwhole => ?_⟩
  exact absurd hwhole.symm (chunkPlaces_ne_nil (Int64.lt_iff_toInt_lt.mp h.expected))

lemma SoundRounds.split {before after : List Round}
    (h : SoundRounds u f required n done (before ++ round :: after)) :
    SoundRounds u f required n done before ∧
      SoundRound u f required n (standing done before) round := by
  induction before generalizing done with
  | nil => exact ⟨trivial, h.1⟩
  | cons first before ih =>
    obtain ⟨hfirst, hrest⟩ := h
    obtain ⟨hbefore, hround⟩ := ih hrest
    exact ⟨⟨hfirst, hbefore⟩, hround⟩

section Retried

variable {verify : VerifyUploadRequest} {first : List (Time × CommitChunkRequest)}
  {rounds : List Round} (hstarted : Uploading s u y file []) (hstatus : file.status = .uploading)
  (hnone : y.verifiedChecksum = none) (hcomplete : SoundComplete u complete)
  (hsound : ∀ p ∈ first, SoundCommit u y.fileID (requiredReplicas file) p.2)
  (hinOrder : (first.map Prod.snd).map place <+: chunkPlaces y.expectedSize.toInt)
  (hids : ((first.map Prod.snd).map (·.chunkID)).Nodup)
  (hrounds : SoundRounds u y.fileID (requiredReplicas file) y.expectedSize.toInt
    (first.map Prod.snd) rounds)
include hstarted hstatus hnone hcomplete hsound hinOrder hids hrounds

lemma retried_underway :
    ∃ t y' file', Yields (runCalls (commitCalls first ++ rounds.flatMap (Round.calls complete)))
        s () t ∧
      Underway u complete y file t y' file' (standing (first.map Prod.snd) rounds) := by
  obtain ⟨t1, y1, file1, hrun1, h1⟩ :=
    (underway_started complete hstarted hstatus).commits hsound hinOrder hids
  obtain ⟨t2, y2, file2, hrun2, h2⟩ := h1.rounds hcomplete hnone hrounds
  refine ⟨t2, y2, file2, ?_, h2⟩
  exact yields_forM_append.mpr ⟨t1, hrun1, hrun2⟩

lemma retried_finishes (completed verified : Time)
    (hplaces : (standing (first.map Prod.snd) rounds).map place = chunkPlaces y.expectedSize.toInt)
    (hverify : SoundVerify u complete verify)
    (hchecksum : uploadChecksum complete verify y = some checksum) :
    ∃ t, Yields (runCalls (retriedCalls first rounds (completed, complete) (verified, verify))) s () t ∧
      SettledUpload u complete verify y file checksum t (standing (first.map Prod.snd) rounds) := by
  obtain ⟨t1, y1, file1, hrun1, h1⟩ :=
    retried_underway hstarted hstatus hnone hcomplete hsound hinOrder hids hrounds
  obtain ⟨t2, hrun2, hfinished⟩ :
      ∃ t2, Yields (runCalls (closingCalls (completed, complete) (verified, verify))) t1 () t2 ∧
        SettledUpload u complete verify y file checksum t2 (standing (first.map Prod.snd) rounds) :=
    h1.finishes hplaces hcomplete hverify hchecksum
  refine ⟨t2, ?_, hfinished⟩
  rw [retriedCalls, ← append_assoc]
  exact yields_forM_append.mpr ⟨t1, hrun1, hrun2⟩

end Retried

/-- An upload with any number of failures and retries ends as the upload without them, and each
retry sets the progress to where the next commit goes on. -/
theorem retriedUpload_same (hrun : ServiceRun history s) (hfile : (catalog s).file f = some file)
    (hidle : NoActiveSession (catalog s) f)
    (hempty : ∀ k z, (catalog s).chunk k = some z → z.fileID ≠ f)
    (start : Time × StartUploadRequest) (commits first : List (Time × CommitChunkRequest))
    (rounds : List Round) (complete : CompleteUploadRequest) (verify : VerifyUploadRequest)
    (completed completed' verified verified' : Time) (hstart : SoundStart s f start.2)
    (hplaces : commits.map (fun p => place p.2) = chunkPlaces start.2.expectedSize.toInt)
    (hids : (commits.map (·.2.chunkID)).Nodup)
    (hsound : ∀ p ∈ commits, SoundCommit start.2.sessionID f (requiredReplicas file) p.2)
    (hcomplete : SoundComplete start.2.sessionID complete)
    (hverify : SoundVerify start.2.sessionID complete verify)
    (hfirst : first.map Prod.snd <+: commits.map Prod.snd)
    (hrounds : SoundRounds start.2.sessionID f (requiredReplicas file)
      start.2.expectedSize.toInt (first.map Prod.snd) rounds)
    (hcontent : List.Forall₂ SameContent (commits.map Prod.snd)
      (standing (first.map Prod.snd) rounds)) :
    (∃ t t',
      Yields (runCalls ((start.1, .startUpload start.2) ::
        uploadCalls commits (completed, complete) (verified, verify))) s () t ∧
      Yields (runCalls ((start.1, .startUpload start.2) ::
        retriedCalls first rounds (completed', complete) (verified', verify))) s () t' ∧
      SameAfterRetries f start.2.sessionID (untouched (first.map Prod.snd) rounds) t t') ∧
    ∀ before round after, rounds = before ++ round :: after →
      ∃ t y, Yields (runCalls ((start.1, .startUpload start.2) ::
          (commitCalls first ++ before.flatMap (Round.calls complete) ++ round.reopening complete)))
          s () t ∧
        (catalog t).session start.2.sessionID = some y ∧
        y.nextOffset = restartOffset round.fail.2.chunkID (standing (first.map Prod.snd) before) := by
  obtain ⟨t0, hcall, h⟩ := start_uploading start.1 hrun hfile hidle hstart hempty
  obtain ⟨rfl, -, -, hsize⟩ := hstart
  obtain ⟨checksum, hchecksum⟩ :=
    hverify.checksum (startedSession (requestTime start.1 start.2.createdAt) start.2)
  have hplaces' : (commits.map Prod.snd).map place = chunkPlaces start.2.expectedSize.toInt := by
    rw [map_map]
    exact hplaces
  have hids' : ((commits.map Prod.snd).map (·.chunkID)).Nodup := by
    rw [map_map]
    exact hids
  have hsoundFirst : ∀ p ∈ first, SoundCommit start.2.sessionID start.2.fileID
      (requiredReplicas file) p.2 := by
    intro p hp
    obtain ⟨q, hq, heq⟩ := mem_map.mp (hfirst.subset (mem_map_of_mem hp))
    rw [← heq]
    exact hsound q hq
  have hinOrder : (first.map Prod.snd).map place <+: chunkPlaces start.2.expectedSize.toInt :=
    hplaces' ▸ hfirst.map place
  have hidsFirst : ((first.map Prod.snd).map (·.chunkID)).Nodup :=
    hids'.sublist (hfirst.sublist.map _)
  have hstanding : (standing (first.map Prod.snd) rounds).map place =
      chunkPlaces start.2.expectedSize.toInt := by
    have hsame : List.Forall₂ Eq ((commits.map Prod.snd).map place)
        ((standing (first.map Prod.snd) rounds).map place) :=
      forall₂_map_left_iff.mpr (forall₂_map_right_iff.mpr
        (hcontent.imp fun _ _ hsame => hsame.place_eq))
    rw [forall₂_eq_eq_eq] at hsame
    exact hsame.symm.trans hplaces'
  constructor
  · have hnoRounds : SoundRounds start.2.sessionID start.2.fileID (requiredReplicas file)
        start.2.expectedSize.toInt (commits.map Prod.snd) [] := trivial
    obtain ⟨t, ht, hplain⟩ := retried_finishes h rfl rfl hcomplete hsound
      (hplaces' ▸ prefix_refl _) hids' hnoRounds completed verified hplaces' hverify hchecksum
    obtain ⟨t', ht', hretried⟩ := retried_finishes h rfl rfl hcomplete hsoundFirst hinOrder hidsFirst
      hrounds completed' verified' hstanding hverify hchecksum
    refine ⟨t, t', yields_forM_cons.mpr ⟨t0, hcall, ht⟩, yields_forM_cons.mpr ⟨t0, hcall, ht'⟩,
      hplain.same hretried hcontent ?_⟩
    calc (commits.map Prod.snd).take (untouched (first.map Prod.snd) rounds)
        = (first.map Prod.snd).take (untouched (first.map Prod.snd) rounds) :=
          take_eq_take_of_initial hfirst (untouched_le _ _)
      _ = (standing (first.map Prod.snd) rounds).take (untouched (first.map Prod.snd) rounds) :=
        (take_standing hinOrder hrounds).symm
  · rintro before round after rfl
    obtain ⟨hbefore, hround⟩ := hrounds.split
    obtain ⟨t1, y1, file1, hrun1, h1⟩ :=
      retried_underway h rfl rfl hcomplete hsoundFirst hinOrder hidsFirst hbefore
    obtain ⟨t2, y2, file2, hrun2, h2, hnext⟩ := h1.reopens hcomplete rfl hround
    refine ⟨t2, y2, yields_forM_cons.mpr ⟨t0, hcall, ?_⟩, h2.uploading.uploads.session, hnext⟩
    exact yields_forM_append.mpr ⟨t1, hrun1, hrun2⟩

def emptyFile : List Call :=
  [rootFile "i1" "f" "a" 0]

def startThreeChunks : StartUploadRequest where
  sessionID := "u"
  fileID := "f"
  expectedSize := 8388612

def blame (k : ChunkID) (attempt : Int) : FailUploadVerificationRequest where
  sessionID := "u"
  chunkID := k
  errorCode := "E"
  retryable := true
  attempt := attempt
  maxAttempts := 3

lemma soundFail_blame (hattempt : 0 ≤ attempt ∧ attempt < 3) (hk : ∃ req ∈ done, req.chunkID = k) :
    SoundFail "u" status done (blame k attempt) :=
  ⟨rfl, (by decide : "E" ≠ ""), rfl, hattempt, (fun _ h => by cases h), .inl rfl, fun _ => hk⟩

def twoRounds : List Round :=
  [⟨some 4, (5, blame "m" 1), (6, { sessionID := "u" }), [(7, chunkRequest "m2" 2 4)]⟩,
    ⟨none, (8, blame "l" 2), (9, { sessionID := "u" }),
      [(10, chunkRequest "l2" 1 4194304), (11, chunkRequest "m3" 2 4)]⟩]

lemma soundRounds_twoRounds :
    SoundRounds "u" "f" 1 8388612 (threeChunks.map Prod.snd) twoRounds := by
  refine ⟨⟨fun _ => by decide, soundFail_blame (by decide) (by decide), ⟨rfl, .inl rfl⟩, ?_,
      by decide, by decide⟩,
    ⟨(fun h => by cases h), soundFail_blame (by decide) (by decide), ⟨rfl, .inl rfl⟩, ?_,
      by decide, by decide⟩, trivial⟩
  · simp only [forall_mem_cons]
    exact ⟨soundCommit_chunkRequest (by decide) _ _, fun _ h => by cases h⟩
  · simp only [forall_mem_cons]
    exact ⟨soundCommit_chunkRequest (by decide) _ _, soundCommit_chunkRequest (by decide) _ _,
      fun _ h => by cases h⟩

lemma sameContent_chunkRequest (k k' : ChunkID) (index size : Int64) :
    SameContent (chunkRequest k index size) (chunkRequest k' index size) :=
  ⟨rfl, rfl, rfl, rfl, rfl, fun _ => rfl⟩

theorem retriedUpload_twoRounds :
    ∃ t t', Yields (runCalls ((1, .startUpload startThreeChunks) :: uploadCalls threeChunks
            (4, { sessionID := "u", finalChecksum := some (verifiedDigest "00") })
            (5, { sessionID := "u" }))) (play 1 emptyFile).2 () t ∧
      Yields (runCalls ((1, .startUpload startThreeChunks) :: retriedCalls threeChunks twoRounds
            (12, { sessionID := "u", finalChecksum := some (verifiedDigest "00") })
            (13, { sessionID := "u" }))) (play 1 emptyFile).2 () t' ∧
      SameAfterRetries "f" "u" 1 t t' := by
  have hfile : ((catalog (play 1 emptyFile).2).file "f").map requiredReplicas = some 1 := by
    decide +kernel
  obtain ⟨file, hfile, hrequired⟩ := Option.map_eq_some_iff.mp hfile
  have hchunks : (play 1 emptyFile).2.chunks.values.length = 0 := by decide +kernel
  have hidle : NoActiveSession (catalog (play 1 emptyFile).2) "f" :=
    noActiveSession_of_values (by decide +kernel)
  have hstart : SoundStart (play 1 emptyFile).2 "f" startThreeChunks :=
    ⟨rfl, by decide, Option.isNone_iff_eq_none.mp (by decide +kernel), by decide⟩
  have hsound : ∀ p ∈ threeChunks, SoundCommit "u" "f" (requiredReplicas file) p.2 := by
    rw [hrequired]
    exact soundCommit_threeChunks
  have hcontent : List.Forall₂ SameContent (threeChunks.map Prod.snd)
      (standing (threeChunks.map Prod.snd) twoRounds) :=
    .cons (sameContent_chunkRequest _ _ _ _) (.cons (sameContent_chunkRequest _ _ _ _)
      (.cons (sameContent_chunkRequest _ _ _ _) .nil))
  exact (retriedUpload_same (serviceRun_play 1 emptyFile) hfile hidle (chunkless_of_length hchunks)
    (1, startThreeChunks) threeChunks threeChunks twoRounds
    { sessionID := "u", finalChecksum := some (verifiedDigest "00") } { sessionID := "u" } 4 12 5 13
    hstart (by decide) (by decide) hsound soundComplete_verified soundVerify_verified
    (prefix_refl _) (hrequired ▸ soundRounds_twoRounds) hcontent).1

end AstraStorage.Proofs
