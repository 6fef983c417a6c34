import AstraStorage.Lib.Spans
import AstraStorage.Proofs.StoredSizes

/-!
# Confirmed bytes

The confirmed offset of a session is overwritten by every commit and every retry. It says which
bytes are stored only if each commit starts where the file has been filled up to.
-/

namespace AstraStorage.Proofs
open Lib Store Service Function Option

variable {s t : MemoryState} {c c' : Catalog} {history : List (MemoryState × Action)} {f : FileID}
  {y : UploadSession} {file' file : FileMetadata} {g : ChunkMetadata → ChunkMetadata}

def spansOf (chunks : List ChunkMetadata) : List (Int × Int) :=
  chunks.map fun z => (z.offset.toInt, z.offset.toInt + z.size.toInt)

def ConfirmedStored (s : MemoryState) : Prop :=
  ∀ k y file, (catalog s).session k = some y → (catalog s).file y.fileID = some file →
    file.latestUploadSessionID = k → isTerminalUploadStatus y.status = false →
      ∀ p : Int, 0 ≤ p → p < y.confirmedOffset.toInt →
        ∃ z ∈ chunksOfFile s y.fileID, z.offset.toInt ≤ p ∧ p < z.offset.toInt + z.size.toInt

def GroundedCommit (s : MemoryState) (req : CommitChunkRequest) : Prop :=
  ∀ y ∈ s.uploadSessions.lookup req.sessionID,
    (∀ z ∈ s.chunks.lookup req.chunkID, z.fileID = y.fileID) ∧
      ReachesTo (spansOf ((chunksOfFile s y.fileID).filter (·.id ≠ req.chunkID))) req.offset.toInt

def GroundedRetry (s : MemoryState) (req : RetryUploadRequest) : Prop :=
  ∀ y ∈ s.uploadSessions.lookup req.sessionID,
    (∀ file ∈ s.files.lookup y.fileID, file.latestUploadSessionID = req.sessionID) ∧
      ReachesTo (spansOf (chunksOfFile s y.fileID)) y.retry.lastFailedOffset.toInt

def commitRequest : Action → Option CommitChunkRequest
  | .call _ (.commitChunk req) => some req
  | _ => none

def retryRequest : Action → Option RetryUploadRequest
  | .call _ (.retryUpload req) => some req
  | _ => none

def Grounded (s : MemoryState) (a : Action) : Prop :=
  (∀ req ∈ commitRequest a, GroundedCommit s req) ∧ ∀ req ∈ retryRequest a, GroundedRetry s req

instance (s : MemoryState) (req : CommitChunkRequest) : Decidable (GroundedCommit s req) :=
  inferInstanceAs (Decidable (∀ y ∈ s.uploadSessions.lookup req.sessionID,
    (∀ z ∈ s.chunks.lookup req.chunkID, z.fileID = y.fileID) ∧
      ReachesTo (spansOf ((chunksOfFile s y.fileID).filter (·.id ≠ req.chunkID))) req.offset.toInt))

instance (s : MemoryState) (req : RetryUploadRequest) : Decidable (GroundedRetry s req) :=
  inferInstanceAs (Decidable (∀ y ∈ s.uploadSessions.lookup req.sessionID,
    (∀ file ∈ s.files.lookup y.fileID, file.latestUploadSessionID = req.sessionID) ∧
      ReachesTo (spansOf (chunksOfFile s y.fileID)) y.retry.lastFailedOffset.toInt))

instance (s : MemoryState) (a : Action) : Decidable (Grounded s a) :=
  inferInstanceAs (Decidable ((∀ req ∈ commitRequest a, GroundedCommit s req) ∧
    ∀ req ∈ retryRequest a, GroundedRetry s req))

structure Backed (s : MemoryState) : Prop where
  named : (catalog s).session "" = none
  reaches : ∀ k y file, (catalog s).session k = some y → (catalog s).file y.fileID = some file →
    file.latestUploadSessionID = k →
      ReachesTo (spansOf (chunksOfFile s y.fileID)) y.confirmedOffset.toInt

lemma mem_spansOf :
    span ∈ spansOf (chunksOfFile s f) ↔
    ∃ k z, (catalog s).chunk k = some z ∧ z.fileID = f ∧
      (z.offset.toInt, z.offset.toInt + z.size.toInt) = span := by
  simp only [spansOf, List.mem_map, mem_chunksOfFile]
  constructor
  · rintro ⟨z, ⟨hz, hzf⟩, heq⟩
    exact ⟨z.id, z, hz, hzf, heq⟩
  · rintro ⟨k, z, hz, hzf, heq⟩
    exact ⟨z, ⟨chunk_id hz ▸ hz, hzf⟩, heq⟩

def PlacesKept (s t : MemoryState) (f : FileID) : Prop :=
  ∀ k z, (catalog s).chunk k = some z → z.fileID = f →
    ∃ z', (catalog t).chunk k = some z' ∧ SamePlace z z'

lemma PlacesKept.spans (h : PlacesKept s t f) :
    ∀ span ∈ spansOf (chunksOfFile s f), span ∈ spansOf (chunksOfFile t f) := by
  intro span hspan
  obtain ⟨k, z, hz, hzf, rfl⟩ := mem_spansOf.mp hspan
  obtain ⟨z', hz', hplace⟩ := h k z hz hzf
  refine mem_spansOf.mpr ⟨k, z', hz', hplace.fileID.trans hzf, ?_⟩
  rw [hplace.offset, hplace.size]

lemma placesKept_withUpload
    (ht : catalog t = withUpload (catalog s) k f0 y' file' fun z => some (g z))
    (hg : ∀ z, SamePlace z (g z)) (f : FileID) : PlacesKept s t f := by
  intro j z hz _
  by_cases hf0 : z.fileID = f0
  · exact ⟨g z, by rw [ht, chunk_withUpload]; exact ⟨z, hz, if_pos hf0⟩, hg z⟩
  · exact ⟨z, by rw [ht, chunk_withUpload]; exact ⟨z, hz, if_neg hf0⟩, SamePlace.refl z⟩

def LatestKept (c c' : Catalog) (f : FileID) (file' : FileMetadata) : Prop :=
  ∃ file, c.file f = some file ∧ file'.latestUploadSessionID = file.latestUploadSessionID ∧
    ∀ k z, c.chunk k = some z → z.fileID = f → c'.chunk k = some z

lemma Relabelled.latestKept (h : Relabelled c c' n x x') (hfile' : c'.file f = some file') :
    LatestKept c c' f file' := by
  have hchunk : ∀ k z, c.chunk k = some z → z.fileID = f → c'.chunk k = some z := by
    intro k z hz _
    rwa [h.chunk]
  by_cases htype : x.type = .file
  · rw [h.file_of_file htype, map_eq_some_iff] at hfile'
    obtain ⟨file, hfile, rfl⟩ := hfile'
    refine ⟨file, hfile, ?_, hchunk⟩
    split <;> rfl
  · rw [h.file_of_directory htype, map_eq_some_iff] at hfile'
    obtain ⟨file, hfile, rfl⟩ := hfile'
    refine ⟨file, hfile, ?_, hchunk⟩
    rw [refile]
    split <;> rfl

lemma NamespaceChange.latestKept (h : NamespaceChange ok c c') (hfile' : c'.file f = some file')
    (hlatest : file'.latestUploadSessionID ≠ "") : LatestKept c c' f file' := by
  cases h with
  | addDirectory | dropDirectory => exact ⟨file', hfile', rfl, fun _ _ hz _ => hz⟩
  | addFile _ _ _ _ _ _ _ _ _ _ _ _ _ _ _ _ _ hnone =>
    rcases update_some_eq_some.mp hfile' with ⟨_, rfl⟩ | ⟨_, hfile'⟩
    · exact absurd hnone hlatest
    · exact ⟨file', hfile', rfl, fun _ _ hz _ => hz⟩
  | rename _ _ _ _ h | move _ _ _ _ _ _ h => exact h.latestKept hfile'
  | dropFile =>
    obtain ⟨hne, hfile'⟩ := update_none_eq_some.mp hfile'
    refine ⟨file', hfile', rfl, fun k z hz hzf => ?_⟩
    rw [withoutFile, filter_eq_some_iff, decide_eq_true_eq]
    exact ⟨hz, hzf ▸ hne⟩

lemma latestKept_of_namespaceChanges (h : Relation.ReflTransGen (NamespaceChange ok) c c')
    (hfile' : c'.file f = some file') (hlatest : file'.latestUploadSessionID ≠ "") :
    LatestKept c c' f file' := by
  induction h generalizing file' with
  | refl => exact ⟨file', hfile', rfl, fun _ _ hz _ => hz⟩
  | tail _ hstep ih =>
    obtain ⟨file1, hfile1, heq1, hchunk1⟩ := hstep.latestKept hfile' hlatest
    obtain ⟨file, hfile, heq, hchunk⟩ := ih hfile1 (heq1 ▸ hlatest)
    exact ⟨file, hfile, heq1.trans heq, fun k z hz hzf => hchunk1 k z (hchunk k z hz hzf) hzf⟩

section

variable (h : Backed s)
include h

lemma Backed.upload (hk0 : k0 ≠ "") (hy0 : y0.fileID = f0)
    (hsession : (catalog t).session = update (catalog s).session k0 (some y0))
    (hfile : (catalog t).file = update (catalog s).file f0 (some file0))
    (hother : ∀ f, f ≠ f0 → PlacesKept s t f)
    (hown : ∀ y, (catalog t).session file0.latestUploadSessionID = some y → y.fileID = f0 →
      ReachesTo (spansOf (chunksOfFile t f0)) y.confirmedOffset.toInt) : Backed t := by
  constructor
  · rw [hsession, update_of_ne hk0.symm]
    exact h.named
  · intro k y file' hy hfile' hlatest
    by_cases hf : y.fileID = f0
    · rw [hfile, hf, update_self, some.injEq] at hfile'
      rw [hf]
      exact hown y (by rw [hfile', hlatest]; exact hy) hf
    · rw [hfile, update_of_ne hf] at hfile'
      rw [hsession] at hy
      rcases update_some_eq_some.mp hy with ⟨_, rfl⟩ | ⟨_, hy⟩
      · exact absurd hy0 hf
      · exact (h.reaches k y file' hy hfile' hlatest).mono (hother _ hf).spans

lemma Backed.restamp (hk0 : k0 ≠ "") (hup : Uploads (catalog s) k0 y file)
    (ht : catalog t = withUpload (catalog s) k0 y.fileID y' file' fun z => some (g z))
    (hg : ∀ z, SamePlace z (g z)) (hfileID : y'.fileID = y.fileID)
    (hconfirmed : y'.confirmedOffset = y.confirmedOffset)
    (hlatest : file'.latestUploadSessionID = file.latestUploadSessionID) : Backed t := by
  have hsession : (catalog t).session = update (catalog s).session k0 (some y') :=
    congrArg Catalog.session ht
  refine h.upload hk0 hfileID hsession (congrArg Catalog.file ht)
    (fun f _ => placesKept_withUpload ht hg f) ?_
  intro y1 hy1 hf1
  refine ReachesTo.mono ?_ (placesKept_withUpload ht hg y.fileID).spans
  rw [hsession, hlatest] at hy1
  rcases update_some_eq_some.mp hy1 with ⟨hk, rfl⟩ | ⟨_, hy1⟩
  · rw [hconfirmed]
    exact h.reaches k0 y file hup.session hup.stored hk
  · rw [← hf1]
    exact h.reaches _ y1 file hy1 (hf1 ▸ hup.stored) rfl

lemma Backed.commit (hacc : CommitAccepted s req y file) (hgrounded : GroundedCommit s req)
    (ht : catalog t = { withUpload (catalog s) req.sessionID y.fileID y' file' some with
      chunk := update (catalog s).chunk req.chunkID
        (some (committedChunk when req y file replicas)) }) (hfileID : y'.fileID = y.fileID)
    (hconfirmed : y'.confirmedOffset = req.offset + req.size)
    (hlatest : file'.latestUploadSessionID = file.latestUploadSessionID) : Backed t := by
  obtain ⟨howner, hreaches⟩ := hgrounded y hacc.uploads.session
  have hchunk : (catalog t).chunk = update (catalog s).chunk req.chunkID
      (some (committedChunk when req y file replicas)) := congrArg Catalog.chunk ht
  have hsession : (catalog t).session = update (catalog s).session req.sessionID (some y') :=
    congrArg Catalog.session ht
  refine h.upload hacc.sessionID_ne hfileID hsession (congrArg Catalog.file ht) ?_ ?_
  · intro f hf k z hz hzf
    refine ⟨z, ?_, SamePlace.refl z⟩
    rw [hchunk, update_some_eq_some]
    refine .inr ⟨?_, hz⟩
    rintro rfl
    exact hf (hzf.symm.trans (howner z hz))
  · intro y1 hy1 _
    rw [hsession, hlatest] at hy1
    rcases update_some_eq_some.mp hy1 with ⟨_, rfl⟩ | ⟨hne, hy1⟩
    · have hend : (req.offset + req.size).toInt = req.offset.toInt + req.size.toInt :=
        toInt_add_of_nonneg hacc.position.2.1 hacc.position.2.2 hacc.offsets.1
      rw [hconfirmed, hend]
      refine hreaches.extend ?_ ?_
      · intro span hspan
        obtain ⟨z, hz, rfl⟩ := List.mem_map.mp hspan
        rw [List.mem_filter, decide_eq_true_eq] at hz
        obtain ⟨hstored, hzf⟩ := mem_chunksOfFile.mp hz.1
        refine mem_spansOf.mpr ⟨z.id, z, ?_, hzf, rfl⟩
        rw [hchunk]
        exact update_some_eq_some.mpr (.inr ⟨hz.2, hstored⟩)
      · refine mem_spansOf.mpr ⟨req.chunkID, committedChunk when req y file replicas, ?_, rfl, rfl⟩
        rw [hchunk]
        exact update_self req.chunkID _ _
    · -- The file has no latest session.
      rcases hacc.latest with hempty | heq
      · rw [hempty, h.named] at hy1
        cases hy1
      · exact absurd heq hne

lemma Backed.retry (hacc : RetryAccepted s req y file) (hgrounded : GroundedRetry s req)
    (ht : catalog t = withUpload (catalog s) req.sessionID y.fileID (retriedSession when last y) file'
      (reopenedChunk y.retry.lastFailedOffset when))
    (hlatest : file'.latestUploadSessionID = file.latestUploadSessionID) : Backed t := by
  obtain ⟨hcurrent, hreaches⟩ := hgrounded y hacc.uploads.session
  have hfile : file.latestUploadSessionID = req.sessionID := hcurrent file hacc.uploads.stored
  have hsession : (catalog t).session = update (catalog s).session req.sessionID
      (some (retriedSession when last y)) := congrArg Catalog.session ht
  refine h.upload hacc.sessionID_ne rfl hsession (congrArg Catalog.file ht) ?_ ?_
  · intro f hf k z hz hzf
    refine ⟨z, ?_, SamePlace.refl z⟩
    rw [ht, chunk_withUpload]
    exact ⟨z, hz, if_neg fun hzf0 => hf (hzf.symm.trans hzf0)⟩
  · intro y1 hy1 _
    rw [hsession, hlatest, hfile, update_self, some.injEq] at hy1
    subst hy1
    -- A chunk that holds a byte below the restart offset starts below it and is kept.
    intro p hp hlt
    obtain ⟨span, hspan, hstart, hend⟩ := hreaches p hp hlt
    obtain ⟨k, z, hz, hzf, rfl⟩ := mem_spansOf.mp hspan
    have hbelow : z.offset < y.retry.lastFailedOffset := by
      rw [Int64.lt_iff_toInt_lt]
      exact lt_of_le_of_lt hstart hlt
    refine ⟨_, mem_spansOf.mpr ⟨k, stampChunk .persisted "" when z, ?_, hzf, rfl⟩, hstart, hend⟩
    rw [ht, chunk_withUpload]
    exact ⟨z, hz, (if_pos hzf).trans (if_pos hbelow)⟩

lemma Backed.start (hacc : StartAccepted s req file)
    (ht : catalog t = withUpload (catalog s) req.sessionID req.fileID (startedSession now req)
      (startedFile now req file) some) : Backed t := by
  have hsession : (catalog t).session = update (catalog s).session req.sessionID
      (some (startedSession now req)) := congrArg Catalog.session ht
  refine h.upload hacc.sessionID_ne rfl hsession (congrArg Catalog.file ht)
    (fun f _ => placesKept_withUpload ht SamePlace.refl f) ?_
  intro y hy _
  rw [hsession] at hy
  rcases update_some_eq_some.mp hy with ⟨_, rfl⟩ | ⟨hne, _⟩
  · exact reachesTo_of_nonpos (Int.le_refl 0)
  · exact absurd rfl hne

lemma Backed.kept
    (hsession : ∀ k y, (catalog t).session k = some y → (catalog s).session k = some y)
    (hfile : ∀ f file', (catalog t).file f = some file' → file'.latestUploadSessionID ≠ "" →
      LatestKept (catalog s) (catalog t) f file') :
    Backed t := by
  have hnamed : (catalog t).session "" = none := by
    refine eq_none_iff_forall_ne_some.mpr fun y hy => ?_
    have hold := hsession "" y hy
    rw [h.named] at hold
    cases hold
  refine ⟨hnamed, ?_⟩
  rintro k y file' hy hfile' rfl
  have hne : file'.latestUploadSessionID ≠ "" := by
    intro he
    rw [he, hnamed] at hy
    cases hy
  obtain ⟨file, hstored, hlatest, hchunk⟩ := hfile _ file' hfile' hne
  refine (h.reaches _ y file (hsession _ y hy) hstored hlatest.symm).mono ?_
  exact PlacesKept.spans fun k z hz hzf => ⟨z, hchunk k z hz hzf, SamePlace.refl z⟩

/-- Every grounded step keeps the confirmed bytes stored. -/
theorem Backed.effect (hgrounded : Grounded s a) (he : Effect ok s t a) : Backed t := by
  cases he with
  | same ht =>
    refine h.kept (fun _ _ hy => ht ▸ hy) fun f file' hfile' _ => ?_
    exact ⟨file', ht ▸ hfile', rfl, fun _ _ hz _ => ht ▸ hz⟩
  | nodes ht =>
    refine h.kept (fun _ _ hy => ht.session ▸ hy) fun f file' hfile' _ => ?_
    exact ⟨file', ht.file ▸ hfile', rfl, fun _ _ hz _ => ht.chunk ▸ hz⟩
  | namespaces ht =>
    exact h.kept (fun _ _ hy => session_of_namespaceChanges ht hy)
      fun _ _ hfile' hne => latestKept_of_namespaceChanges ht hfile' hne
  | upload he =>
    cases he with
    | start hacc ht => exact h.start hacc ht
    | commit hacc ht => exact h.commit hacc (hgrounded.1 _ rfl) ht rfl rfl rfl
    | complete hacc ht | verify hacc ht =>
      exact h.restamp hacc.sessionID_ne hacc.uploads ht samePlace_stampChunk rfl rfl rfl
    | fail hacc ht =>
      exact h.restamp hacc.sessionID_ne hacc.uploads ht (fun _ => ⟨rfl, rfl, rfl, rfl, rfl⟩) rfl rfl
        rfl
    | retry hacc ht => exact h.retry hacc (hgrounded.2 _ rfl) ht rfl

end

theorem confirmedStored_of_run (hrun : ServiceRun history s)
    (hgrounded : ∀ p ∈ history, Grounded p.1 p.2) : ConfirmedStored s := by
  have hboth := invariant_of_serviceRun (I := Backed) hrun hgrounded
    (fun now => ⟨rfl, by rintro k y file ⟨⟩⟩)
    fun s a t hw hbacked ha hstep => hbacked.effect ha (effect_of_step hw hstep)
  intro k y file hy hfile hlatest _ p hp hlt
  obtain ⟨span, hspan, hin⟩ := hboth.2.reaches k y file hy hfile hlatest p hp hlt
  obtain ⟨z, hz, rfl⟩ := List.mem_map.mp hspan
  exact ⟨z, hz, hin⟩

theorem retriedUpload_confirmedStored :
    (∀ p ∈ (play 1 retriedUpload).1, Grounded p.1 p.2) ∧ ConfirmedStored (play 1 retriedUpload).2 ∧
      ((catalog (play 1 retriedUpload).2).session "u").map
        (fun y => (y.status, y.confirmedOffset)) = some (.active, 4194304) := by
  have hgrounded : ∀ p ∈ (play 1 retriedUpload).1, Grounded p.1 p.2 := by decide +kernel
  exact ⟨hgrounded, confirmedStored_of_run (serviceRun_play 1 retriedUpload) hgrounded,
    by decide +kernel⟩

def secondChunkFirst : List Call :=
  [rootFile "i1" "f" "a" 0,
    .startUpload { sessionID := "u", fileID := "f", expectedSize := 4194308 },
    .commitChunk { sessionID := "u", chunkID := "l", index := 1, offset := 4194304, size := 4 }]

theorem not_confirmedStored_secondChunkFirst :
    ServiceRun (play 1 secondChunkFirst).1 (play 1 secondChunkFirst).2 ∧
      ¬ConfirmedStored (play 1 secondChunkFirst).2 := by
  refine ⟨serviceRun_play 1 secondChunkFirst, fun h => ?_⟩
  have hsession : ((catalog (play 1 secondChunkFirst).2).session "u").map
      (fun y => (y.fileID, y.status, y.confirmedOffset)) = some ("f", .active, 4194308) := by
    decide +kernel
  have hfile : ((catalog (play 1 secondChunkFirst).2).file "f").map (·.latestUploadSessionID) =
      some "u" := by decide +kernel
  have hchunks : (chunksOfFile (play 1 secondChunkFirst).2 "f").all
      (fun z => decide (0 < z.offset.toInt)) = true := by decide +kernel
  obtain ⟨y, hy, hyeq⟩ := map_eq_some_iff.mp hsession
  obtain ⟨file, hfile, hlatest⟩ := map_eq_some_iff.mp hfile
  simp only [Prod.mk.injEq] at hyeq
  obtain ⟨hf, hstatus, hconfirmed⟩ := hyeq
  have hterminal : isTerminalUploadStatus y.status = false := by
    rw [hstatus]
    rfl
  have hpos : 0 < y.confirmedOffset.toInt := by
    rw [hconfirmed]
    decide
  obtain ⟨z, hz, hstart, _⟩ := h "u" y file hy (hf ▸ hfile) hlatest hterminal 0 le_rfl hpos
  rw [hf] at hz
  have hoffset := List.all_eq_true.mp hchunks z hz
  rw [decide_eq_true_eq] at hoffset
  omega

end AstraStorage.Proofs
