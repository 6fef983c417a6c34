import AstraStorage.Proofs.Alignment
import AstraStorage.Proofs.Sessions

/-!
# Stored sizes and upload progress

As long as no commit takes a chunk from another file, the stored size of a file is the largest end
of a chunk, as integers.
-/

namespace AstraStorage.Proofs
open Lib Store Service

variable {s : MemoryState} {history : List (MemoryState × Action)} {k : UploadSessionID}
  {y : UploadSession} {a : Action} {f : FileID}

def largestEnd (chunks : List ChunkMetadata) : Int :=
  chunks.foldl (fun stored z => max stored (z.offset.toInt + z.size.toInt)) 0

structure ProgressFits (y : UploadSession) : Prop where
  confirmed : 0 ≤ y.confirmedOffset
  next : y.confirmedOffset ≤ y.nextOffset
  expected : 0 < y.expectedSize → y.nextOffset ≤ y.expectedSize

lemma laterEnd_toInt (hplace : 0 ≤ z.offset ∧ 0 ≤ z.size ∧ 0 ≤ z.offset + z.size) :
    (laterEnd stored z).toInt = max stored.toInt (z.offset.toInt + z.size.toInt) := by
  obtain ⟨hoffset, hsize, hend⟩ := hplace
  rw [← toInt_add_of_nonneg hoffset hsize hend]
  unfold laterEnd
  split_ifs with hlater
  · rw [gt_iff_lt, Int64.lt_iff_toInt_lt] at hlater
    exact (max_eq_right hlater.le).symm
  · rw [gt_iff_lt, Int64.lt_iff_toInt_lt, not_lt] at hlater
    exact (max_eq_left hlater).symm

lemma maxChunkEnd_toInt (hplace : ∀ z ∈ chunks, 0 ≤ z.offset ∧ 0 ≤ z.size ∧ 0 ≤ z.offset + z.size) :
    (maxChunkEnd chunks).toInt = largestEnd chunks := by
  have hloop : ∀ start : Int64, (chunks.foldl laterEnd start).toInt =
      chunks.foldl (fun stored z => max stored (z.offset.toInt + z.size.toInt)) start.toInt := by
    induction chunks with
    | nil => exact fun _ => rfl
    | cons z rest ih =>
      intro start
      rw [List.foldl_cons, List.foldl_cons, ← laterEnd_toInt (hplace z List.mem_cons_self)]
      exact ih (fun w hw => hplace w (List.mem_cons_of_mem _ hw)) _
  exact hloop 0

def Sized (s : MemoryState) : Prop :=
  ∀ f file, (catalog s).file f = some file → file.storedSize = maxChunkEnd (chunksOfFile s f)

lemma maxChunkEnd_of_kept (h : Sized s) (hc : ChunkTable (catalog t))
    (hkept : ContentsKept (catalog s) (catalog t) f file') :
    file'.storedSize = maxChunkEnd (chunksOfFile t f) := by
  obtain ⟨file, hfile, hsame, hchunk⟩ := hkept
  rw [hsame.storedSize, h f file hfile, chunksOfFile_eq hc hchunk]

lemma Sized.withUpload (h : Sized s) (hc : ChunkTable (catalog t))
    (ht : catalog t = withUpload (catalog s) k f0 y' file0 g)
    (hg : ∀ z z', g z = some z' → z'.fileID = z.fileID)
    (hsized : file0.storedSize = maxChunkEnd (chunksOfFile t f0)) : Sized t := by
  intro f file' hfile'
  by_cases hf : f = f0
  · subst hf
    rw [ht] at hfile'
    rcases update_some_eq_some.mp hfile' with ⟨_, rfl⟩ | ⟨hne, _⟩
    · exact hsized
    · exact absurd rfl hne
  · refine maxChunkEnd_of_kept h hc ?_
    rw [ht] at hfile' ⊢
    exact contentsKept_withUpload hg hf hfile'

lemma maxChunkEnd_withUpload {g : ChunkMetadata → ChunkMetadata} (hc : ChunkTable (catalog t))
    (hg : ∀ z, SamePlace z (g z))
    (ht : catalog t = withUpload (catalog s) k f y' file' (fun z => some (g z))) :
    maxChunkEnd (chunksOfFile s f) = maxChunkEnd (chunksOfFile t f) := by
  rw [chunksOfFile_withUpload hc hg ht, maxChunkEnd_map hg]

lemma Sized.effect (h : Sized s) (he : Effect ok s t a) (hw : WellFormed (catalog s))
    (hs : ChunkTable (catalog s)) (hkeep : KeepsOwner s a) : Sized t := by
  have hc : ChunkTable (catalog t) := hs.effect he
  cases he with
  | same ht =>
    intro f file' hfile'
    exact maxChunkEnd_of_kept h hc (.of_eq (by rw [ht]) (by rw [ht]) hfile')
  | namespaces ht =>
    intro f file' hfile'
    rcases contentsKept_of_namespaceChanges hw ht hfile' with hnew | hkept
    · have hnone : chunksOfFile t f = [] := by
        refine List.eq_nil_iff_forall_not_mem.mpr fun z hz => ?_
        obtain ⟨hz, hzf⟩ := mem_chunksOfFile.mp hz
        exact hnew.chunkless _ z hz hzf
      rw [hnew.storedSize, hnone]
      rfl
    · exact maxChunkEnd_of_kept h hc hkept
  | nodes ht =>
    intro f file' hfile'
    exact maxChunkEnd_of_kept h hc (.of_eq ht.file ht.chunk hfile')
  | upload he =>
    cases he with
    | start hacc ht =>
      refine h.withUpload hc ht (fun _ _ hz => by cases hz; rfl) ?_
      refine (h _ _ hacc.stored).trans ?_
      exact maxChunkEnd_withUpload hc SamePlace.refl ht
    | @commit _ _ y _ _ hacc ht =>
      intro f file' hfile'
      by_cases hf : f = y.fileID
      · subst hf
        rw [ht] at hfile'
        rcases update_some_eq_some.mp hfile' with ⟨_, rfl⟩ | ⟨hne, _⟩
        · rfl
        · exact absurd rfl hne
      · exact maxChunkEnd_of_kept h hc (contentsKept_of_commit hacc ht hkeep hf hfile')
    | complete _ ht | verify _ ht =>
      refine h.withUpload hc ht (fun _ _ => stampChunk_fileID) ?_
      exact maxChunkEnd_withUpload hc (fun z => samePlace_stampChunk z) ht
    | fail _ ht => exact h.withUpload hc ht (fun _ _ hz => by cases hz; rfl) rfl
    | retry _ ht => exact h.withUpload hc ht (fun _ _ => reopenedChunk_fileID) rfl

lemma progressFits_of_offsetsFit (h : OffsetsFit s y y'.confirmedOffset y'.nextOffset)
    (hexpected : y'.expectedSize = y.expectedSize) : ProgressFits y' := by
  obtain ⟨hconfirmed, _, hle, hbound⟩ := h
  refine ⟨hconfirmed, hle, fun hpos => ?_⟩
  rw [hexpected] at hpos ⊢
  have hsize : uploadExpectedSize s y = y.expectedSize := by
    rw [uploadExpectedSize, if_pos hpos]
  rw [hsize] at hbound
  exact hbound hpos

lemma ProgressFits.moves (h : ProgressFits y) (hmove : Moves s a k y y') : ProgressFits y' := by
  cases hmove with
  | commit hacc | retry hacc => exact progressFits_of_offsetsFit hacc.offsets rfl
  | complete | verify | fail => exact ⟨h.confirmed, h.next, h.expected⟩

lemma progressFits_step (h : ∀ k y, (catalog s).session k = some y → ProgressFits y)
    (hstep : SessionStep s t a) : ∀ k y, (catalog t).session k = some y → ProgressFits y := by
  intro k y hy
  cases hstep with
  | kept hkept => exact h k y (hkept k y hy)
  | started _ _ ht =>
    rw [ht, update_some_eq_some] at hy
    rcases hy with ⟨_, rfl⟩ | ⟨_, hy⟩
    · exact ⟨Int64.le_refl 0, Int64.le_refl 0, Int64.le_of_lt⟩
    · exact h k y hy
  | moved hmove ht =>
    rw [ht, update_some_eq_some] at hy
    rcases hy with ⟨_, rfl⟩ | ⟨_, hy⟩
    · exact (h _ _ hmove.stored).moves hmove
    · exact h k y hy

lemma progressFits_of_run (hrun : ServiceRun history s) :
    ∀ k y, (catalog s).session k = some y → ProgressFits y := by
  refine kept_of_serviceRun (I := fun s => ∀ k y, (catalog s).session k = some y →
    ProgressFits y) hrun (by rintro now k y ⟨⟩) ?_
  intro s a t hw hprogress hstep
  exact progressFits_step hprogress (step_sessionStep hw hstep)

lemma sized_of_run (hrun : ServiceRun history s) (hone : OneFilePerChunk history) : Sized s := by
  refine kept_of_oneFilePerChunk hrun hone (by rintro now f file ⟨⟩) ?_
  intro s a t hw hc hkeeps he hsized
  exact hsized.effect he hw hc hkeeps

theorem storedSizes_of_run (hrun : ServiceRun history s) (hone : OneFilePerChunk history) :
    (∀ f file, (catalog s).file f = some file →
        file.storedSize.toInt = largestEnd (chunksOfFile s f)) ∧
      ∀ k y, (catalog s).session k = some y → ProgressFits y := by
  refine ⟨fun f file hfile => ?_, progressFits_of_run hrun⟩
  rw [sized_of_run hrun hone f file hfile]
  exact maxChunkEnd_toInt fun z hz => (chunkTable_of_run hrun).place _ z (mem_chunksOfFile.mp hz).1

def retriedUpload : List Call :=
  [rootFile "i1" "f" "a" 0,
    .startUpload { sessionID := "u", fileID := "f", expectedSize := 4194308 },
    .commitChunk { sessionID := "u", chunkID := "k", size := 4194304 },
    .commitChunk { sessionID := "u", chunkID := "l", index := 1, offset := 4194304, size := 4 },
    .failUploadVerification {
      sessionID := "u", chunkID := "l", errorCode := "checksum", maxAttempts := 1
      retryable := true },
    .retryUpload { sessionID := "u" }]

theorem retriedUpload_storedSize :
    OneFilePerChunk (play 1 retriedUpload).1 ∧
      ∃ file, (catalog (play 1 retriedUpload).2).file "f" = some file ∧
        file.storedSize.toInt = largestEnd (chunksOfFile (play 1 retriedUpload).2 "f") ∧
        file.storedSize = 4194304 := by
  have hsome : ((catalog (play 1 retriedUpload).2).file "f").map (·.storedSize) =
      some 4194304 := by decide +kernel
  obtain ⟨file, hfile, hstored⟩ := Option.map_eq_some_iff.mp hsome
  have hone : OneFilePerChunk (play 1 retriedUpload).1 := by decide +kernel
  refine ⟨hone, file, hfile, ?_, hstored⟩
  exact (storedSizes_of_run (serviceRun_play 1 retriedUpload) hone).1 "f" file hfile

end AstraStorage.Proofs
