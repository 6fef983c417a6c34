import AstraStorage.Proofs.Chunks

/-!
# Commits and the chunks of other files

A commit should touch the chunks of its own file only. Chunk ids are global, so this holds
unless an accepted commit names a chunk of another file.
-/

namespace AstraStorage.Proofs
open Lib Store Service

variable {s : MemoryState} {now : Time} {history : List (MemoryState × Action)} {y : UploadSession}

section Commit

variable {req : CommitChunkRequest} {z : ChunkMetadata}
  (ht : (catalog t).chunk = Function.update (catalog s).chunk req.chunkID (some z))
include ht

lemma chunksOfFile_other (hc : ChunkTable (catalog t)) (hf : z.fileID ≠ f)
    (hkeep : ∀ w, (catalog s).chunk req.chunkID = some w → w.fileID = z.fileID) :
    chunksOfFile t f = chunksOfFile s f := by
  refine chunksOfFile_eq hc fun k w hw => ?_
  rw [ht, update_some_eq_some]
  constructor
  · rintro (⟨_, rfl⟩ | ⟨_, hold⟩)
    · exact absurd hw hf
    · exact hold
  · intro hold
    refine Or.inr ⟨?_, hold⟩
    rintro rfl
    exact hf ((hkeep w hold).symm.trans hw)

lemma chunksOfFile_ne_of_taken (hw : (catalog s).chunk req.chunkID = some w)
    (hne : w.fileID ≠ z.fileID) : chunksOfFile t w.fileID ≠ chunksOfFile s w.fileID := by
  intro heq
  have hid : w.id = req.chunkID := chunk_id hw
  have hmem : w ∈ chunksOfFile t w.fileID := by
    rw [heq]
    exact mem_chunksOfFile.mpr ⟨hid ▸ hw, rfl⟩
  have hstored := (mem_chunksOfFile.mp hmem).1
  rw [ht, hid, Function.update_self] at hstored
  cases hstored
  exact hne rfl

end Commit

/-- A commit that is accepted leaves the chunks of other files alone exactly if its chunk is not
one of theirs. -/
theorem commitChunk_isolated_iff {req : CommitChunkRequest} (hrun : ServiceRun history s)
    (hy : (catalog s).session req.sessionID = some y) :
    (∀ f, f ≠ y.fileID →
      chunksOfFile ((Call.commitChunk req).exec now s) f = chunksOfFile s f) ↔
      (UploadAccepted s (.commitChunk req) →
        ∀ z, (catalog s).chunk req.chunkID = some z → z.fileID = y.fileID) := by
  have hw := wellFormed_of_run hrun
  by_cases hacc : UploadAccepted s (.commitChunk req)
  · have hc : ChunkTable (catalog ((Call.commitChunk req).exec now s)) :=
      chunkTable_of_run (hrun.next (.call now (.commitChunk req)))
    have heffect : UploadEffect s _ (.call now (.commitChunk req)) := hacc.effect hw
    cases heffect with
    | @commit _ _ y' file replicas hacc' ht =>
      obtain rfl : y = y' := Option.mem_unique hy hacc'.uploads.session
      have hchunk := congrArg Catalog.chunk ht
      constructor
      · intro hall _ z hz
        by_contra hne
        exact chunksOfFile_ne_of_taken hchunk hz hne (hall z.fileID hne)
      · intro hkeep f hf
        exact chunksOfFile_other hchunk hc hf.symm (hkeep hacc)
  · rw [exec_of_refused hw rfl hacc]
    exact ⟨fun _ h => absurd h hacc, fun _ _ _ => rfl⟩

def openUploads : List Call :=
  [rootFile "i1" "f" "a" 4,
    rootFile "i2" "g" "b" 4,
    .startUpload { sessionID := "u", fileID := "f" },
    .startUpload { sessionID := "v", fileID := "g" },
    .commitChunk { sessionID := "u", chunkID := "k", size := 4 }]

theorem commitChunk_isolated_openUploads :
    ∃ y, (catalog (play 1 openUploads).2).session "v" = some y ∧ y.fileID = "g" ∧
      ∀ f, f ≠ "g" → chunksOfFile ((Call.commitChunk
        { sessionID := "v", chunkID := "l", size := 4 }).exec 1 (play 1 openUploads).2) f =
          chunksOfFile (play 1 openUploads).2 f := by
  have hg : ((catalog (play 1 openUploads).2).session "v").map (·.fileID) = some "g" := by
    decide +kernel
  have hnew : (catalog (play 1 openUploads).2).chunk "l" = none := by decide +kernel
  obtain ⟨y, hy, hyg⟩ := Option.map_eq_some_iff.mp hg
  refine ⟨y, hy, hyg, ?_⟩
  rw [← hyg]
  refine (commitChunk_isolated_iff (serviceRun_play 1 openUploads) hy).mpr ?_
  intro _ z hz
  cases hz

/-- The chunk id of `f`'s chunk is accepted for `g`, and the chunk moves there. -/
theorem commitChunk_takes_chunk :
    ServiceRun (play 1 openUploads).1 (play 1 openUploads).2 ∧
      ((catalog (play 1 openUploads).2).session "v").map (·.fileID) = some "g" ∧
      chunksOfFile ((Call.commitChunk
        { sessionID := "v", chunkID := "k", size := 4 }).exec 1 (play 1 openUploads).2) "f" ≠
          chunksOfFile (play 1 openUploads).2 "f" := by
  refine ⟨serviceRun_play 1 openUploads, by decide +kernel, fun heq => ?_⟩
  have hids := congrArg (List.map ChunkMetadata.id) heq
  exact absurd hids (by decide +kernel)

end AstraStorage.Proofs
