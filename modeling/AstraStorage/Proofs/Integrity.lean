import AstraStorage.Proofs.Reachable

/-!
# The namespace and its records

Whatever calls were made, the inodes form one directory tree, and inodes, files, chunks and
upload sessions refer to each other without a dangling reference.
-/

namespace AstraStorage.Proofs
open Lib Store Service

variable {s : MemoryState} {history : List (MemoryState × Action)}

structure DirectoryTree (c : Catalog) : Prop where
  root : ∃ r, c.inode rootInodeID = some r ∧ r.parentID = ""
  root_only : ∀ i x, c.inode i = some x → x.parentID = "" → i = rootInodeID
  parent : ∀ i x, c.inode i = some x → i ≠ rootInodeID →
    ∃ p, c.inode x.parentID = some p ∧ p.type = .directory
  reaches_root : ∀ i x, c.inode i = some x → Climbs (parentOf c) i rootInodeID
  acyclic : ∀ i x, c.inode i = some x → ¬Below (parentOf c) i i
  siblings : ∀ i j x y, c.inode i = some x → c.inode j = some y → x.parentID = y.parentID →
    x.name = y.name → i = j
  directory_file : ∀ i x, c.inode i = some x → x.type = .directory → x.fileID = ""

theorem directoryTree_of_run (hrun : ServiceRun history s) : DirectoryTree (catalog s) := by
  obtain ⟨ht, _⟩ := wellFormed_of_run hrun
  obtain ⟨r, hr, hparent, _⟩ := ht.root
  constructor
  · exact ⟨r, hr, hparent⟩
  · intro i x hx hempty
    by_contra hi
    exact ht.parentID_ne_empty hx hi hempty
  · exact ht.parent
  · exact ht.climbs
  · intro i x hx
    exact ht.not_below_self hx
  · exact ht.siblings
  · exact ht.directory_file

def nestedDirectories : List Call :=
  [.createDirectory { inodeID := "i1", parentID := rootInodeID, name := "a" },
    .createDirectory { inodeID := "i2", parentID := "i1", name := "b" },
    .moveInode { inodeID := "i1", targetParentID := "i2" },
    .createFile { inodeID := "i3", fileID := "f", parentID := "i2", name := "c" },
    .moveInode { inodeID := "i2", targetParentID := rootInodeID }]

theorem directoryTree_nestedDirectories :
    DirectoryTree (catalog (play 1 nestedDirectories).2) ∧
      parentOf (catalog (play 1 nestedDirectories).2) "i1" = some rootInodeID ∧
      parentOf (catalog (play 1 nestedDirectories).2) "i2" = some rootInodeID ∧
      parentOf (catalog (play 1 nestedDirectories).2) "i3" = some "i2" :=
  ⟨directoryTree_of_run (serviceRun_play 1 nestedDirectories), by decide +kernel⟩

/-- The loop of `isDescendant` makes at most one round for each inode. -/
theorem isDescendant_decides (hrun : ServiceRun history s) {c : InodeID}
    (hc : ((catalog s).inode c).isSome) (a : InodeID) :
    ∃ b, (∀ rounds, s.inodes.size ≤ rounds →
        isDescendantLoop s a rounds (s.inodes.lookup c) = some b) ∧
      Yields (isDescendant s c a) s b s ∧ (b = true ↔ Below (parentOf (catalog s)) c a) := by
  obtain ⟨ht, _⟩ := wellFormed_of_run hrun
  obtain ⟨x, hx⟩ := Option.isSome_iff_exists.mp hc
  obtain ⟨r, hr, hparent, _⟩ := ht.root
  have hup : Up (parentOf (catalog s)) rootInodeID "" := parentOf_eq_some.mpr ⟨r, hr, hparent⟩
  obtain ⟨b, hloop, hb⟩ :=
    isDescendantLoop_decides ht.no_empty_id ((ht.climbs c x hx).tail hup) a
  refine ⟨b, hloop, ?_, hb⟩
  rw [isDescendant, hloop _ le_rfl]
  rfl

theorem isDescendant_nestedDirectories :
    ∃ b, Yields (isDescendant (play 1 nestedDirectories).2 "i3" "i2") (play 1 nestedDirectories).2 b
        (play 1 nestedDirectories).2 ∧
      (b = true ↔ Below (parentOf (catalog (play 1 nestedDirectories).2)) "i3" "i2") := by
  obtain ⟨b, -, hb⟩ :=
    isDescendant_decides (serviceRun_play 1 nestedDirectories) (c := "i3") (by decide +kernel) "i2"
  exact ⟨b, hb⟩

structure ReferentialIntegrity (c : Catalog) : Prop where
  file_inode : ∀ f file, c.file f = some file →
    ∃ x, c.inode file.inodeID = some x ∧ x.type = .file ∧ x.fileID = f
  inode_file : ∀ i x, c.inode i = some x → x.type = .file →
    ∃! f, ∃ file, c.file f = some file ∧ file.inodeID = i
  chunk_file : ∀ k z, c.chunk k = some z → ∃ file, c.file z.fileID = some file
  session_file : ∀ k y, c.session k = some y → ∃ file, c.file y.fileID = some file
  latest : ∀ f file, c.file f = some file → file.latestUploadSessionID ≠ "" →
    ∃ y, c.session file.latestUploadSessionID = some y ∧ y.fileID = f

theorem referentialIntegrity_of_run (hrun : ServiceRun history s) :
    ReferentialIntegrity (catalog s) := by
  obtain ⟨_, hl⟩ := wellFormed_of_run hrun
  constructor
  · exact hl.file_inode
  · intro i x hx hfile
    obtain ⟨file, hstored, hinode⟩ := hl.inode_file i x hx hfile
    refine ⟨x.fileID, ⟨file, hstored, hinode⟩, ?_⟩
    rintro g ⟨file', hstored', hinode'⟩
    exact hl.file_unique hstored' hstored (hinode'.trans hinode.symm)
  · exact hl.chunk_file
  · exact hl.session_file
  · exact hl.latest

def twoUploads : List Call :=
  [rootFile "i1" "f" "a" 4,
    rootFile "i2" "g" "b" 4,
    .startUpload { sessionID := "u", fileID := "f" },
    .startUpload { sessionID := "v", fileID := "g" },
    .commitChunk { sessionID := "u", chunkID := "k", size := 4 },
    .commitChunk { sessionID := "v", chunkID := "l", size := 4 },
    .deleteFile { fileID := "g" }]

theorem referentialIntegrity_twoUploads :
    ReferentialIntegrity (catalog (play 1 twoUploads).2) ∧
      ((catalog (play 1 twoUploads).2).file "f").map (·.latestUploadSessionID) = some "u" ∧
      ((catalog (play 1 twoUploads).2).chunk "k").map (·.fileID) = some "f" ∧
      (catalog (play 1 twoUploads).2).chunk "l" = none ∧
      (catalog (play 1 twoUploads).2).session "v" = none :=
  ⟨referentialIntegrity_of_run (serviceRun_play 1 twoUploads), by decide +kernel⟩

end AstraStorage.Proofs
