import AstraStorage.Proofs.Reachable

/-!
# Recursive deletion

On a well-formed catalog a recursive `DeleteDirectory` succeeds, and what is gone afterwards is the
subtree with the files, chunks and sessions that hang on it.
-/

namespace AstraStorage.Proofs
open Lib Store Service List Relation DirectoryEntry

variable {c c' : Catalog} {s : MemoryState} {i d j : InodeID} {x : InodeMetadata}
  {children : List InodeID}

def subtree (c : Catalog) (i : InodeID) : Set InodeID := {j | Climbs (parentOf c) j i}

lemma mem_subtree : j ∈ subtree c i ↔ Climbs (parentOf c) j i := Iff.rfl

structure Removed (c c' : Catalog) (gone : Set InodeID) : Prop where
  inode : ∀ i x, c'.inode i = some x ↔ c.inode i = some x ∧ i ∉ gone
  file : ∀ f file, c'.file f = some file ↔ c.file f = some file ∧ file.inodeID ∉ gone
  chunk : ∀ k z, c'.chunk k = some z ↔
    c.chunk k = some z ∧ ∀ file, c.file z.fileID = some file → file.inodeID ∉ gone
  session : ∀ k y, c'.session k = some y ↔
    c.session k = some y ∧ ∀ file, c.file y.fileID = some file → file.inodeID ∉ gone
  node : c'.node = c.node
  plan : c'.plan = c.plan

namespace Removed

lemma refl (c : Catalog) : Removed c c ∅ := by
  constructor
  all_goals simp

lemma trans (h : Removed c c' A) (h' : Removed c' c'' B) : Removed c c'' (A ∪ B) := by
  have hfile : ∀ f, ((∀ file, c.file f = some file → file.inodeID ∉ A) ∧
      ∀ file, c'.file f = some file → file.inodeID ∉ B) ↔
        ∀ file, c.file f = some file → file.inodeID ∉ A ∪ B := by
    intro f
    simp only [h.file, Set.mem_union, not_or]
    constructor
    · rintro ⟨hA, hB⟩ file hfile
      exact ⟨hA file hfile, hB file ⟨hfile, hA file hfile⟩⟩
    · intro hAB
      exact ⟨fun file hfile => (hAB file hfile).1, fun file hfile => (hAB file hfile.1).2⟩
  constructor
  · intro i x
    rw [h'.inode, h.inode, and_assoc, Set.mem_union, not_or]
  · intro f file
    rw [h'.file, h.file, and_assoc, Set.mem_union, not_or]
  · intro k z
    rw [h'.chunk, h.chunk, and_assoc, hfile]
  · intro k y
    rw [h'.session, h.session, and_assoc, hfile]
  · rw [h'.node, h.node]
  · rw [h'.plan, h.plan]

lemma parentOf_eq_some (h : Removed c c' A) :
    parentOf c' i = some p ↔ parentOf c i = some p ∧ i ∉ A := by
  simp only [Proofs.parentOf_eq_some, h.inode]
  constructor
  · rintro ⟨x, ⟨hx, hi⟩, hp⟩
    exact ⟨⟨x, hx, hp⟩, hi⟩
  · rintro ⟨⟨x, hx, hp⟩, hi⟩
    exact ⟨x, ⟨hx, hi⟩, hp⟩

lemma union_subtree (h : Removed c c' A)
    (hclosed : ∀ j p, parentOf c j = some p → p ∈ A → j ∈ A) (i : InodeID) :
    A ∪ subtree c' i = A ∪ subtree c i := by
  ext j
  by_cases hj : j ∈ A
  · simp [hj]
  · have hagree : ∀ j, j ∉ A → parentOf c' j = parentOf c j := by
      intro j hj
      apply Option.ext
      intro p
      simp [h.parentOf_eq_some, hj]
    simp only [Set.mem_union, hj, false_or]
    exact climbs_iff_of_closed hclosed hagree hj

end Removed

lemma removed_directory (hw : WellFormed c) (hx : c.inode i = some x) (hdir : x.type = .directory) :
    Removed c { c with inode := Function.update c.inode i none } {i} := by
  have hfile : ∀ f file, c.file f = some file → file.inodeID ≠ i := by
    rintro f file hfile rfl
    obtain ⟨y, hy, htype, _⟩ := hw.links.file_inode f file hfile
    obtain rfl : x = y := Option.mem_unique hx hy
    rw [hdir] at htype
    cases htype
  constructor
  · intro j y
    rw [update_none_eq_some, and_comm, Set.mem_singleton_iff]
  · intro f file
    exact ⟨fun h => ⟨h, hfile f file h⟩, And.left⟩
  · intro k z
    exact ⟨fun h => ⟨h, fun file => hfile _ file⟩, And.left⟩
  · intro k y
    exact ⟨fun h => ⟨h, fun file => hfile _ file⟩, And.left⟩
  · rfl
  · rfl

lemma removed_file (hw : WellFormed c) (hfile : c.file f = some file) :
    Removed c (withoutFile c f file.inodeID) {file.inodeID} := by
  -- the file that hangs on the inode is `f` and no other
  have howner : ∀ g, (∃ file', c.file g = some file') →
      (g ≠ f ↔ ∀ file', c.file g = some file' → file'.inodeID ∉ ({file.inodeID} : Set InodeID)) := by
    rintro g ⟨file', hg⟩
    simp only [hg, Option.some.injEq, forall_eq', Set.mem_singleton_iff]
    constructor
    · intro hne heq
      exact hne (hw.links.file_unique hg hfile heq)
    · rintro hne rfl
      exact hne (by rw [Option.mem_unique hg hfile])
  constructor
  · intro j y
    simp only [withoutFile, update_none_eq_some, Set.mem_singleton_iff]
    exact and_comm
  · intro g file'
    simp only [withoutFile, update_none_eq_some]
    rw [and_comm]
    refine and_congr_right fun hg => ?_
    rw [howner g ⟨file', hg⟩]
    simp [hg]
  · intro k z
    simp only [withoutFile, Option.filter_eq_some_iff, decide_eq_true_eq]
    exact and_congr_right fun hz => howner z.fileID (hw.links.chunk_file k z hz)
  · intro k y
    simp only [withoutFile, Option.filter_eq_some_iff, decide_eq_true_eq]
    exact and_congr_right fun hy => howner y.fileID (hw.links.session_file k y hy)
  · rfl
  · rfl

lemma Tree.childless (ht : Tree c) (hx : c.inode i = some x) (hfile : x.type = .file) :
    Childless c i := by
  intro j y hy hp
  have := ht.directory_of_child hx (parentOf_eq_some.mpr ⟨y, hy, hp⟩)
  rw [hfile] at this
  cases this

lemma Tree.subtree_file (ht : Tree c) (hx : c.inode i = some x) (hfile : x.type = .file) :
    subtree c i = {i} := by
  ext j
  rw [mem_subtree, climbs_iff_eq_or_child]
  constructor
  · rintro (rfl | ⟨b, hb, _⟩)
    · rfl
    · have := ht.directory_of_child hx hb
      rw [hfile] at this
      cases this
  · exact .inl

lemma deleteFileCascade_removes (hw : WellFormed (catalog s))
    (hfile : (catalog s).file f = some file) :
    ∃ t, Yields (deleteFileCascade f) s () t ∧ WellFormed (catalog t) ∧
      Removed (catalog s) (catalog t) {file.inodeID} := by
  obtain ⟨x, hx, htype, -⟩ := hw.links.file_inode f file hfile
  have hi : file.inodeID ≠ "" := by
    intro hi
    rw [hi, hw.tree.no_empty_id] at hx
    cases hx
  have hleaf := hw.tree.childless hx htype
  obtain ⟨r, hr, hcascade⟩ := deleteFileCascade_before_inode hw hfile
  have hdrop : Yields (deleteFileCascade f) s ()
      { r with inodes := r.inodes.erase file.inodeID } := by
    rw [hcascade, yields_deleteInode hi, hr]
    exact ⟨⟨x, hx⟩, hleaf, rfl⟩
  have hchange : NamespaceChange (fun _ => True) (catalog s) _ := .dropFile hfile hleaf
  refine ⟨_, hdrop, ?_⟩
  rw [catalog_eraseInode, hr]
  exact ⟨hw.namespaceChange hchange, removed_file hw hfile⟩

lemma deleteFileOfInode_removes (hw : WellFormed (catalog s)) (hx : (catalog s).inode i = some x)
    (hfile : x.type = .file) :
    ∃ t, Yields (do
        let file ← getFile { inodeID := i }
        deleteFileCascade file.id) s () t ∧
      WellFormed (catalog t) ∧ Removed (catalog s) (catalog t) {i} := by
  obtain ⟨file0, hstored0, hinode0⟩ := hw.links.inode_file i x hx hfile
  have hi : i ≠ "" := by
    rintro rfl
    rw [hw.tree.no_empty_id] at hx
    cases hx
  have hfound : (findFile s { inodeID := i }).isSome := by
    simp only [findFile, ne_eq, not_true_eq_false, if_false, find?_isSome]
    exact ⟨file0, Records.mem_values_iff_exists.mpr ⟨_, hstored0⟩, by simp [hinode0]⟩
  obtain ⟨file, hfind⟩ := Option.isSome_iff_exists.mp hfound
  obtain ⟨hstored, rfl⟩ := findFile_inodeID hi hfind
  have hget : Yields (getFile { inodeID := file.inodeID }) s file s := by simp [getFile, hfind]
  obtain ⟨t, hdrop, ht⟩ := deleteFileCascade_removes hw hstored
  exact ⟨t, hget.bind_iff.mpr hdrop, ht⟩

lemma listChildren_lists (ht : Tree (catalog s)) (hx : (catalog s).inode i = some x) :
    ∃ entries, Yields (listChildren i {}) s entries s ∧
      (entries.map DirectoryEntry.childID).Nodup ∧
      ∀ j, j ∈ entries.map DirectoryEntry.childID ↔ parentOf (catalog s) j = some i := by
  have hi : i ≠ "" := by
    rintro rfl
    rw [ht.no_empty_id] at hx
    cases hx
  refine ⟨entriesOf s i, ?_, nodup_childIDs i, ?_⟩
  · exact yields_listChildren.mpr ⟨hi, by simp [hx], (applyListWindow_all _).symm, rfl⟩
  · intro j
    simp only [mem_map, mem_entriesOf]
    constructor
    · rintro ⟨e, ⟨y, hy, hp, -, rfl⟩, rfl⟩
      exact parentOf_eq_some.mpr ⟨y, hy, hp⟩
    · intro hj
      obtain ⟨y, hy, hp⟩ := parentOf_eq_some.mp hj
      have hactive : y.status ≠ .deleted := by
        rw [ht.active j y hy]
        intro h
        cases h
      obtain rfl := inode_id hy
      exact ⟨_, ⟨y, hy, hp, hactive, rfl⟩, rfl⟩

def subtrees (c : Catalog) (children : List InodeID) : Set InodeID :=
  {j | ∃ b ∈ children, j ∈ subtree c b}

lemma mem_subtrees : j ∈ subtrees c children ↔ ∃ b ∈ children, j ∈ subtree c b := Iff.rfl

lemma subtrees_append (children : List InodeID) (b : InodeID) :
    subtrees c (children ++ [b]) = subtrees c children ∪ subtree c b := by
  ext j
  simp [subtrees, or_and_right, exists_or]

lemma subtrees_closed (children : List InodeID) (j p : InodeID) (hj : parentOf c j = some p)
    (hp : p ∈ subtrees c children) : j ∈ subtrees c children := by
  obtain ⟨b, hb, hpb⟩ := hp
  exact ⟨b, hb, ReflTransGen.head hj hpb⟩

lemma Tree.not_mem_subtrees (ht : Tree c) (hx : c.inode i = some x)
    (hchildren : ∀ b ∈ children, parentOf c b = some i)
    (he : e = i ∨ parentOf c e = some i ∧ e ∉ children) : e ∉ subtrees c children := by
  rintro ⟨b, hb, heb⟩
  have hbi : Up (parentOf c) b i := hchildren b hb
  rcases he with rfl | ⟨he, hnot⟩
  · exact ht.not_below_self hx (TransGen.tail' heb hbi)
  · rcases climbs_iff_eq_or_below.mp heb with rfl | hbelow
    · exact hnot hb
    · rcases (below_iff_of_some he).mp hbelow with rfl | hib
      · exact ht.not_below_self hx (TransGen.single hbi)
      · exact ht.not_below_self hx (hib.tail hbi)

lemma deleteChild_removes {e : DirectoryEntry} (hw : WellFormed (catalog s))
    (hwq : WellFormed (catalog q)) (hq : Removed (catalog s) (catalog q) A)
    (hclosed : ∀ j p, parentOf (catalog s) j = some p → p ∈ A → j ∈ A)
    (hy : (catalog s).inode e.childID = some y) (het : e.type = y.type) (hkept : e.childID ∉ A)
    (hdel : (catalog q).inode e.childID = some y → y.type = .directory →
      ∃ t, Yields del q () t ∧ WellFormed (catalog t) ∧
        Removed (catalog q) (catalog t) (subtree (catalog q) e.childID)) :
    ∃ t, Yields (if e.type = .directory then del else do
        let file ← getFile { inodeID := e.childID }
        deleteFileCascade file.id) q () t ∧ WellFormed (catalog t) ∧
      Removed (catalog s) (catalog t) (A ∪ subtree (catalog s) e.childID) := by
  have hyq : (catalog q).inode e.childID = some y := (hq.inode _ y).mpr ⟨hy, hkept⟩
  by_cases hed : e.type = .directory
  · obtain ⟨t, ht, hwt, hqt⟩ := hdel hyq (het.symm.trans hed)
    refine ⟨t, by simpa [hed] using ht, hwt, ?_⟩
    rw [← hq.union_subtree hclosed]
    exact hq.trans hqt
  · have hfile : y.type = .file :=
      (hw.links.type _ y hy).resolve_left (fun h => hed (het.trans h))
    obtain ⟨t, ht, hwt, hqt⟩ := deleteFileOfInode_removes hwq hyq hfile
    refine ⟨t, by simpa [hed] using ht, hwt, ?_⟩
    rw [hw.tree.subtree_file hy hfile]
    exact hq.trans hqt

theorem deleteDirectoryRecursive_removes (hw : WellFormed (catalog s))
    (hx : (catalog s).inode i = some x) (hdir : x.type = .directory) (hroot : i ≠ rootInodeID)
    (hdepth : Shallow (parentOf (catalog s)) depth i) :
    ∃ t, Yields (deleteDirectoryRecursive depth i) s () t ∧ WellFormed (catalog t) ∧
      Removed (catalog s) (catalog t) (subtree (catalog s) i) := by
  induction depth generalizing s i x with
  | zero => exact hdepth.elim
  | succ depth ih =>
    have hi : i ≠ "" := by
      rintro rfl
      rw [hw.tree.no_empty_id] at hx
      cases hx
    obtain ⟨entries, hlist, hnodup, hmem⟩ := listChildren_lists hw.tree hx
    obtain ⟨_, _, hentries⟩ := listChildren_spec hlist
    have hchild : ∀ e ∈ entries, parentOf (catalog s) e.childID = some i :=
      fun e he => (hmem _).mp (mem_map_of_mem he)
    -- after some rounds, the subtrees of the children visited so far are gone
    have hround : ∀ made e rest, entries = made ++ e :: rest → ∀ q,
        WellFormed (catalog q) ∧ Removed (catalog s) (catalog q)
          (subtrees (catalog s) (made.map childID)) →
        ∃ t, Yields (if e.type = .directory then deleteDirectoryRecursive depth e.childID else do
            let file ← getFile { inodeID := e.childID }
            deleteFileCascade file.id) q () t ∧ WellFormed (catalog t) ∧
          Removed (catalog s) (catalog t)
            (subtrees (catalog s) ((made ++ [e]).map childID)) := by
      rintro made e rest rfl q ⟨hwq, hq⟩
      obtain ⟨y, hy, hyp, het⟩ := hentries e (by simp)
      have hmade : ∀ b ∈ made.map childID, parentOf (catalog s) b = some i := by
        intro b hb
        exact (hmem b).mp (by simp [hb])
      have hnew : e.childID ∉ made.map childID := by
        rw [map_append] at hnodup
        intro hb
        exact (disjoint_of_nodup_append hnodup) hb (by simp)
      have hkept := hw.tree.not_mem_subtrees hx hmade (.inr ⟨hchild e (by simp), hnew⟩)
      rw [map_append, map_cons, map_nil, subtrees_append]
      apply deleteChild_removes hw hwq hq (subtrees_closed _) hy het hkept
      intro hyq hyd
      have hne : e.childID ≠ rootInodeID := by
        intro he
        obtain ⟨z, hz, hzp, _⟩ := hw.tree.root
        rw [he, hz] at hy
        cases hy
        exact hi (hyp.symm.trans hzp)
      apply ih hwq hyq hyd hne
      refine (hdepth e.childID (hchild e (by simp))).mono ?_
      intro j p hj
      exact (hq.parentOf_eq_some.mp hj).1
    obtain ⟨r, hloop, hwr, hr⟩ := forM_succeeds
      (fun made q => WellFormed (catalog q) ∧ Removed (catalog s) (catalog q)
        (subtrees (catalog s) (made.map childID)))
      ⟨hw, by simpa [subtrees] using Removed.refl (catalog s)⟩ hround
    -- so the directory has become a leaf
    have hkept : i ∉ subtrees (catalog s) (entries.map childID) := by
      refine hw.tree.not_mem_subtrees hx ?_ (.inl rfl)
      intro b hb
      exact (hmem b).mp hb
    have hxr : (catalog r).inode i = some x := (hr.inode i x).mpr ⟨hx, hkept⟩
    have hleaf : Childless (catalog r) i := by
      intro j y hy hp
      obtain ⟨hys, hgone⟩ := (hr.inode j y).mp hy
      have hj : j ∈ entries.map childID :=
        (hmem j).mpr (parentOf_eq_some.mpr ⟨y, hys, hp⟩)
      exact absurd ⟨j, hj, ReflTransGen.refl⟩ hgone
    have hdrop := (yields_deleteInode (u := ()) hi).mpr ⟨⟨x, hxr⟩, hleaf, rfl⟩
    refine ⟨{ r with inodes := r.inodes.erase i }, ?_, ?_, ?_⟩
    · rw [deleteDirectoryRecursive, hlist.bind_iff, forM_eq_forM, hloop.bind_iff]
      exact hdrop
    · have hchange : NamespaceChange (fun _ => True) (catalog r) _ :=
        .dropDirectory hxr hdir hroot hleaf
      rw [catalog_eraseInode]
      exact hwr.namespaceChange hchange
    · have hall : subtree (catalog s) i =
          subtrees (catalog s) (entries.map childID) ∪ {i} := by
        ext j
        rw [mem_subtree, climbs_iff_eq_or_child, Set.mem_union, Set.mem_singleton_iff, or_comm,
          mem_subtrees]
        simp only [hmem, mem_subtree]
      rw [hall, catalog_eraseInode]
      exact hr.trans (removed_directory hwr hxr hdir)

variable {history : List (MemoryState × Action)}

lemma deleteDirectory_removes (hw : WellFormed (catalog s)) (hx : (catalog s).inode d = some x)
    (hdir : x.type = .directory) (hroot : d ≠ rootInodeID) :
    ∃ t, Yields (deleteDirectory { inodeID := d, recursive := true }) s () t ∧
      Removed (catalog s) (catalog t) (subtree (catalog s) d) := by
  have hd : d ≠ "" := by
    rintro rfl
    rw [hw.tree.no_empty_id] at hx
    cases hx
  -- the walk to the root and out of the table bounds the depth of the recursion
  obtain ⟨r, hr, hrp, _⟩ := hw.tree.root
  have hout : parentOf (catalog s) "" = none := by simp [parentOf, hw.tree.no_empty_id]
  have hwalk : Climbs (parentOf (catalog s)) d "" :=
    (hw.tree.climbs d x hx).tail (parentOf_eq_some.mpr ⟨r, hr, hrp⟩)
  obtain ⟨n, hn⟩ := exists_leaves hout hwalk
  have hshallow : Shallow (parentOf (catalog s)) (s.inodes.size + 1) d :=
    shallow_of_leaves (fun _ _ h => leaves_le_size h) hn (by omega)
  obtain ⟨t, ht, _, hremoved⟩ := deleteDirectoryRecursive_removes hw hx hdir hroot hshallow
  refine ⟨t, ?_, hremoved⟩
  have hid : x.id = d := inode_id hx
  rw [deleteDirectory, yields_reject_bind, yields_inTx, yields_getInode_bind hd]
  refine ⟨hd, x, hx, ?_⟩
  simp only [yields_reject_bind, hid, hdir, hroot, not_true_eq_false, not_false_eq_true, ne_eq,
    true_and, Bool.true_eq_false, if_false, yields_get_bind]
  exact ht

theorem deleteDirectory_removes_subtree (hrun : ServiceRun history s)
    (hx : (catalog s).inode d = some x) (hdir : x.type = .directory) (hroot : d ≠ rootInodeID) :
    ∃ t, Yields (deleteDirectory { inodeID := d, recursive := true }) s () t ∧
      Removed (catalog s) (catalog t) (subtree (catalog s) d) :=
  deleteDirectory_removes (wellFormed_of_run hrun) hx hdir hroot

def filledDirectories : List Call :=
  [.createDirectory { inodeID := "i1", parentID := rootInodeID, name := "a" },
    .createDirectory { inodeID := "i2", parentID := "i1", name := "b" },
    .createFile { inodeID := "i3", fileID := "f", parentID := "i2", name := "c", size := 4 },
    rootFile "i4" "g" "d" 4,
    .startUpload { sessionID := "u", fileID := "f" },
    .startUpload { sessionID := "v", fileID := "g" },
    .commitChunk { sessionID := "u", chunkID := "k", size := 4 },
    .commitChunk { sessionID := "v", chunkID := "l", size := 4 }]

theorem deleteDirectory_filledDirectories :
    ∃ t, Yields (deleteDirectory { inodeID := "i1", recursive := true })
        (play 1 filledDirectories).2 () t ∧
      Removed (catalog (play 1 filledDirectories).2) (catalog t)
        (subtree (catalog (play 1 filledDirectories).2) "i1") := by
  have hstored : ∃ x, (catalog (play 1 filledDirectories).2).inode "i1" = some x ∧
      x.type = .directory := by
    have h : (((catalog (play 1 filledDirectories).2).inode "i1").map (·.type)) =
        some .directory := by decide +kernel
    exact Option.map_eq_some_iff.mp h
  obtain ⟨x, hx, hdir⟩ := hstored
  exact deleteDirectory_removes_subtree (serviceRun_play 1 filledDirectories) hx hdir (by decide)

end AstraStorage.Proofs
