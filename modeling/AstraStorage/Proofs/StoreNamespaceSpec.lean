import AstraStorage.Proofs.Links

/-!
# What the inode and file functions of the store do

One lemma for each function: what a successful call has checked, and the catalog it leaves.
-/

namespace AstraStorage.Proofs
open Lib Store Function Records

variable {name : String} {file : FileMetadata} {patch : FilePatch} {α : Type}

lemma catalog_putInode (x : InodeMetadata) :
    catalog { s with inodes := s.inodes.put x } =
      { catalog s with inode := update (catalog s).inode x.id (some x) } := by
  simp [catalog, lookup_put]

lemma catalog_eraseInode (i : InodeID) :
    catalog { s with inodes := s.inodes.erase i } =
      { catalog s with inode := update (catalog s).inode i none } := by
  simp [catalog, lookup_erase]

lemma catalog_putFile (x : FileMetadata) :
    catalog { s with files := s.files.put x } =
      { catalog s with file := update (catalog s).file x.id (some x) } := by
  simp [catalog, lookup_put]

lemma catalog_eraseFile (f : FileID) :
    catalog { s with files := s.files.erase f } =
      { catalog s with file := update (catalog s).file f none } := by
  simp [catalog, lookup_erase]

lemma nameFree_of_not_nameTaken (h : nameTaken s parentID name excludeID = false) :
    NameFree (catalog s) parentID name excludeID := by
  intro i x hx hp hn hi
  by_contra hd
  have htaken := nameTaken_iff.mpr ⟨i, x, hx, hp, hn, hi, hd⟩
  rw [h] at htaken
  cases htaken

lemma yields_getInode (hi : i ≠ "") :
    Yields (getInode { id := i }) s x t ↔ (catalog s).inode i = some x ∧ t = s := by
  simp only [getInode, yields_get_bind, yields_expect, findInode_id hi]

lemma yields_getInode_bind {f : InodeMetadata → StoreM α} {a : α} (hi : i ≠ "") :
    Yields (getInode { id := i } >>= f) s a t ↔
      ∃ x, (catalog s).inode i = some x ∧ Yields (f x) s a t :=
  yields_read_bind fun _ _ => yields_getInode hi

lemma createInode_spec (hroot : x.id ≠ rootInodeID) (h : Yields (createInode (some x)) s u t) :
    x.id ≠ "" ∧ x.name ≠ "" ∧ (catalog s).inode x.id = none ∧
      (∃ parent, (catalog s).inode x.parentID = some parent ∧ parent.type = .directory) ∧
      NameFree (catalog s) x.parentID x.name x.id ∧
      t = { s with
        inodes := s.inodes.put (if x.type = .directory then { x with fileID := "" } else x) } := by
  simp only [createInode, yields_expect_bind, yields_reject_bind, yields_get_bind, hroot,
    if_false, Option.some.injEq, exists_eq_left', yields_putInode] at h
  obtain ⟨hid, hname, _, hnew, parent, hparent, hdir, htaken, ht⟩ := h
  refine ⟨hid, fun he => hname ⟨he, hroot⟩, ?_, ⟨parent, hparent, ?_⟩, ?_, ht⟩
  · simpa [catalog] using hnew
  · simpa using hdir
  · exact nameFree_of_not_nameTaken (by simpa using htaken)

lemma renameInode_spec (hi : i ≠ "")
    (h : Yields (Store.renameInode { selector := { id := i }, newName := name, updatedAt := when })
      s u t) :
    ∃ x path, (catalog s).inode i = some x ∧ name ≠ "" ∧
      NameFree (catalog s) x.parentID name i ∧ replaceBaseName x.path name = some path ∧
      catalog t = { catalog s with
        inode := update (catalog s).inode i
          (some { x with name := name, path := path, updatedAt := when }) } := by
  simp only [Store.renameInode, yields_get_bind, yields_expect_bind, yields_reject_bind,
    findInode_id hi] at h
  obtain ⟨x, hx, _, _, hname, htaken, h⟩ := h
  obtain rfl := inode_id hx
  obtain ⟨_, r, hr, h⟩ := yields_bind.mp h
  rw [yields_putInode] at hr
  cases hp : replaceBaseName x.path name with
  | none => simp [hp] at h
  | some path =>
    simp only [hp, yields_putInode] at h
    refine ⟨x, path, hx, hname, nameFree_of_not_nameTaken (by simpa using htaken), hp, ?_⟩
    rw [h, hr, catalog_putInode, catalog_putInode]
    simp

lemma moveInode_spec (hi : i ≠ "") (h : Yields (Store.moveInode {
        selector := { id := i }
        targetParentID := q
        targetParentPath := parentPath
        newName := name
        updatedAt := when }) s u t) :
    ∃ x parent, (catalog s).inode i = some x ∧ (catalog s).inode q = some parent ∧
      parent.type = .directory ∧ i ≠ q ∧
      (x.type = .directory → ¬Below (parentOf (catalog s)) q i) ∧
      NameFree (catalog s) q (if name = "" then x.name else name) i ∧
      catalog t = { catalog s with
        inode := update (catalog s).inode i (some { x with
          parentID := q
          name := if name = "" then x.name else name
          path := joinPath parentPath (if name = "" then x.name else name)
          updatedAt := when }) } := by
  simp only [Store.moveInode, yields_get_bind, yields_expect_bind, yields_reject_bind,
    findInode_id hi] at h
  obtain ⟨x, hx, _, _, parent, hparent, hdir, hself, h⟩ := h
  obtain rfl := inode_id hx
  have key : (x.type = .directory → ¬Below (parentOf (catalog s)) q x.id) ∧
      nameTaken s q (if name = "" then x.name else name) x.id ≠ true ∧
      t = { s with inodes := s.inodes.put { x with
        parentID := q
        name := if name = "" then x.name else name
        path := joinPath parentPath (if name = "" then x.name else name)
        updatedAt := when } } := by
    by_cases hd : x.type = .directory
    · rw [if_pos hd] at h
      obtain ⟨b, r, hb, hput⟩ := yields_bind.mp h
      obtain ⟨hbelow, rfl⟩ := yields_isDescendant hb
      simp only [yields_reject_bind, yields_putInode] at hput
      exact ⟨fun _ hb => hput.1 (hbelow.mpr hb), hput.2⟩
    · rw [if_neg hd] at h
      simp only [yields_reject_bind, yields_putInode] at h
      exact ⟨fun hd' => absurd hd' hd, h⟩
  obtain ⟨hbelow, htaken, ht⟩ := key
  refine ⟨x, parent, hx, hparent, by simpa using hdir, hself, hbelow,
    nameFree_of_not_nameTaken (by simpa using htaken), ?_⟩
  rw [ht, catalog_putInode]

lemma yields_deleteInode (hi : i ≠ "") :
    Yields (deleteInode { id := i }) s u t ↔ (∃ x, (catalog s).inode i = some x) ∧
      Childless (catalog s) i ∧ t = { s with inodes := s.inodes.erase i } := by
  have hchild : (s.inodes.values.any fun child =>
      child.parentID = i && child.status ≠ .deleted) = true ↔ ¬Childless (catalog s) i := by
    simp only [List.any_eq_true, Bool.and_eq_true, decide_eq_true_eq, Childless, not_forall]
    constructor
    · rintro ⟨y, hy, hp, hd⟩
      exact ⟨y.id, y, mem_values.mp hy, hp, hd⟩
    · rintro ⟨j, y, hy, hp, hd⟩
      exact ⟨y, mem_values_iff_exists.mpr ⟨j, hy⟩, hp, hd⟩
  simp only [deleteInode, yields_get_bind, yields_expect_bind, yields_reject_bind,
    yields_modify, findInode_id hi]
  constructor
  · rintro ⟨x, hx, hleaf, ht⟩
    obtain rfl := inode_id hx
    exact ⟨⟨x, hx⟩, not_not.mp (fun h => hleaf (hchild.mpr h)), ht⟩
  · rintro ⟨⟨x, hx⟩, hleaf, ht⟩
    obtain rfl := inode_id hx
    exact ⟨x, hx, fun h => hchild.mp h hleaf, ht⟩

lemma deleteInode_spec (hi : i ≠ "") (h : Yields (deleteInode { id := i }) s u t) :
    ∃ x, (catalog s).inode i = some x ∧ Childless (catalog s) i ∧
      catalog t = { catalog s with inode := update (catalog s).inode i none } := by
  obtain ⟨⟨x, hx⟩, hleaf, rfl⟩ := (yields_deleteInode hi).mp h
  exact ⟨x, hx, hleaf, catalog_eraseInode i⟩

structure SameButInodes (c c' : Catalog) : Prop where
  file : c'.file = c.file
  chunk : c'.chunk = c.chunk
  session : c'.session = c.session
  node : c'.node = c.node
  plan : c'.plan = c.plan

lemma updateSubtreePaths_spec (h : Yields (updateSubtreePaths {
        rootID := n
        oldPrefix := x.path
        newPrefix := x'.path
        updatedAt := x'.updatedAt }) s u t) :
    SameButInodes (catalog s) (catalog t) ∧ (catalog t).inode n = (catalog s).inode n ∧
      ∀ i, i ≠ n → (catalog t).inode i =
        ((catalog s).inode i).map (repath (catalog s) n x x' i) := by
  simp only [updateSubtreePaths, yields_get_bind, yields_expect_bind, yields_reject_bind,
    List.forM_eq_forM] at h
  obtain ⟨_, root, hroot, h⟩ := h
  obtain rfl := key_of_lookup hroot
  -- the walk of `isDescendant` reads the current state, whose parent pointers never change
  have hloop := h.forM_visits (fun r => (catalog r).inode) InodeMetadata.id
    (fun y => some (if y.id = root.id then y else repath (catalog s) root.id x x' y.id y))
    (fun r => SameButInodes (catalog s) (catalog r) ∧ parentOf (catalog r) = parentOf (catalog s))
    s.inodes.nodup (fun y hy => mem_values.mp hy) ⟨⟨rfl, rfl, rfl, rfl, rfl⟩, rfl⟩ ?_
  · obtain ⟨⟨hframe, _⟩, hvisited, hkept⟩ := hloop
    have hall : ∀ i, (catalog t).inode i = ((catalog s).inode i).map fun y =>
        if i = root.id then y else repath (catalog s) root.id x x' i y := by
      intro i
      cases hi : (catalog s).inode i with
      | none =>
        have hne : ∀ y ∈ s.inodes.values, y.id ≠ i := by
          rintro y hy rfl
          have := mem_values.mp hy
          rw [show s.inodes.lookup y.id = none from hi] at this
          cases this
        rw [hkept i hne, hi, Option.map_none]
      | some y =>
        obtain rfl := inode_id hi
        rw [hvisited y (mem_values.mpr hi), Option.map_some]
    refine ⟨hframe, ?_, ?_⟩
    · rw [hall]
      simp
    · intro i hi
      rw [hall]
      simp [hi]
  · rintro y hy r ⟨⟩ r' ⟨hframe, hpar⟩ hview hround
    have hunchanged : update (catalog r).inode y.id (some y) = (catalog r).inode := by
      rw [← hview, update_eq_self]
    by_cases hskip : y.id = root.id ∨ hasPrefix y.path x.path = false
    · simp only [hskip, if_true, yields_pure, true_and] at hround
      subst hround
      refine ⟨⟨hframe, hpar⟩, ?_⟩
      have hg : (if y.id = root.id then y else repath (catalog s) root.id x x' y.id y) = y := by
        rcases hskip with hy | hp
        · simp [hy]
        · simp [repath, hp]
      rw [hg, hunchanged]
    · simp only [hskip, if_false] at hround
      rw [not_or] at hskip
      simp only [yields_get_bind] at hround
      obtain ⟨b, r1, hb, hput⟩ := yields_bind.mp hround
      obtain ⟨hbelow, rfl⟩ := yields_isDescendant hb
      rw [hpar] at hbelow
      have hg : (if y.id = root.id then y else repath (catalog s) root.id x x' y.id y) =
          repath (catalog s) root.id x x' y.id y := by
        simp [hskip.1]
      rw [hg]
      by_cases hbt : b = true
      · simp only [hbt, if_true, yields_putInode] at hput
        subst hput
        have hmoved : repath (catalog s) root.id x x' y.id y = { y with
            path := x'.path ++ trimPrefix y.path x.path, updatedAt := x'.updatedAt } := by
          simp [repath, hbelow.mp hbt, hskip.2]
        rw [catalog_putInode, hmoved]
        refine ⟨⟨⟨hframe.file, hframe.chunk, hframe.session, hframe.node, hframe.plan⟩, ?_⟩, rfl⟩
        rw [← hpar]
        funext i
        by_cases hi : i = y.id
        · subst hi
          simp [parentOf, hview]
        · simp [parentOf, update_of_ne hi]
      · rw [if_neg hbt, yields_pure] at hput
        obtain rfl := hput.2
        have hnot : ¬Below (parentOf (catalog s)) y.id root.id := fun hb' => hbt (hbelow.mpr hb')
        have hkeep : repath (catalog s) root.id x x' y.id y = y := by simp [repath, hnot]
        rw [hkeep, hunchanged]
        exact ⟨⟨hframe, hpar⟩, rfl⟩

lemma yields_listChildren :
    Yields (listChildren d opts) s entries t ↔ d ≠ "" ∧ ((catalog s).inode d).isSome ∧
      entries = applyListWindow (entriesOf s d) opts.limit opts.offset ∧ t = s := by
  simp only [listChildren, yields_reject_bind, yields_get_bind, yields_pure, Bool.not_eq_true,
    Option.isNone_eq_false_iff]
  rfl

lemma mem_entriesOf :
    e ∈ entriesOf s d ↔ ∃ x, (catalog s).inode x.id = some x ∧ x.parentID = d ∧
      x.status ≠ .deleted ∧ entryOf x = e := by
  simp only [entriesOf, List.mem_insertionSort, List.mem_map, List.mem_filter,
    Records.mem_values, Bool.and_eq_true, decide_eq_true_eq, and_assoc]
  rfl

lemma nodup_childIDs (d : InodeID) : ((entriesOf s d).map (·.childID)).Nodup := by
  refine ((List.perm_insertionSort _ _).map _).nodup_iff.mpr ?_
  rw [List.map_map]
  exact s.inodes.nodup.sublist (List.filter_sublist.map _)

lemma yields_getFile (hf : f ≠ "") :
    Yields (getFile { id := f }) s file t ↔ (catalog s).file f = some file ∧ t = s := by
  simp only [getFile, yields_get_bind, yields_expect, findFile_id hf]

lemma yields_getFile_bind (hf : f ≠ "") :
    Yields (getFile { id := f } >>= k) s a t ↔
      ∃ file, (catalog s).file f = some file ∧ Yields (k file) s a t :=
  yields_read_bind fun _ _ => yields_getFile hf

lemma getFile_inode_spec (hi : i ≠ "") (h : Yields (getFile { inodeID := i }) s file t) :
    (catalog s).file file.id = some file ∧ file.inodeID = i ∧ t = s := by
  simp only [getFile, yields_get_bind, yields_expect] at h
  obtain ⟨hfile, hinode⟩ := findFile_inodeID hi h.1
  exact ⟨hfile, hinode, h.2⟩

lemma createFile_spec (hsize : file.chunkSize = fixedChunkSizeBytes)
    (h : Yields (Store.createFile (some file)) s u t) :
    file.id ≠ "" ∧ (catalog s).file file.id = none ∧
      catalog t = { catalog s with
        file := update (catalog s).file file.id (some file) } := by
  have hne : fixedChunkSizeBytes ≠ 0 := by decide
  simp only [Store.createFile, yields_get_bind, yields_expect_bind, yields_reject_bind,
    yields_putFile, Option.some.injEq, exists_eq_left', hsize, hne, if_false] at h
  obtain ⟨hid, hnew, _, inode, _, _, _, rfl⟩ := h
  refine ⟨fun he => hid (Or.inl he), by simpa [catalog] using hnew, catalog_putFile file⟩

lemma yields_updateFile (hf : f ≠ "") (hsel : patch.selector = { id := f })
    (hsize : patch.chunkSize = none) :
    Yields (updateFile patch) s u t ↔ ∃ file, (catalog s).file f = some file ∧
      t = { s with
        files := (s.files.put (partlyUpdated patch file)).put (patchFile patch file) } := by
  simp [updateFile, hsel, findFile_id hf, hsize]

lemma catalog_patchFile (patch : FilePatch) (file1 : FileMetadata)
    (hfile : (catalog s).file f = some file) (hid : file1.id = file.id) :
    catalog { s with files := (s.files.put file1).put (patchFile patch file) } =
      { catalog s with
        file := update (catalog s).file f (some (patchFile patch file)) } := by
  obtain rfl := file_id hfile
  simp [catalog, lookup_put, patchFile, partlyUpdated, hid]

lemma updateFile_spec (hf : f ≠ "") (hsel : patch.selector = { id := f })
    (hsize : patch.chunkSize = none) (h : Yields (updateFile patch) s u t) :
    ∃ file, (catalog s).file f = some file ∧ t.chunks = s.chunks ∧ catalog t = { catalog s with
      file := update (catalog s).file f (some (patchFile patch file)) } := by
  obtain ⟨file, hfile, rfl⟩ := (yields_updateFile hf hsel hsize).mp h
  exact ⟨file, hfile, rfl, catalog_patchFile patch _ hfile rfl⟩

lemma updateFile_getFile_returns (hf : f ≠ "") (hsel : patch.selector = { id := f })
    (hsize : patch.chunkSize = none) (hfile : (catalog s).file f = some file) :
    Returns (do updateFile patch; getFile { id := f }) s := by
  refine Yields.unitThen ((yields_updateFile hf hsel hsize).mpr ⟨file, hfile, rfl⟩) ?_
  refine Yields.returns ((yields_getFile hf).mpr ⟨(?_ : _ = some (patchFile patch file)), rfl⟩)
  rw [catalog_patchFile patch _ hfile (by rfl)]
  exact update_self f _ _

lemma deleteFile_spec (hf : f ≠ "") (h : Yields (Store.deleteFile { id := f }) s u t) :
    (∃ file, (catalog s).file f = some file) ∧
      catalog t = { catalog s with file := update (catalog s).file f none } := by
  simp only [Store.deleteFile, yields_get_bind, yields_expect_bind, yields_modify,
    findFile_id hf] at h
  obtain ⟨file, hfile, rfl⟩ := h
  obtain rfl := file_id hfile
  exact ⟨⟨file, hfile⟩, catalog_eraseFile file.id⟩

lemma applyListWindow_all {T : Type} (items : List T) : applyListWindow items 0 0 = items := by
  cases items with
  | nil => rfl
  | cons a l => simp [applyListWindow]

lemma listFiles_prefix_spec (h : Yields (listFiles { pathPrefix := pre }) s files t) :
    t = s ∧ (files.map FileMetadata.id).Nodup ∧
      ∀ file, file ∈ files ↔
        (catalog s).file file.id = some file ∧ (pre = "" ∨ hasPrefix file.path pre = true) := by
  simp only [listFiles, yields_get_bind, yields_pure, applyListWindow_all] at h
  obtain ⟨rfl, rfl⟩ := h
  refine ⟨rfl, ?_, ?_⟩
  · refine ((List.perm_insertionSort _ _).map _).nodup_iff.mpr ?_
    exact t.files.nodup.sublist (List.filter_sublist.map _)
  · intro file
    simp [mem_values, catalog]

end AstraStorage.Proofs
