import AstraStorage.Proofs.StoreNamespaceSpec
import AstraStorage.Proofs.StoreUploadSpec

/-!
# The namespace calls perform the abstract changes

A successful call of the namespace part of the service, run on a well-formed catalog, is a
sequence of `NamespaceChange`s.
-/

namespace AstraStorage.Proofs
open Lib Store Service Function Relation

variable {i : InodeID} {c c' : Catalog}

lemma createInode_root_parent (hroot : x.id = rootInodeID)
    (h : Yields (createInode (some x)) s u t) : x.parentID = "" := by
  simp only [createInode, yields_expect_bind, yields_reject_bind, yields_get_bind, hroot,
    if_true, Option.some.injEq, exists_eq_left'] at h
  obtain ⟨_, _, _, _, hparent, _⟩ := h
  simpa using hparent

lemma createDirectory_adds (h : Yields (createDirectory now req) s a t) :
    ∃ parent, (req.inodeID ≠ "" ∧ req.inodeID ≠ rootInodeID ∧
        (catalog s).inode req.inodeID = none) ∧
      ((catalog s).inode req.parentID = some parent ∧ parent.type = .directory) ∧
      (NameFree (catalog s) req.parentID req.name req.inodeID ∧ req.name ≠ "") ∧
      (a.parentID = req.parentID ∧ a.name = req.name ∧ a.path = childPath parent.path req.name ∧
        a.type = .directory ∧ a.status = .active ∧ a.fileID = "") ∧
      catalog t = { catalog s with
        inode := update (catalog s).inode req.inodeID (some a) } := by
  simp only [createDirectory, validateCreateDirectoryRequest, bind_assoc, yields_reject_bind,
    yields_inTx, not_or] at h
  obtain ⟨hvalid, _, h⟩ := h
  simp only [yields_getInode_bind hvalid.2, yields_reject_bind] at h
  obtain ⟨parent, hparent, hdir, h⟩ := h
  obtain ⟨_, t', hcreate, hpure⟩ := yields_bind.mp h
  obtain ⟨rfl, rfl⟩ := yields_pure.mp hpure
  have hroot : req.inodeID ≠ rootInodeID := by
    intro hr
    exact hvalid.2 (createInode_root_parent hr hcreate)
  obtain ⟨hid, hne, hnew, _, hfree, rfl⟩ := createInode_spec hroot hcreate
  rw [catalog_putInode]
  exact ⟨parent, ⟨hid, hroot, hnew⟩, ⟨hparent, by simpa using hdir⟩, ⟨hfree, hne⟩,
    ⟨rfl, rfl, rfl, rfl, rfl, rfl⟩, rfl⟩

theorem createDirectory_refines (hok : ok req.name) (h : Yields (createDirectory now req) s a t) :
    NamespaceChange ok (catalog s) (catalog t) := by
  obtain ⟨parent, ⟨hid, hroot, hnew⟩, ⟨hparent, hdir⟩, ⟨hfree, hne⟩,
    ⟨hp, hn, hpath, htype, hstatus, hfile⟩, ht⟩ := createDirectory_adds h
  rw [← hp] at hparent
  rw [← hp, ← hn] at hfree
  rw [← hn] at hne hok hpath
  rw [ht]
  exact .addDirectory hid hroot hnew hparent hdir hfree hne hok hpath htype hstatus hfile

lemma createFile_adds {req : CreateFileRequest} {a : FileMetadata}
    (h : Yields (Service.createFile now req) s a t) :
    ∃ parent x, (req.inodeID ≠ "" ∧ req.inodeID ≠ rootInodeID ∧
        (catalog s).inode req.inodeID = none) ∧
      (req.fileID ≠ "" ∧ (catalog s).file req.fileID = none) ∧
      ((catalog s).inode req.parentID = some parent ∧ parent.type = .directory) ∧
      (NameFree (catalog s) req.parentID req.name req.inodeID ∧ req.name ≠ "") ∧
      (x.parentID = req.parentID ∧ x.name = req.name ∧ x.path = childPath parent.path req.name ∧
        x.type = .file ∧ x.status = .active ∧ x.fileID = req.fileID) ∧
      (a.id = req.fileID ∧ a.inodeID = req.inodeID ∧ a.parentInodeID = x.parentID ∧
        a.path = x.path ∧ a.name = x.name ∧ a.status = .pending ∧ a.latestUploadSessionID = "" ∧
        a.storedSize = 0) ∧
      catalog t = { catalog s with
        inode := update (catalog s).inode req.inodeID (some x)
        file := update (catalog s).file req.fileID (some a) } := by
  simp only [Service.createFile, validateCreateFileRequest, bind_assoc, yields_reject_bind,
    yields_inTx, not_or] at h
  obtain ⟨hvalid, _, _, h⟩ := h
  simp only [yields_getInode_bind hvalid.2.2, yields_reject_bind] at h
  obtain ⟨parent, hparent, hdir, h⟩ := h
  obtain ⟨_, r, hinode, h⟩ := yields_bind.mp h
  obtain ⟨_, t', hfile, hpure⟩ := yields_bind.mp h
  obtain ⟨rfl, rfl⟩ := yields_pure.mp hpure
  have hroot : req.inodeID ≠ rootInodeID := by
    intro hr
    exact hvalid.2.2 (createInode_root_parent hr hinode)
  obtain ⟨hid, hne, hnew, _, hfree, rfl⟩ := createInode_spec hroot hinode
  obtain ⟨hfid, hnewf, ht⟩ := createFile_spec rfl hfile
  rw [catalog_putInode] at hnewf ht
  exact ⟨parent, _, ⟨hid, hroot, hnew⟩, ⟨hfid, hnewf⟩, ⟨hparent, by simpa using hdir⟩,
    ⟨hfree, hne⟩, ⟨rfl, rfl, rfl, rfl, rfl, rfl⟩, ⟨rfl, rfl, rfl, rfl, rfl, rfl, rfl, rfl⟩, ht⟩

theorem createFile_refines {req : CreateFileRequest} {a : FileMetadata} (hok : ok req.name)
    (h : Yields (Service.createFile now req) s a t) :
    NamespaceChange ok (catalog s) (catalog t) := by
  obtain ⟨parent, x, ⟨hid, hroot, hnew⟩, ⟨hfid, hnewf⟩, ⟨hparent, hdir⟩, ⟨hfree, hne⟩,
    ⟨hp, hn, hpath, htype, hstatus, hxfile⟩,
    ⟨-, hinode, hparentID, hfpath, hname, hpending, hlatest, hstored⟩, ht⟩ := createFile_adds h
  rw [← hp] at hparent
  rw [← hp, ← hn] at hfree
  rw [← hn] at hne hok hpath
  rw [ht]
  exact .addFile hid hfid hroot hnew hnewf hparent hdir hfree hne hok hpath htype hstatus hxfile
    hinode ⟨hparentID, hfpath, hname⟩ hpending hlatest hstored

lemma syncFilesUnderDirectoryPath_spec (hfiles : (catalog s).file "" = none)
    (h : Yields (syncFilesUnderDirectoryPath old new when) s u t) :
    catalog t = { catalog s with
      file := fun f => ((catalog s).file f).map (refile old new when) } := by
  obtain ⟨files, r, hlist, hloop⟩ := yields_bind.mp h
  obtain ⟨rfl, hnodup, hmem⟩ := listFiles_prefix_spec hlist
  have hne : ∀ file ∈ files, file.id ≠ "" := by
    intro file hfile hid
    have := ((hmem file).mp hfile).1
    rw [hid, hfiles] at this
    cases this
  have hvisits := hloop.forM_visits (fun q => (catalog q).file) FileMetadata.id
    (fun file => some (refile old new when file))
    (fun q => ∃ g, catalog q = { catalog r with file := g }) hnodup
    (fun file hfile => ((hmem file).mp hfile).1) ⟨_, rfl⟩ ?_
  · obtain ⟨⟨g, hg⟩, hvisited, hkept⟩ := hvisits
    have hall : ∀ f, (catalog t).file f = ((catalog r).file f).map (refile old new when) := by
      intro f
      by_cases hf : ∃ file ∈ files, file.id = f
      · obtain ⟨file, hfile, rfl⟩ := hf
        rw [hvisited file hfile, ((hmem file).mp hfile).1, Option.map_some]
      · rw [hkept f (fun file hfile hid => hf ⟨file, hfile, hid⟩)]
        cases hr : (catalog r).file f with
        | none => rfl
        | some file =>
          obtain rfl := file_id hr
          have hpre : hasPrefix file.path old = false := by
            by_contra hp
            exact hf ⟨file, (hmem file).mpr ⟨hr, .inr (by simpa using hp)⟩, rfl⟩
          simp [refile, hpre]
    rw [hg] at hall ⊢
    simp only [Catalog.mk.injEq, true_and, and_true]
    exact funext hall
  · rintro file hfile q ⟨⟩ q' ⟨g, hg⟩ hview hround
    have hunchanged : update (catalog q).file file.id (some file) = (catalog q).file := by
      rw [← hview, update_eq_self]
    have hpre : hasPrefix file.path old = true := by
      rcases ((hmem file).mp hfile).2 with rfl | hp
      · simp [hasPrefix]
      · exact hp
    by_cases hskip : pathWithinPrefix file.path old = false ∨
        replacePathPrefix file.path old new = file.path
    · have hq : q' = q := by
        rcases hskip with hw | hsame
        · simpa [hw] using hround
        · by_cases hw : pathWithinPrefix file.path old = false
          · simpa [hw] using hround
          · simpa [hw, hsame] using hround
      have hkeep : refile old new when file = file := by
        rcases hskip with hw | hsame
        · simp [refile, hw]
        · simp [refile, hsame]
      rw [hq, hkeep, hunchanged]
      exact ⟨⟨g, hg⟩, rfl⟩
    · rw [not_or] at hskip
      simp only [hskip.1, hskip.2, Bool.true_eq_false, if_false] at hround
      obtain ⟨file', hfile', _, hq'⟩ := updateFile_spec (hne file hfile) rfl rfl hround
      obtain rfl : file = file' := Option.mem_unique hview hfile'
      have hmoved : refile old new when file =
          { file with path := replacePathPrefix file.path old new, updatedAt := when } := by
        simp [refile, hpre, hskip]
      rw [hq', hg]
      refine ⟨⟨_, rfl⟩, ?_⟩
      simp only [hmoved, patchFile, Option.getD_none, Option.getD_some]
      rfl

lemma repath_congr (h : Below (parentOf c) i n ↔ Below (parentOf c') i n) :
    repath c n x x' i y = repath c' n x x' i y := by
  by_cases hb : Below (parentOf c) i n
  · simp [repath, hb, h.mp hb]
  · have hb' : ¬Below (parentOf c') i n := fun hb' => hb (h.mpr hb')
    simp [repath, hb, hb']

section

variable (hw : WellFormed (catalog s))
include hw

lemma syncInodeMutation_spec (hx : (catalog s).inode n = some x) (hid : x'.id = n)
    (hr : catalog r = { catalog s with inode := update (catalog s).inode n (some x') })
    (h : Yields (syncInodeMutation x x' x.path x'.updatedAt) r u t) :
    Relabelled (catalog s) (catalog t) n x x' := by
  have hn : n ≠ "" := by
    rintro rfl
    rw [hw.tree.no_empty_id] at hx
    cases hx
  have hself : (catalog r).inode n = some x' := by simp [hr]
  have hother : ∀ i, i ≠ n → (catalog r).inode i = (catalog s).inode i := by
    intro i hi
    simp [hr, update_of_ne hi]
  by_cases hf : x.type = .file
  · -- nothing is below a file, so the inode table is already as it should be
    have hnone : ∀ i y, repath (catalog s) n x x' i y = y := by
      intro i y
      have hnot : ¬Below (parentOf (catalog s)) i n := by
        intro hb
        obtain ⟨j, _, hj⟩ := TransGen.tail'_iff.mp hb
        have := hw.tree.directory_of_child hx hj
        rw [hf] at this
        cases this
      simp [repath, hnot]
    simp only [syncInodeMutation, hf, if_true, syncFileForInode, hid] at h
    obtain ⟨file, r1, hget, hupd⟩ := yields_bind.mp h
    obtain ⟨hfile, hinode, rfl⟩ := getFile_inode_spec hn hget
    have hfile_ne : file.id ≠ "" := by
      intro he
      rw [he, hr] at hfile
      simp only [hw.links.no_empty_file] at hfile
      cases hfile
    obtain ⟨file', hfile', _, ht⟩ := updateFile_spec hfile_ne rfl rfl hupd
    obtain rfl : file = file' := Option.mem_unique hfile hfile'
    have hstored : (catalog s).file file.id = some file := by simpa [hr] using hfile
    rw [hr] at ht
    rw [ht]
    constructor
    · exact hx
    · simp
    · intro i hi
      simp only [update_of_ne hi]
      rw [show repath (catalog s) n x x' i = id from funext (hnone i), Option.map_id, id]
    · intro _ f
      by_cases hff : f = file.id
      · subst hff
        simp only [update_self, hstored, Option.map_some, hinode, if_true]
        rfl
      · simp only [update_of_ne hff]
        cases hg : (catalog s).file f with
        | none => rfl
        | some g =>
          have hgi : g.inodeID ≠ n := by
            intro hgi
            exact hff (hw.links.file_unique hg hstored (hgi.trans hinode.symm))
          simp [hgi]
    · exact fun hnf => absurd hf hnf
    · rfl
    · rfl
    · rfl
    · rfl
  · simp only [syncInodeMutation, hf, if_false, hid] at h
    obtain ⟨⟨⟩, r1, hsub, hsync⟩ := yields_bind.mp h
    obtain ⟨hframe, hkeep, hrest⟩ := updateSubtreePaths_spec hsub
    have hfiles : (catalog r1).file "" = none := by
      rw [hframe.file, hr]
      exact hw.links.no_empty_file
    rw [syncFilesUnderDirectoryPath_spec hfiles hsync]
    have hagree : ∀ j, j ≠ n → parentOf (catalog r) j = parentOf (catalog s) j := by
      intro j hj
      simp [parentOf, hother j hj]
    constructor
    · exact hx
    · exact hkeep.trans hself
    · intro i hi
      -- moving `n` does not change what is below it
      have hsame : repath (catalog r) n x x' i = repath (catalog s) n x x' i := by
        funext y
        exact repath_congr (below_iff_of_agree hagree hi)
      rw [← hsame, ← hother i hi]
      exact hrest i hi
    · exact fun hf' => absurd hf' hf
    · intro _ f
      simp [hframe.file, hr]
    · simp [hframe.chunk, hr]
    · simp [hframe.session, hr]
    · simp [hframe.node, hr]
    · simp [hframe.plan, hr]

lemma renameInode_relabels {req : RenameInodeRequest}
    (h : Yields (Service.renameInode now req) s a t) :
    ∃ x path, (req.newName ≠ "" ∧ NameFree (catalog s) x.parentID req.newName req.inodeID) ∧
      replaceBaseName x.path req.newName = some path ∧
      a = { x with
        name := req.newName, path := path, updatedAt := requestTime now req.updatedAt } ∧
      Relabelled (catalog s) (catalog t) req.inodeID x a := by
  simp only [Service.renameInode, validateRenameInodeRequest, bind_assoc, yields_reject_bind,
    yields_inTx] at h
  obtain ⟨hid, _, h⟩ := h
  rw [yields_getInode_bind hid] at h
  obtain ⟨x, hx, h⟩ := h
  obtain ⟨_, r, hrename, h⟩ := yields_bind.mp h
  obtain ⟨x1, path, hx1, hname, hfree, hpath, hr⟩ := renameInode_spec hid hrename
  obtain rfl : x = x1 := Option.mem_unique hx hx1
  rw [yields_getInode_bind hid] at h
  obtain ⟨x', hx', h⟩ := h
  rw [hr] at hx'
  simp only [update_self, Option.some.injEq] at hx'
  obtain ⟨_, t', hsync, hpure⟩ := yields_bind.mp h
  obtain ⟨rfl, rfl⟩ := yields_pure.mp hpure
  subst hx'
  have hxid : x.id = req.inodeID := inode_id hx
  exact ⟨x, path, ⟨hname, hfree⟩, hpath, rfl, syncInodeMutation_spec hw hx hxid hr hsync⟩

theorem renameInode_refines {req : RenameInodeRequest} (hok : ok req.newName)
    (h : Yields (Service.renameInode now req) s a t) :
    NamespaceChange ok (catalog s) (catalog t) := by
  obtain ⟨x, path, ⟨hname, hfree⟩, hpath, rfl, hrelabelled⟩ := renameInode_relabels hw h
  exact .rename hname hok hfree hpath hrelabelled

lemma moveInode_relabels {req : MoveInodeRequest} (h : Yields (Service.moveInode now req) s a t) :
    ∃ x parent name, name = (if req.newName = "" then x.name else req.newName) ∧
      ((catalog s).inode req.targetParentID = some parent ∧ parent.type = .directory) ∧
      (req.inodeID ≠ req.targetParentID ∧
        (x.type = .directory → ¬Below (parentOf (catalog s)) req.targetParentID req.inodeID)) ∧
      NameFree (catalog s) req.targetParentID name req.inodeID ∧
      a = { x with
        parentID := req.targetParentID, name := name, path := joinPath parent.path name
        updatedAt := requestTime now req.updatedAt } ∧
      Relabelled (catalog s) (catalog t) req.inodeID x a := by
  simp only [Service.moveInode, validateMoveInodeRequest, yields_reject_bind, yields_inTx,
    not_or] at h
  obtain ⟨⟨hid, hq⟩, h⟩ := h
  rw [yields_getInode_bind hid] at h
  obtain ⟨x, hx, h⟩ := h
  rw [yields_getInode_bind hq] at h
  obtain ⟨parent, hparent, h⟩ := h
  rw [yields_reject_bind] at h
  obtain ⟨_, h⟩ := h
  obtain ⟨_, r, hmove, h⟩ := yields_bind.mp h
  obtain ⟨x1, parent1, hx1, hparent1, hdir, hself, hbelow, hfree, hr⟩ := moveInode_spec hid hmove
  obtain rfl : x = x1 := Option.mem_unique hx hx1
  obtain rfl : parent = parent1 := Option.mem_unique hparent hparent1
  rw [yields_getInode_bind hid] at h
  obtain ⟨x', hx', h⟩ := h
  rw [hr] at hx'
  simp only [update_self, Option.some.injEq] at hx'
  obtain ⟨_, t', hsync, hpure⟩ := yields_bind.mp h
  obtain ⟨rfl, rfl⟩ := yields_pure.mp hpure
  subst hx'
  have hxid : x.id = req.inodeID := inode_id hx
  exact ⟨x, parent, _, rfl, ⟨hparent, hdir⟩, ⟨hself, hbelow⟩, hfree, rfl,
    syncInodeMutation_spec hw hx hxid hr hsync⟩

theorem moveInode_refines {req : MoveInodeRequest} (hok : ok req.newName)
    (h : Yields (Service.moveInode now req) s a t) :
    NamespaceChange ok (catalog s) (catalog t) := by
  obtain ⟨x, parent, name, hname, ⟨hparent, hdir⟩, ⟨hself, hbelow⟩, hfree, rfl, hrelabelled⟩ :=
    moveInode_relabels hw h
  refine .move ?_ hparent hdir hself hbelow hfree hrelabelled
  by_cases hn : req.newName = ""
  · rw [if_pos hn] at hname
    exact .inl hname
  · rw [if_neg hn] at hname
    exact .inr (hname ▸ ⟨hn, hok⟩)

end

lemma mapChunks_none (c : Catalog) (f : FileID) :
    (mapChunks c f fun _ => none).chunk = fun k => (c.chunk k).filter (·.fileID ≠ f) := by
  funext k
  cases hz : c.chunk k with
  | none => simp [mapChunks, hz]
  | some z =>
    by_cases hzf : z.fileID = f
    · simp [mapChunks, hz, hzf, Option.filter]
    · simp [mapChunks, hz, hzf, Option.filter]

lemma deleteFileCascade_before_inode (hw : WellFormed (catalog s))
    (hfile : (catalog s).file f = some file) :
    ∃ r, catalog r = { withoutFile (catalog s) f file.inodeID with inode := (catalog s).inode } ∧
      ∀ u t, Yields (deleteFileCascade f) s u t ↔
        Yields (deleteInode { id := file.inodeID }) r u t := by
  obtain rfl := file_id hfile
  have hf : file.id ≠ "" := by
    intro he
    rw [he, hw.links.no_empty_file] at hfile
    cases hfile
  obtain ⟨r1, hsessions, hr1⟩ := deleteSessionsLoop file.id
  have hempty : (catalog r1).chunk "" = none := by
    rw [hr1]
    exact hw.links.no_empty_chunk
  obtain ⟨r2, hchunks, hr2⟩ := deleteLoop hempty
  have hstored : (catalog r2).file file.id = some file := by
    rw [hr2, hr1]
    exact hfile
  obtain ⟨r3, hdelete⟩ : ∃ r3, Yields (Store.deleteFile { id := file.id }) r2 () r3 := by
    refine ⟨{ r2 with files := r2.files.erase file.id }, ?_⟩
    simp [Store.deleteFile, findFile_id hf, hstored]
  obtain ⟨_, hr3⟩ := deleteFile_spec hf hdelete
  refine ⟨r3, ?_, ?_⟩
  · rw [hr3, hr2, withoutFile, ← mapChunks_none, hr1]
    rfl
  · intro u t
    rw [deleteFileCascade, yields_getFile_bind hf]
    simp only [hfile, Option.some.injEq, exists_eq_left']
    rw [yields_read_bind (fun _ _ => yields_listUploadSessionsByFile)]
    simp only [exists_eq_left, List.forM_eq_forM]
    rw [hsessions.bind_iff, yields_read_bind (fun _ _ => yields_listChunksByFile)]
    simp only [exists_eq_left]
    rw [hchunks.bind_iff, hdelete.bind_iff]

lemma deleteFileCascade_spec (hw : WellFormed (catalog s)) (hf : f ≠ "")
    (h : Yields (deleteFileCascade f) s u t) :
    ∃ file, (catalog s).file f = some file ∧ Childless (catalog s) file.inodeID ∧
      catalog t = withoutFile (catalog s) f file.inodeID := by
  have hget := h
  rw [deleteFileCascade, yields_getFile_bind hf] at hget
  obtain ⟨file, hfile, _⟩ := hget
  obtain ⟨x, hx, _, _⟩ := hw.links.file_inode _ file hfile
  have hinode : file.inodeID ≠ "" := by
    intro he
    rw [he, hw.tree.no_empty_id] at hx
    cases hx
  obtain ⟨r, hr, hcascade⟩ := deleteFileCascade_before_inode hw hfile
  obtain ⟨_, _, hleaf, ht⟩ := deleteInode_spec hinode ((hcascade u t).mp h)
  rw [hr] at hleaf ht
  exact ⟨file, hfile, hleaf, ht⟩

theorem deleteFile_refines {req : DeleteFileRequest} (hw : WellFormed (catalog s))
    (h : Yields (Service.deleteFile req) s u t) : NamespaceChange ok (catalog s) (catalog t) := by
  rw [Service.deleteFile, yields_reject_bind, yields_inTx] at h
  obtain ⟨hf, h⟩ := h
  rw [yields_getFile_bind hf] at h
  obtain ⟨_, _, h⟩ := h
  obtain ⟨file, hfile, hleaf, ht⟩ := deleteFileCascade_spec hw hf h
  rw [ht]
  exact .dropFile hfile hleaf

lemma listChildren_spec (h : Yields (listChildren p {}) s entries t) :
    t = s ∧ (∃ x, (catalog s).inode p = some x) ∧
      ∀ e ∈ entries, ∃ y, (catalog s).inode e.childID = some y ∧ y.parentID = p ∧
        e.type = y.type := by
  obtain ⟨-, hp, rfl, rfl⟩ := yields_listChildren.mp h
  refine ⟨rfl, Option.isSome_iff_exists.mp hp, ?_⟩
  intro e he
  rw [applyListWindow_all] at he
  obtain ⟨y, hy, hyp, -, rfl⟩ := mem_entriesOf.mp he
  exact ⟨y, hy, hyp, rfl⟩

def Shrinks (c c' : Catalog) : Prop := ∀ i y, c'.inode i = some y → c.inode i = some y

lemma shrinks_remove (h : c'.inode = update c.inode i none) : Shrinks c c' := by
  intro j y hy
  rw [h] at hy
  by_cases hj : j = i
  · rw [hj, update_self] at hy
    cases hy
  · rwa [update_of_ne hj] at hy

lemma deleteDirectoryRecursive_refines (hw : WellFormed (catalog s)) (hroot : i ≠ rootInodeID)
    (hdir : ∀ x, (catalog s).inode i = some x → x.type = .directory)
    (h : Yields (deleteDirectoryRecursive depth i) s u t) :
    ReflTransGen (NamespaceChange ok) (catalog s) (catalog t) ∧
      Shrinks (catalog s) (catalog t) := by
  induction depth generalizing s t u i with
  | zero => simp [deleteDirectoryRecursive] at h
  | succ depth ih =>
    obtain ⟨entries, r, hlist, hrest⟩ := yields_bind.mp h
    obtain ⟨rfl, ⟨x, hx⟩, hentries⟩ := listChildren_spec hlist
    obtain ⟨⟨⟩, r1, hloop, hdrop⟩ := yields_bind.mp hrest
    have hi : i ≠ "" := by
      rintro rfl
      rw [hw.tree.no_empty_id] at hx
      cases hx
    -- each round deletes one child of the listing from the state that the rounds before left
    have hinv := hloop.forM_preserves (I := fun q =>
      ReflTransGen (NamespaceChange ok) (catalog r) (catalog q) ∧
        Shrinks (catalog r) (catalog q)) (by
      rintro e he q ⟨⟩ q' ⟨hreach, hshrink⟩ hround
      obtain ⟨y, hy, hyp, het⟩ := hentries e he
      have hwq : WellFormed (catalog q) := hw.namespaceChanges hreach
      by_cases hed : e.type = .directory
      · simp only [hed, if_true] at hround
        have hne : e.childID ≠ rootInodeID := by
          intro hr
          obtain ⟨root, hroot', hempty, _⟩ := hw.tree.root
          rw [hr, hroot'] at hy
          cases hy
          exact hi (hyp.symm.trans hempty)
        have hchild : ∀ z, (catalog q).inode e.childID = some z → z.type = .directory := by
          intro z hz
          obtain rfl : y = z := Option.some.inj (hy.symm.trans (hshrink _ z hz))
          exact het.symm.trans hed
        obtain ⟨hreach', hshrink'⟩ := ih hwq hne hchild hround
        exact ⟨hreach.trans hreach', fun j z hz => hshrink j z (hshrink' j z hz)⟩
      · simp only [hed, if_false] at hround
        have hne : e.childID ≠ "" := by
          intro he'
          rw [he', hw.tree.no_empty_id] at hy
          cases hy
        obtain ⟨file, q1, hget, hcascade⟩ := yields_bind.mp hround
        obtain ⟨hfile, _, rfl⟩ := getFile_inode_spec hne hget
        have hfne : file.id ≠ "" := by
          intro he'
          rw [he', hwq.links.no_empty_file] at hfile
          cases hfile
        obtain ⟨file', hfile', hleaf, ht⟩ := deleteFileCascade_spec hwq hfne hcascade
        rw [ht]
        refine ⟨hreach.tail (.dropFile hfile' hleaf), fun j z hz => hshrink j z ?_⟩
        exact shrinks_remove rfl j z hz) ⟨ReflTransGen.refl, fun _ _ h => h⟩
    obtain ⟨hreach, hshrink⟩ := hinv
    obtain ⟨x', hx', hleaf, ht⟩ := deleteInode_spec hi hdrop
    rw [ht]
    refine ⟨hreach.tail (.dropDirectory hx' (hdir x' (hshrink i x' hx')) hroot hleaf), ?_⟩
    exact fun j z hz => hshrink j z (shrinks_remove rfl j z hz)

lemma yields_deleteDirectory {req : DeleteDirectoryRequest}
    (h : Yields (deleteDirectory req) s u t) :
    ∃ x, (catalog s).inode req.inodeID = some x ∧ x.type = .directory ∧
      (req.inodeID ≠ "" ∧ req.inodeID ≠ rootInodeID) ∧
      (req.recursive = false ∧ Yields (deleteInode { id := req.inodeID }) s u t ∨
        req.recursive = true ∧
          Yields (deleteDirectoryRecursive (s.inodes.size + 1) req.inodeID) s u t) := by
  rw [deleteDirectory, yields_reject_bind, yields_inTx] at h
  obtain ⟨hi, h⟩ := h
  rw [yields_getInode_bind hi] at h
  obtain ⟨x, hx, h⟩ := h
  simp only [yields_reject_bind, inode_id hx, ne_eq, not_not] at h
  obtain ⟨hdir, hroot, h⟩ := h
  refine ⟨x, hx, hdir, ⟨hi, hroot⟩, ?_⟩
  cases hrec : req.recursive with
  | false =>
    rw [if_pos hrec] at h
    exact .inl ⟨rfl, h⟩
  | true =>
    rw [hrec, if_neg (by decide)] at h
    exact .inr ⟨rfl, h⟩

theorem deleteDirectory_refines {req : DeleteDirectoryRequest} (hw : WellFormed (catalog s))
    (h : Yields (deleteDirectory req) s u t) :
    ReflTransGen (NamespaceChange ok) (catalog s) (catalog t) := by
  obtain ⟨x, hx, hdir, ⟨hi, hroot⟩, ⟨-, hdelete⟩ | ⟨-, hdelete⟩⟩ := yields_deleteDirectory h
  · obtain ⟨x', hx', hleaf, ht⟩ := deleteInode_spec hi hdelete
    obtain rfl : x = x' := Option.mem_unique hx hx'
    rw [ht]
    exact ReflTransGen.single (.dropDirectory hx hdir hroot hleaf)
  · refine (deleteDirectoryRecursive_refines hw hroot ?_ hdelete).1
    intro x' hx'
    obtain rfl : x = x' := Option.mem_unique hx hx'
    exact hdir

end AstraStorage.Proofs
