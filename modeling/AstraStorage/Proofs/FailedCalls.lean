import AstraStorage.Proofs.BatchUpserts
import AstraStorage.Proofs.PlanWrites

/-!
# Calls that end with an error

A method of the repository checks its arguments before it writes, so a call that returns an error
has written nothing. `UpdateFile` is the exception.
-/

set_option mvcgen.warning false

namespace AstraStorage.Proofs
open Lib Store Function

variable {s : MemoryState} {patch : FilePatch} {file : FileMetadata}

def ErrsCleanly {α : Type} (x : StoreM α) : Prop := ∀ s e t, x s = .error (.error e) t → t = s

structure AlreadyPatched (patch : FilePatch) (file : FileMetadata) : Prop where
  size : patch.size.all (· = file.size)
  parentInodeID : patch.parentInodeID.all (· = file.parentInodeID)
  path : patch.path.all (· = file.path)
  name : patch.name.all (· = file.name)
  storedSize : patch.storedSize.all (· = file.storedSize)

lemma getD_eq_iff {α : Type} [DecidableEq α] {v : Option α} {a : α} :
    v.getD a = a ↔ v.all (· = a) = true := by
  cases v <;> simp

lemma partlyUpdated_eq_iff : partlyUpdated patch file = file ↔ AlreadyPatched patch file := by
  constructor
  · intro h
    exact ⟨getD_eq_iff.mp (congrArg FileMetadata.size h :),
      getD_eq_iff.mp (congrArg FileMetadata.parentInodeID h :),
      getD_eq_iff.mp (congrArg FileMetadata.path h :),
      getD_eq_iff.mp (congrArg FileMetadata.name h :),
      getD_eq_iff.mp (congrArg FileMetadata.storedSize h :)⟩
  · intro h
    simp only [partlyUpdated, getD_eq_iff.mpr h.size, getD_eq_iff.mpr h.parentInodeID,
      getD_eq_iff.mpr h.path, getD_eq_iff.mpr h.name, getD_eq_iff.mpr h.storedSize]

lemma findFile_stored (h : findFile s selector = some file) :
    (catalog s).file file.id = some file := by
  unfold findFile at h
  split at h
  · exact file_id h ▸ h
  · exact Records.mem_values.mp (List.mem_of_find?_eq_some h)

lemma catalog_partlyUpdated_eq_iff (hfind : findFile s patch.selector = some file) :
    catalog { s with files := s.files.put (partlyUpdated patch file) } = catalog s ↔
      partlyUpdated patch file = file := by
  have hfile := findFile_stored hfind
  rw [catalog_putFile]
  constructor
  · intro h
    have hat : update (catalog s).file file.id (some (partlyUpdated patch file)) file.id =
        some file := (congrFun (congrArg Catalog.file h :) file.id).trans hfile
    rw [update_self] at hat
    exact Option.some.inj hat
  · intro h
    rw [h, ← hfile, update_eq_self]

lemma updateFile_of_missing (h : findFile s patch.selector = none) :
    updateFile patch s = .error (.error ⟨.notFound, "file", []⟩) s := by
  change EStateM.bind (expect (findFile s patch.selector) .notFound "file") _ s = _
  rw [h]
  rfl

lemma updateFile_of_refused (h : findFile s patch.selector = some file)
    (hsize : patch.chunkSize.any (· ≠ fixedChunkSizeBytes) = true) :
    updateFile patch s =
      .error (.error ⟨.invalidArgument, "chunk size must be %d", [.number fixedChunkSizeBytes]⟩)
        { s with files := s.files.put (partlyUpdated patch file) } := by
  change EStateM.bind (expect (findFile s patch.selector) .notFound "file") _ s = _
  rw [h]
  simp only [EStateM.bind, reject, if_pos hsize]
  rfl

lemma returns_updateFile (h : findFile s patch.selector = some file)
    (hsize : patch.chunkSize.any (· ≠ fixedChunkSizeBytes) = false) :
    Returns (updateFile patch) s := by
  have hgo : ¬patch.chunkSize.any (· ≠ fixedChunkSizeBytes) = true := by
    rw [hsize]
    exact Bool.false_ne_true
  simp only [Returns, updateFile, yields_bind, yields_get, yields_expect, yields_putFile,
    yields_reject]
  exact ⟨(), _, s, s, ⟨rfl, rfl⟩, file, s, ⟨h, rfl⟩, (), _, rfl, (), _, ⟨hgo, rfl⟩, rfl⟩

lemma updateFile_errs_iff :
    (∀ e t, updateFile patch s = .error (.error e) t → catalog t = catalog s) ↔
      ∀ file, findFile s patch.selector = some file →
        patch.chunkSize.any (· ≠ fixedChunkSizeBytes) = true → AlreadyPatched patch file := by
  constructor
  · intro h file hfile hsize
    have hsame := h _ _ (updateFile_of_refused hfile hsize)
    exact partlyUpdated_eq_iff.mp ((catalog_partlyUpdated_eq_iff hfile).mp hsame)
  · intro h e t hrun
    cases hfile : findFile s patch.selector with
    | none =>
      rw [updateFile_of_missing hfile] at hrun
      cases hrun
      rfl
    | some file =>
      cases hsize : patch.chunkSize.any (· ≠ fixedChunkSizeBytes) with
      | true =>
        rw [updateFile_of_refused hfile hsize] at hrun
        cases hrun
        have hpatched := partlyUpdated_eq_iff.mpr (h file hfile hsize)
        exact (catalog_partlyUpdated_eq_iff hfile).mpr hpatched
      | false =>
        obtain ⟨u, t', hok⟩ := returns_updateFile hfile hsize
        cases hok.symm.trans hrun

open Std.Do in
lemma errsCleanly_run (m : Mutation) (hm : ∀ patch, m ≠ .updateFile patch) : ErrsCleanly m.run := by
  have hclean (s : MemoryState) : ⦃fun t => ⌜t = s⌝⦄ m.run
      ⦃post⟨fun _ _ => ⌜True⌝, fun e t => ⌜∀ e', e = .error e' → t = s⌝⟩⦄ := by
    have hloop {α : Type} {xs : List α} {f : α → StoreM PUnit} (hf : ∀ a, ⦃fun _ => ⌜True⌝⦄ f a
        ⦃post⟨fun _ _ => ⌜True⌝, fun e t => ⌜∀ e', e = .error e' → t = s⌝⟩⦄) :
        ⦃fun _ => ⌜True⌝⦄ xs.forM f
          ⦃post⟨fun _ _ => ⌜True⌝, fun e t => ⌜∀ e', e = .error e' → t = s⌝⟩⦄ := triple_forM hf
    cases m with
    | updateFile patch => exact (hm patch rfl).elim
    | updateSubtreePaths op =>
      mvcgen [Mutation.run, updateSubtreePaths, isDescendant, putInode, hloop] <;> grind
    | upsertChunks chunks =>
      mvcgen [Mutation.run, upsertChunks, triple_pendingChunks, putChunk, hloop] <;> grind
    | _ =>
      mvcgen [Mutation.run, createInode, putInode, updateInode, moveInode, isDescendant,
        renameInode, deleteInode, createFile, putFile, updateFilePlacements, deleteFile,
        updateChunkStatus, putChunk, updateChunkReplicas, removeChunkReplica, deleteChunk,
        createUploadSession, putUploadSession, updateUploadProgress, recordUploadFailure,
        completeUploadSession, deleteUploadSession, upsertNode, putNode, updateNodeHeartbeat,
        createReplicaPlan, putReplicaPlan, updateReplicaPlan, deleteReplicaPlan] <;> grind
  exact fun s e t hrun => (triple_iff.mp (hclean s) s rfl).2 _ t hrun e rfl

/-- A method leaves every record alone whenever it returns an error, just when it does not give
a stored file new values together with a chunk size that is refused. -/
theorem failed_mutation_iff (m : Mutation) (s : MemoryState) :
    (∀ e t, m.run s = .error (.error e) t → catalog t = catalog s) ↔
      ∀ patch file, m = .updateFile patch → findFile s patch.selector = some file →
        patch.chunkSize.any (· ≠ fixedChunkSizeBytes) = true → AlreadyPatched patch file := by
  by_cases hm : ∃ patch, m = .updateFile patch
  · obtain ⟨patch, rfl⟩ := hm
    refine updateFile_errs_iff.trans ⟨fun h other file heq => ?_, fun h file => h patch file rfl⟩
    cases heq
    exact h file
  · refine ⟨fun _ patch file heq => (hm ⟨patch, heq⟩).elim, fun _ e t hrun => ?_⟩
    rw [errsCleanly_run m (fun patch heq => hm ⟨patch, heq⟩) s e t hrun]

/-- A file of ten bytes is asked to have twenty, in chunks of one byte. -/
theorem failed_updateFile_resizes :
    let file : FileMetadata := { id := "f", inodeID := "i", size := 10 }
    let patch : FilePatch :=
      { selector := { id := "f" }, size := some 20, chunkSize := some 1, updatedAt := 0 }
    let s : MemoryState := { files := (∅ : Records FileMetadata.id).put file }
    ∃ e t, (Mutation.updateFile patch).run s = .error (.error e) t ∧
      ((catalog s).file "f").map (·.size) = some 10 ∧
      ((catalog t).file "f").map (·.size) = some 20 := by
  intro file patch s
  have hfile : findFile s patch.selector = some file := rfl
  refine ⟨_, _, updateFile_of_refused hfile (by decide +kernel), ?_⟩
  decide +kernel

end AstraStorage.Proofs
