import AstraStorage.Model.ReadCache
import AstraStorage.Proofs.Chunks
import AstraStorage.Proofs.Deletion
import AstraStorage.Proofs.PlanWrites

/-!
# What calls change without invalidating it

A call changes file records, chunks of files and listings of directories. Some of them it
invalidates in the read cache. The others are found here, from the request and the state before
the call.
-/

namespace AstraStorage.Proofs
open Lib Store Service Coordinator ReadCache Function List Option

variable {files : Set FileID} {x : InodeMetadata} {i : InodeID} {k : UploadSessionID} {call : Call}
  {c c' : Catalog}

def filesWithin (c : Catalog) (n : InodeID) : Set FileID :=
  {f | ∃ x file, c.inode n = some x ∧ x.type ≠ .file ∧ c.file f = some file ∧
    hasPrefix file.path x.path = true ∧ pathWithinPrefix file.path x.path = true}

def directoriesWithin (c : Catalog) (n : InodeID) : Set InodeID :=
  {d | ∃ x, c.inode n = some x ∧ x.type ≠ .file ∧ d ∈ subtree c n}

def silentFiles (s : MemoryState) : Call → Set FileID
  | .renameInode req => filesWithin (catalog s) req.inodeID
  | .moveInode req => filesWithin (catalog s) req.inodeID
  | .deleteDirectory req =>
    {f | ∃ file, (catalog s).file f = some file ∧ file.inodeID ∈ subtree (catalog s) req.inodeID}
  | _ => ∅

def silentPlans (s : MemoryState) : Call → Set FileID
  | .commitChunk req =>
    {f | ∃ z y, (catalog s).chunk req.chunkID = some z ∧ (catalog s).session req.sessionID = some y ∧
      z.fileID ≠ y.fileID ∧ f = z.fileID}
  | call => silentFiles s call

def silentListings (s : MemoryState) : Call → Set InodeID
  | .renameInode req => directoriesWithin (catalog s) req.inodeID
  | .moveInode req => directoriesWithin (catalog s) req.inodeID
  | .deleteFile req => {d | ∃ file, (catalog s).file req.fileID = some file ∧ d = file.inodeID}
  | .deleteDirectory req => subtree (catalog s) req.inodeID
  | _ => ∅

variable {s t : MemoryState} {now : Time} {f : FileID} {d : InodeID}

lemma onSuccess_of_yields {α : Type} {x : StoreM α} {a : α} (h : Yields x s a t)
    (g : α → List Invalidation) : onSuccess x s g = g a := by
  rw [onSuccess, h]

def SameChunks (c c' : Catalog) (f : FileID) : Prop :=
  ∀ k z, z.fileID = f → (c'.chunk k = some z ↔ c.chunk k = some z)

structure SameListing (c c' : Catalog) (d : InodeID) : Prop where
  stored : (c.inode d).isSome → (c'.inode d).isSome
  children : (c.inode d).isSome → ∀ i x, x.parentID = d → (c'.inode i = some x ↔ c.inode i = some x)

section Frames

lemma SameChunks.of_eq (h : c'.chunk = c.chunk) : SameChunks c c' f := by
  intro k z _
  rw [h]

lemma SameListing.of_eq (h : c'.inode = c.inode) : SameListing c c' d :=
  ⟨fun hd => h ▸ hd, fun _ i x _ => by rw [h]⟩

lemma sameListing_insert (hnew : c.inode i = none) (hd : x.parentID ≠ d)
    (h : c'.inode = update c.inode i (some x)) : SameListing c c' d := by
  constructor
  · intro hstored
    have hne : d ≠ i := by
      rintro rfl
      rw [hnew] at hstored
      cases hstored
    rwa [h, update_of_ne hne]
  · intro _ j y hy
    rw [h, update_some_eq_some]
    constructor
    · rintro (⟨-, rfl⟩ | ⟨-, hj⟩)
      · exact absurd hy hd
      · exact hj
    · intro hj
      refine .inr ⟨?_, hj⟩
      rintro rfl
      rw [hnew] at hj
      cases hj

variable {g : FileID}

lemma sameChunks_withUpload (hφ : ∀ z z', φ z = some z' → z'.fileID = z.fileID) (hne : f ≠ g) :
    SameChunks c (withUpload c k g y' file' φ) f := by
  intro j z hz
  rw [chunk_withUpload]
  constructor
  · rintro ⟨z0, hz0, hkept⟩
    by_cases hg : z0.fileID = g
    · rw [if_pos hg] at hkept
      exact absurd (hz.symm.trans ((hφ z0 z hkept).trans hg)) hne
    · rw [if_neg hg] at hkept
      cases hkept
      exact hz0
  · intro hj
    exact ⟨z, hj, if_neg fun hg => hne (hz.symm.trans hg)⟩

end Frames

section Namespace

variable {n : InodeID}

lemma Relabelled.sameFile (h : Relabelled c c' n x x') (hl : Links c) :
    c'.file f = c.file f ∨ x.type = .file ∧ f = x.fileID ∧ f ≠ "" ∨ f ∈ filesWithin c n := by
  cases hf : c.file f with
  | none =>
    left
    by_cases htype : x.type = .file
    · rw [h.file_of_file htype, hf]
      rfl
    · rw [h.file_of_directory htype, hf]
      rfl
  | some file =>
    by_cases htype : x.type = .file
    · rw [h.file_of_file htype, hf, map_some]
      by_cases hn : file.inodeID = n
      · refine .inr (.inl ⟨htype, ?_, ?_⟩)
        · obtain ⟨y, hy, -, hyf⟩ := hl.file_inode f file hf
          obtain rfl := some.inj (h.stored.symm.trans (hn ▸ hy))
          exact hyf.symm
        · rintro rfl
          rw [hl.no_empty_file] at hf
          cases hf
      · rw [if_neg hn]
        exact .inl rfl
    · rw [h.file_of_directory htype, hf, map_some]
      by_cases hwithin : hasPrefix file.path x.path = true ∧ pathWithinPrefix file.path x.path = true
      · exact .inr (.inr ⟨x, file, h.stored, htype, hf, hwithin.1, hwithin.2⟩)
      · left
        unfold refile
        rw [if_neg fun hguard => hwithin ⟨hguard.1, hguard.2.1⟩]

lemma Relabelled.sameListing (h : Relabelled c c' n x x') (ht : Tree c) (hold : d ≠ x.parentID)
    (hnew : d ≠ x'.parentID) (hout : d ∉ directoriesWithin c n) : SameListing c c' d := by
  constructor
  · intro hd
    by_cases hdn : d = n
    · rw [hdn, h.self]
      rfl
    · rw [h.inode d hdn, isSome_map]
      exact hd
  · intro _ i y hy
    by_cases hin : i = n
    · subst hin
      constructor
      · intro hi
        obtain rfl := mem_unique h.self hi
        exact absurd hy.symm hnew
      · intro hi
        obtain rfl := mem_unique h.stored hi
        exact absurd hy.symm hold
    · -- A child whose record changes lies below `n`, and then so does the directory.
      have hsame {z : InodeMetadata} (hz : c.inode i = some z) (hzd : z.parentID = d) :
          repath c n x x' i z = z := by
        rw [repath, if_neg]
        rintro ⟨hbelow, -⟩
        have hup : parentOf c i = some d := parentOf_eq_some.mpr ⟨z, hz, hzd⟩
        have hclimbs : Climbs (parentOf c) d n := by
          rcases (below_iff_of_some hup).mp hbelow with rfl | hd
          · exact Relation.ReflTransGen.refl
          · exact hd.to_reflTransGen
        refine hout ⟨x, h.stored, ?_, hclimbs⟩
        intro hfile
        have hsub : i ∈ subtree c n := mem_subtree.mpr hbelow.to_reflTransGen
        rw [ht.subtree_file h.stored hfile] at hsub
        exact hin hsub
      rw [h.inode i hin, map_eq_some_iff]
      constructor
      · rintro ⟨z, hz, rfl⟩
        rw [repath_parentID] at hy
        rw [hsame hz hy]
        exact hz
      · intro hi
        exact ⟨y, hi, hsame hi hy⟩

lemma Removed.sameFile (h : Removed c c' gone) :
    c'.file f = c.file f ∨ ∃ file, c.file f = some file ∧ file.inodeID ∈ gone := by
  cases hf : c.file f with
  | none =>
    left
    cases hf' : c'.file f with
    | none => rfl
    | some file =>
      rw [((h.file f file).mp hf').1] at hf
      cases hf
  | some file =>
    by_cases hgone : file.inodeID ∈ gone
    · exact .inr ⟨file, rfl, hgone⟩
    · exact .inl ((h.file f file).mpr ⟨hf, hgone⟩)

lemma Removed.sameChunks (h : Removed c c' gone) :
    SameChunks c c' f ∨ ∃ file, c.file f = some file ∧ file.inodeID ∈ gone := by
  by_cases hgone : ∃ file, c.file f = some file ∧ file.inodeID ∈ gone
  · exact .inr hgone
  · left
    intro k z hz
    rw [h.chunk k z]
    refine ⟨And.left, fun hk => ⟨hk, fun file hfile hmem => ?_⟩⟩
    exact hgone ⟨file, hz ▸ hfile, hmem⟩

lemma Removed.sameListing (h : Removed c c' gone) (hkept : d ∉ gone)
    (hchild : ∀ i x, i ∈ gone → c.inode i = some x → x.parentID ≠ d) : SameListing c c' d := by
  constructor
  · intro hd
    obtain ⟨x, hx⟩ := isSome_iff_exists.mp hd
    exact isSome_iff_exists.mpr ⟨x, (h.inode d x).mpr ⟨hx, hkept⟩⟩
  · intro _ i x hx
    rw [h.inode i x]
    refine ⟨And.left, fun hi => ⟨hi, fun hmem => ?_⟩⟩
    exact hchild i x hmem hi hx

end Namespace

lemma deleteFile_removed (hw : WellFormed (catalog s))
    (h : Yields (Service.deleteFile req) s () t) :
    ∃ file, (catalog s).file req.fileID = some file ∧ req.fileID ≠ "" ∧
      Removed (catalog s) (catalog t) {file.inodeID} := by
  rw [Service.deleteFile, yields_reject_bind, yields_inTx] at h
  obtain ⟨hf, h⟩ := h
  rw [yields_getFile_bind hf] at h
  obtain ⟨_, _, h⟩ := h
  obtain ⟨file, hfile, -, ht⟩ := deleteFileCascade_spec hw hf h
  exact ⟨file, hfile, hf, ht ▸ removed_file hw hfile⟩

lemma subtree_of_childless (ht : Tree c) (hleaf : Childless c i) : subtree c i = {i} := by
  ext j
  rw [mem_subtree, climbs_iff_eq_or_child]
  constructor
  · rintro (rfl | ⟨b, hb, -⟩)
    · rfl
    · exact absurd hb (ht.no_child hleaf b)
  · exact .inl

lemma deleteDirectory_removed (hw : WellFormed (catalog s))
    (h : Yields (deleteDirectory req) s () t) :
    ∃ x, ((catalog s).inode req.inodeID = some x ∧ x.type = .directory) ∧
      (req.inodeID ≠ "" ∧ req.inodeID ≠ rootInodeID) ∧
      (req.recursive = false → subtree (catalog s) req.inodeID = {req.inodeID}) ∧
      Removed (catalog s) (catalog t) (subtree (catalog s) req.inodeID) := by
  obtain ⟨x, hx, hdir, hids, hdelete⟩ := yields_deleteDirectory h
  refine ⟨x, ⟨hx, hdir⟩, hids, ?_⟩
  rcases hdelete with ⟨-, hdelete⟩ | ⟨hrec, -⟩
  · obtain ⟨x', hx', hleaf, ht⟩ := deleteInode_spec hids.1 hdelete
    rw [ht, subtree_of_childless hw.tree hleaf]
    exact ⟨fun _ => rfl, removed_directory hw hx hdir⟩
  · obtain ⟨t', ht', hremoved⟩ := deleteDirectory_removes hw hx hdir hids.2
    have hreq : req = { inodeID := req.inodeID, recursive := true } := by rw [← hrec]
    rw [← hreq] at ht'
    obtain ⟨-, rfl⟩ := h.unique ht'
    exact ⟨fun hnot => absurd (hrec.symm.trans hnot) (by decide), hremoved⟩

structure WritesFile (now : Time) (s t : MemoryState) (call : Call) (g : FileID) : Prop where
  invalidated : .file g ∈ invalidations now s call
  file : ∀ f, f ≠ g → (catalog t).file f = (catalog s).file f
  chunks : ∀ f, f ≠ g → SameChunks (catalog s) (catalog t) f ∨ f ∈ silentPlans s call
  inode : (catalog t).inode = (catalog s).inode

lemma writesFile_of_withUpload (ht : catalog t = withUpload (catalog s) k g y' file' φ)
    (hφ : ∀ z z', φ z = some z' → z'.fileID = z.fileID) (hg : .file g ∈ invalidations now s call) :
    WritesFile now s t call g  where
  invalidated := hg
  file f hf := by
    rw [ht]
    exact update_of_ne hf _ _
  chunks f hf := by
    rw [ht]
    exact .inl (sameChunks_withUpload hφ hf)
  inode := by
    rw [ht]
    rfl

lemma mem_invalidated (h : (catalog t).file f = some file) :
    Invalidation.file f ∈ [Invalidation.file file.id] := by
  rw [file_id h]
  exact mem_singleton_self _

lemma upload_writesFile (hw : WellFormed (catalog s)) (hk : sessionNamed call = some k)
    (h : Yields (call.run now) s () t) : ∃ g, WritesFile now s t call g := by
  cases call with
  | startUpload req =>
    obtain ⟨a, h, -⟩ := yields_map.mp h
    obtain ⟨file, -, ht, ha⟩ := startUpload_spec h
    refine ⟨_, writesFile_of_withUpload ht (fun z z' hz => by cases hz; rfl) ?_⟩
    rw [invalidations, onSuccess_of_yields h, ha]
    exact mem_singleton_self _
  | commitChunk req =>
    obtain ⟨a, h, -⟩ := yields_map.mp h
    obtain ⟨y, file, replicas, hacc, ht, -, ha⟩ := commitChunk_spec hw h
    have hchunk : (catalog t).chunk = update (catalog s).chunk req.chunkID
        (some (committedChunk (requestTime now req.committedAt) req y file replicas)) := by
      rw [ht]
    have hfile : a.fileID = y.fileID := by
      rw [hchunk, update_self] at ha
      rw [← some.inj ha]
      rfl
    refine ⟨y.fileID, ?_, fun f hf => ?_, fun f hf => ?_, by rw [ht]; rfl⟩
    · rw [invalidations, onSuccess_of_yields h, hfile]
      exact mem_singleton_self _
    · rw [ht]
      exact update_of_ne hf _ _
    · by_cases htaken : f ∈ silentPlans s (.commitChunk req)
      · exact .inr htaken
      · left
        intro j z hz
        rw [hchunk, update_some_eq_some]
        constructor
        · rintro (⟨-, rfl⟩ | ⟨-, hj⟩)
          · exact absurd hz.symm hf
          · exact hj
        · intro hj
          refine .inr ⟨?_, hj⟩
          rintro rfl
          exact htaken ⟨z, y, hj, hacc.uploads.session, hz.trans_ne hf, hz.symm⟩
  | completeUpload req =>
    obtain ⟨a, h, -⟩ := yields_map.mp h
    obtain ⟨y, file, -, ht, ha⟩ := completeUpload_spec hw h
    refine ⟨_, writesFile_of_withUpload ht (fun _ _ => stampChunk_fileID) ?_⟩
    rw [invalidations, onSuccess_of_yields h]
    exact mem_invalidated ha
  | verifyUpload req =>
    obtain ⟨a, h, -⟩ := yields_map.mp h
    obtain ⟨y, file, checksum, -, ht, ha⟩ := verifyUpload_spec hw h
    refine ⟨_, writesFile_of_withUpload ht (fun _ _ => stampChunk_fileID) ?_⟩
    rw [invalidations, onSuccess_of_yields h]
    exact mem_invalidated ha
  | failUploadVerification req =>
    obtain ⟨a, h, -⟩ := yields_map.mp h
    obtain ⟨y, file, -, ht, ha⟩ := failUploadVerification_spec hw h
    refine ⟨_, writesFile_of_withUpload ht (fun z z' hz => by cases hz; rfl) ?_⟩
    rw [invalidations, onSuccess_of_yields h]
    exact mem_invalidated ha
  | retryUpload req =>
    obtain ⟨a, h, -⟩ := yields_map.mp h
    obtain ⟨y, file, -, ht, ha⟩ := retryUpload_spec hw h
    refine ⟨_, writesFile_of_withUpload ht (fun _ _ => reopenedChunk_fileID) ?_⟩
    rw [invalidations, onSuccess_of_yields h]
    exact mem_invalidated ha
  | _ => cases hk

lemma stored_of_silentFiles (h : f ∈ silentFiles s call) :
    ∃ file, (catalog s).file f = some file := by
  cases call with
  | renameInode _ | moveInode _ =>
    obtain ⟨x, file, -, -, hfile, -⟩ := h
    exact ⟨file, hfile⟩
  | deleteDirectory req =>
    obtain ⟨file, hfile, -⟩ := h
    exact ⟨file, hfile⟩
  | _ => cases h

lemma silentFiles_subset_silentPlans : silentFiles s call ⊆ silentPlans s call := by
  intro f hf
  cases call with
  | commitChunk req => cases hf
  | _ => exact hf

def ParentsAgree (c : Catalog) : Prop :=
  ∀ f file x, c.file f = some file → c.inode file.inodeID = some x → file.parentInodeID = x.parentID

namespace ParentsAgree

variable {c c' : Catalog}

lemma congr (h : ParentsAgree c) (hinode : c'.inode = c.inode) (hfile : c'.file = c.file) :
    ParentsAgree c' := by
  intro f file x hf hx
  rw [hfile] at hf
  rw [hinode] at hx
  exact h f file x hf hx

lemma relabel (h : ParentsAgree c) (hl : Links c) (hr : Relabelled c c' n x x') :
    ParentsAgree c' := by
  have hkept {f : FileID} {file : FileMetadata} {y : InodeMetadata} (hf : c.file f = some file)
      (hn : file.inodeID ≠ n) (hy : c'.inode file.inodeID = some y) :
      file.parentInodeID = y.parentID := by
    obtain ⟨y0, hy0, hparent, -⟩ := hr.of_new hn hy
    rw [hparent]
    exact h f file y0 hf hy0
  intro f file' y hf hy
  by_cases htype : x.type = .file
  · rw [hr.file_of_file htype, map_eq_some_iff] at hf
    obtain ⟨file, hf, rfl⟩ := hf
    by_cases hn : file.inodeID = n
    · rw [if_pos hn] at hy ⊢
      have hself : c'.inode n = some y := hn ▸ hy
      obtain rfl := mem_unique hr.self hself
      rfl
    · rw [if_neg hn] at hy ⊢
      exact hkept hf hn hy
  · rw [hr.file_of_directory htype, map_eq_some_iff] at hf
    obtain ⟨file, hf, rfl⟩ := hf
    rw [refile_inodeID] at hy
    rw [refile_parentInodeID]
    refine hkept hf ?_ hy
    intro hn
    obtain ⟨z, hz, hzt, -⟩ := hl.file_inode f file hf
    obtain rfl := some.inj (hr.stored.symm.trans (hn ▸ hz))
    exact htype hzt

lemma namespaceChange (h : ParentsAgree c) (hl : Links c) (hc : NamespaceChange ok c c') :
    ParentsAgree c' := by
  cases hc with
  | @addDirectory i x _ _ _ hnew _ _ _ _ _ _ htype =>
    intro f file y hf hy
    rcases update_some_eq_some.mp hy with ⟨hi, -⟩ | ⟨-, hy⟩
    · obtain ⟨z, hz, -⟩ := hl.file_inode f file hf
      rw [hi, hnew] at hz
      cases hz
    · exact h f file y hf hy
  | @addFile i f x _ file _ _ _ hnew hnewf _ _ _ _ _ _ _ _ _ hinode hsync =>
    intro g file' y hg hy
    rcases update_some_eq_some.mp hg with ⟨-, rfl⟩ | ⟨-, hg⟩
    · rcases update_some_eq_some.mp hy with ⟨-, rfl⟩ | ⟨hne, -⟩
      · exact hsync.1
      · exact absurd hinode hne
    · rcases update_some_eq_some.mp hy with ⟨hi, -⟩ | ⟨-, hy⟩
      · obtain ⟨z, hz, -⟩ := hl.file_inode g file' hg
        rw [hi, hnew] at hz
        cases hz
      · exact h g file' y hg hy
  | rename _ _ _ _ hr | move _ _ _ _ _ _ hr => exact h.relabel hl hr
  | dropFile =>
    intro f file y hf hy
    exact h f file y (update_none_eq_some.mp hf).2 (update_none_eq_some.mp hy).2
  | dropDirectory =>
    intro f file y hf hy
    exact h f file y hf (update_none_eq_some.mp hy).2

theorem catalogStep (h : ParentsAgree c) (hw : WellFormed c) (hc : CatalogStep ok c c') :
    ParentsAgree c' := by
  cases hc with
  | namespaces hsteps =>
    induction hsteps with
    | refl => exact h
    | tail hsteps hstep ih => exact ih.namespaceChange (hw.namespaceChanges hsteps).links hstep
  | @upload f k x x' y' hc =>
    intro g file y hg hy
    rw [hc.inode] at hy
    rw [hc.file] at hg
    rcases update_some_eq_some.mp hg with ⟨rfl, rfl⟩ | ⟨-, hg⟩
    · rw [hc.identity.inodeID] at hy
      rw [hc.identity.parentInodeID]
      exact h _ x y hc.stored hy
    · exact h g file y hg hy
  | nodes hc => exact h.congr hc.inode hc.file

end ParentsAgree

lemma mem_fileOfInode (ha : a.fileID = f) (hf : f ≠ "") : Invalidation.file f ∈ fileOfInode a := by
  rw [fileOfInode, if_pos (ha.trans_ne hf), ha]
  exact mem_singleton_self _

lemma chunk_of_names (hw : WellFormed (catalog s)) (hnames : Call.names call ≠ [])
    (h : Yields (call.run now) s () t) : (catalog t).chunk = (catalog s).chunk := by
  cases call with
  | createDirectory req =>
    obtain ⟨a, h, -⟩ := yields_map.mp h
    obtain ⟨_, -, -, -, -, ht⟩ := createDirectory_adds h
    rw [ht]
  | createFile req =>
    obtain ⟨a, h, -⟩ := yields_map.mp h
    obtain ⟨_, _, -, -, -, -, -, -, ht⟩ := createFile_adds h
    rw [ht]
  | renameInode req =>
    obtain ⟨a, h, -⟩ := yields_map.mp h
    obtain ⟨x, path, -, -, -, hrelabelled⟩ := renameInode_relabels hw h
    exact hrelabelled.chunk
  | moveInode req =>
    obtain ⟨a, h, -⟩ := yields_map.mp h
    obtain ⟨x, parent, name, -, -, -, -, -, hrelabelled⟩ := moveInode_relabels hw h
    exact hrelabelled.chunk
  | _ => exact absurd rfl hnames

/-- The record of a file is the same after the call, or invalidated, or changed silently. -/
theorem call_keepsFile (hw : WellFormed (catalog s)) (h : Yields (call.run now) s () t)
    (f : FileID) : (catalog t).file f = (catalog s).file f ∨
      .file f ∈ invalidations now s call ∨ f ∈ silentFiles s call := by
  have hupload {k : UploadSessionID} (hk : sessionNamed call = some k) :
      (catalog t).file f = (catalog s).file f ∨
        .file f ∈ invalidations now s call ∨ f ∈ silentFiles s call := by
    obtain ⟨g, hwrites⟩ := upload_writesFile hw hk h
    by_cases hf : f = g
    · exact .inr (.inl (hf ▸ hwrites.invalidated))
    · exact .inl (hwrites.file f hf)
  cases call with
  | createDirectory req =>
    obtain ⟨a, h, -⟩ := yields_map.mp h
    obtain ⟨_, -, -, -, -, ht⟩ := createDirectory_adds h
    exact .inl (by rw [ht])
  | createFile req =>
    obtain ⟨a, h, -⟩ := yields_map.mp h
    obtain ⟨_, _, -, -, -, -, -, ⟨hid, -⟩, ht⟩ := createFile_adds h
    by_cases hf : f = req.fileID
    · refine .inr (.inl ?_)
      rw [invalidations, onSuccess_of_yields h, hf, ← hid]
      exact mem_cons_self
    · left
      rw [ht]
      exact update_of_ne hf _ _
  | renameInode req =>
    obtain ⟨a, h, -⟩ := yields_map.mp h
    obtain ⟨x, path, -, -, ha, hrelabelled⟩ := renameInode_relabels hw h
    rcases hrelabelled.sameFile hw.links with hsame | ⟨-, hf, hne⟩ | hwithin
    · exact .inl hsame
    · refine .inr (.inl ?_)
      rw [invalidations, onSuccess_of_yields h]
      exact mem_cons_of_mem _ (mem_fileOfInode (by rw [ha, hf]) hne)
    · exact .inr (.inr hwithin)
  | moveInode req =>
    obtain ⟨a, h, -⟩ := yields_map.mp h
    obtain ⟨x, parent, name, -, -, -, -, ha, hrelabelled⟩ := moveInode_relabels hw h
    rcases hrelabelled.sameFile hw.links with hsame | ⟨-, hf, hne⟩ | hwithin
    · exact .inl hsame
    · refine .inr (.inl ?_)
      rw [invalidations, onSuccess_of_yields h]
      refine mem_append_right _ (mem_cons_of_mem _ ?_)
      exact mem_fileOfInode (by rw [ha, hf]) hne
    · exact .inr (.inr hwithin)
  | deleteFile req =>
    obtain ⟨file, hfile, -, hremoved⟩ := deleteFile_removed hw h
    rcases hremoved.sameFile with hsame | ⟨file', hfile', hgone⟩
    · exact .inl hsame
    · refine .inr (.inl ?_)
      have hrun : Yields (Service.deleteFile req) s () t := h
      rw [invalidations, onSuccess_of_yields hrun, hw.links.file_unique hfile' hfile hgone]
      exact mem_cons_self
  | deleteDirectory req =>
    obtain ⟨x, -, -, -, hremoved⟩ := deleteDirectory_removed hw h
    rcases hremoved.sameFile with hsame | hgone
    · exact .inl hsame
    · exact .inr (.inr hgone)
  | registerNode req => exact .inl (by rw [(registerNode_changes h).file])
  | heartbeatNode req => exact .inl (by rw [(heartbeatNode_changes h).file])
  | _ => exact hupload rfl

/-- The same for the chunks of a file. -/
theorem call_keepsChunks (hw : WellFormed (catalog s)) (h : Yields (call.run now) s () t)
    (f : FileID) : SameChunks (catalog s) (catalog t) f ∨
      .file f ∈ invalidations now s call ∨ f ∈ silentPlans s call := by
  have hupload {k : UploadSessionID} (hk : sessionNamed call = some k) :
      SameChunks (catalog s) (catalog t) f ∨
        .file f ∈ invalidations now s call ∨ f ∈ silentPlans s call := by
    obtain ⟨g, hwrites⟩ := upload_writesFile hw hk h
    by_cases hf : f = g
    · exact .inr (.inl (hf ▸ hwrites.invalidated))
    · exact (hwrites.chunks f hf).imp_right .inr
  cases call with
  | createDirectory _ | createFile _ | renameInode _ | moveInode _ =>
    exact .inl (.of_eq (chunk_of_names hw (by simp [Call.names]) h))
  | deleteFile req =>
    obtain ⟨file, hfile, -, hremoved⟩ := deleteFile_removed hw h
    rcases hremoved.sameChunks with hsame | ⟨file', hfile', hgone⟩
    · exact .inl hsame
    · refine .inr (.inl ?_)
      have hrun : Yields (Service.deleteFile req) s () t := h
      rw [invalidations, onSuccess_of_yields hrun, hw.links.file_unique hfile' hfile hgone]
      exact mem_cons_self
  | deleteDirectory req =>
    obtain ⟨x, -, -, -, hremoved⟩ := deleteDirectory_removed hw h
    rcases hremoved.sameChunks with hsame | hgone
    · exact .inl hsame
    · exact .inr (.inr hgone)
  | registerNode req => exact .inl (.of_eq (registerNode_changes h).chunk)
  | heartbeatNode req => exact .inl (.of_eq (heartbeatNode_changes h).chunk)
  | _ => exact hupload rfl

/-- The same for the listing of a directory. -/
theorem call_keepsListing (hw : WellFormed (catalog s)) (hparents : ParentsAgree (catalog s))
    (h : Yields (call.run now) s () t) (d : InodeID) : SameListing (catalog s) (catalog t) d ∨
      .directory d ∈ invalidations now s call ∨ d ∈ silentListings s call := by
  -- No inode is stored under the empty ID, so nothing is claimed of its listing.
  by_cases hempty : d = ""
  · left
    have hnone : ((catalog s).inode d).isSome = false := by rw [hempty, hw.tree.no_empty_id]; rfl
    constructor
    · intro hd
      rw [hnone] at hd
      cases hd
    · intro hd
      rw [hnone] at hd
      cases hd
  have hupload {k : UploadSessionID} (hk : sessionNamed call = some k) :
      SameListing (catalog s) (catalog t) d ∨
        .directory d ∈ invalidations now s call ∨ d ∈ silentListings s call := by
    obtain ⟨g, hwrites⟩ := upload_writesFile hw hk h
    exact .inl (.of_eq hwrites.inode)
  cases call with
  | createDirectory req =>
    obtain ⟨a, h, -⟩ := yields_map.mp h
    obtain ⟨_, ⟨-, -, hnew⟩, -, -, ⟨hparent, -⟩, ht⟩ := createDirectory_adds h
    by_cases hd : a.parentID = d
    · refine .inr (.inl ?_)
      rw [invalidations, onSuccess_of_yields h, hd]
      exact mem_singleton_self _
    · exact .inl (sameListing_insert hnew hd (by rw [ht]))
  | createFile req =>
    obtain ⟨a, h, -⟩ := yields_map.mp h
    obtain ⟨_, x, ⟨-, -, hnew⟩, -, -, -, -, ⟨-, -, hparent, -⟩, ht⟩ := createFile_adds h
    by_cases hd : x.parentID = d
    · refine .inr (.inl ?_)
      rw [invalidations, onSuccess_of_yields h, hparent, hd]
      exact mem_cons_of_mem _ (mem_singleton_self _)
    · exact .inl (sameListing_insert hnew hd (by rw [ht]))
  | renameInode req =>
    obtain ⟨a, h, -⟩ := yields_map.mp h
    obtain ⟨x, path, -, -, ha, hrelabelled⟩ := renameInode_relabels hw h
    have hparent : a.parentID = x.parentID := by rw [ha]
    by_cases hd : d = x.parentID
    · refine .inr (.inl ?_)
      rw [invalidations, onSuccess_of_yields h, hparent, hd]
      exact mem_cons_self
    · by_cases hwithin : d ∈ directoriesWithin (catalog s) req.inodeID
      · exact .inr (.inr hwithin)
      · exact .inl (hrelabelled.sameListing hw.tree hd (hparent ▸ hd) hwithin)
  | moveInode req =>
    obtain ⟨a, h, -⟩ := yields_map.mp h
    obtain ⟨x, parent, name, -, -, -, -, ha, hrelabelled⟩ := moveInode_relabels hw h
    by_cases hnew : d = a.parentID
    · refine .inr (.inl ?_)
      rw [invalidations, onSuccess_of_yields h, hnew]
      exact mem_append_right _ mem_cons_self
    · by_cases hold : d = x.parentID
      · refine .inr (.inl ?_)
        have hid : req.inodeID ≠ "" := by
          intro hid
          have hx := hrelabelled.stored
          rw [hid, hw.tree.no_empty_id] at hx
          cases hx
        rw [invalidations, onSuccess_of_yields h, findInode_id hid, hrelabelled.stored]
        dsimp only [map_some, getD_some]
        rw [← hold, if_pos hempty]
        exact mem_append_left _ (mem_singleton_self _)
      · by_cases hwithin : d ∈ directoriesWithin (catalog s) req.inodeID
        · exact .inr (.inr hwithin)
        · exact .inl (hrelabelled.sameListing hw.tree hold hnew hwithin)
  | deleteFile req =>
    obtain ⟨file, hfile, hid, hremoved⟩ := deleteFile_removed hw h
    by_cases hself : d = file.inodeID
    · exact .inr (.inr ⟨file, hfile, hself⟩)
    · by_cases hd : d = file.parentInodeID
      · refine .inr (.inl ?_)
        have hrun : Yields (Service.deleteFile req) s () t := h
        rw [invalidations, onSuccess_of_yields hrun, findFile_id hid, hfile, hd]
        exact mem_cons_of_mem _ (mem_singleton_self _)
      · refine .inl (hremoved.sameListing hself fun i x hi hx hparent => ?_)
        subst hi
        exact hd (hparent.symm.trans (hparents _ file x hfile hx).symm)
  | deleteDirectory req =>
    obtain ⟨x, ⟨hx, -⟩, ⟨hid, -⟩, -, hremoved⟩ := deleteDirectory_removed hw h
    by_cases hgone : d ∈ subtree (catalog s) req.inodeID
    · exact .inr (.inr hgone)
    · by_cases hd : d = x.parentID
      · refine .inr (.inl ?_)
        have hrun : Yields (Service.deleteDirectory req) s () t := h
        rw [invalidations, onSuccess_of_yields hrun, findInode_id hid, hx, hd]
        exact mem_singleton_self _
      · -- Of the removed inodes only the topmost one has its parent outside.
        refine .inl (hremoved.sameListing hgone fun i y hi hy hparent => ?_)
        have hup : parentOf (catalog s) i = some d := parentOf_eq_some.mpr ⟨y, hy, hparent⟩
        rcases (climbs_iff_of_some hup).mp hi with rfl | habove
        · obtain rfl := mem_unique hx hy
          exact hd hparent.symm
        · exact hgone habove
  | registerNode req => exact .inl (.of_eq (registerNode_changes h).inode)
  | heartbeatNode req => exact .inl (.of_eq (heartbeatNode_changes h).inode)
  | _ => exact hupload rfl

structure Rewritten (c c' : Catalog) (files : Set FileID) : Prop where
  inode : c'.inode = c.inode
  file : c'.file = c.file
  session : c'.session = c.session
  chunks : ChunksFrom c c'
  others : ∀ f, f ∉ files → SameChunks c c' f

lemma Rewritten.putChunk (hz : (catalog s).chunk z.id = some z) (hplace : SamePlace z z')
    (hfile : z.fileID ∈ files) :
    Rewritten (catalog s) (catalog { s with chunks := s.chunks.put z' }) files := by
  rw [catalog_putChunk, hplace.id]
  refine ⟨rfl, rfl, rfl, ?_, ?_⟩
  · intro k y hy
    rcases update_some_eq_some.mp hy with ⟨rfl, rfl⟩ | ⟨-, hy⟩
    · exact ⟨z, hz, hplace⟩
    · exact ⟨y, hy, .refl y⟩
  · intro f hf k y hy
    rw [update_some_eq_some]
    constructor
    · rintro (⟨-, rfl⟩ | ⟨-, hk⟩)
      · exact absurd (hy ▸ hplace.fileID ▸ hfile) hf
      · exact hk
    · intro hk
      refine .inr ⟨?_, hk⟩
      rintro rfl
      obtain rfl := mem_unique hz hk
      exact hf (hy ▸ hfile)

theorem write_rewrites (h : Yields v.run s () t) :
    Rewritten (catalog s) (catalog t) (rewrittenPlans s v) := by
  rcases write_cases h with ⟨plans, rfl⟩ | ⟨z, _, _, _, _, hz, hfile, rfl⟩
  · exact ⟨rfl, rfl, rfl, .of_sub fun _ _ hz => hz, fun _ _ => .of_eq rfl⟩
  · exact .putChunk hz ⟨rfl, rfl, rfl, rfl, rfl⟩ hfile

lemma WellFormed.rewritten (h : WellFormed c) (hr : Rewritten c c' files) : WellFormed c' := by
  refine h.chunksOf hr.inode hr.file hr.session fun k z' hz' => ?_
  obtain ⟨z, hz, hplace⟩ := hr.chunks k z' hz'
  exact ⟨z, hz, hplace.fileID.symm⟩

structure Regular (s : MemoryState) : Prop where
  wellFormed : WellFormed (catalog s)
  chunkTable : ChunkTable (catalog s)
  parentsAgree : ParentsAgree (catalog s)

lemma regular_rootState (now : Time) : Regular (rootState now) where
  wellFormed := wellFormed_rootState now
  chunkTable := chunkTable_rootState now
  parentsAgree := by
    intro f file x hf
    cases hf

namespace Regular

lemma congr (h : Regular s) (hcatalog : catalog t = catalog s) : Regular t := by
  obtain ⟨hw, hchunks, hparents⟩ := h
  rw [← hcatalog] at hw hchunks hparents
  exact ⟨hw, hchunks, hparents⟩

lemma exec (h : Regular s) (now : Time) (call : Call) : Regular (call.exec now s) := by
  have heffect := effect_of_step h.wellFormed (.call now call)
  exact ⟨h.wellFormed.step (.call now call), h.chunkTable.effect heffect,
    h.parentsAgree.catalogStep h.wellFormed heffect.catalogStep⟩

lemma rewritten (h : Regular s) (hr : Rewritten (catalog s) (catalog t) files) : Regular t :=
  ⟨h.wellFormed.rewritten hr, h.chunkTable.chunksFrom hr.chunks,
    h.parentsAgree.congr hr.inode hr.file⟩

end Regular

end AstraStorage.Proofs
