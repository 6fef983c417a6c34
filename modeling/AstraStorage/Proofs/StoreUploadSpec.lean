import AstraStorage.Proofs.Changes

/-!
# What the chunk and session functions of the store do

One lemma for each function: exactly when it succeeds, and the state it leaves.
-/

namespace AstraStorage.Proofs
open Lib Store Function List Records

variable {s t : MemoryState} {f : FileID} {z : ChunkMetadata} {y : UploadSession}
  {k : UploadSessionID} {patch : ChunkMetadata → ChunkStatusPatch} {α : Type}
  {progress : UploadProgressPatch} {failure : UploadFailureRecord} {completedAt : Time}

lemma catalog_putChunk (z : ChunkMetadata) :
    catalog { s with chunks := s.chunks.put z } =
      { catalog s with chunk := update (catalog s).chunk z.id (some z) } := by
  simp [catalog, lookup_put]

lemma catalog_eraseChunk (k : ChunkID) :
    catalog { s with chunks := s.chunks.erase k } =
      { catalog s with chunk := update (catalog s).chunk k none } := by
  simp [catalog, lookup_erase]

lemma catalog_putUploadSession (y : UploadSession) :
    catalog { s with uploadSessions := s.uploadSessions.put y } =
      { catalog s with session := update (catalog s).session y.id (some y) } := by
  simp [catalog, lookup_put]

lemma catalog_eraseUploadSession (k : UploadSessionID) :
    catalog { s with uploadSessions := s.uploadSessions.erase k } =
      { catalog s with session := update (catalog s).session k none } := by
  simp [catalog, lookup_erase]

lemma mem_chunksOfFile : z ∈ chunksOfFile s f ↔ (catalog s).chunk z.id = some z ∧ z.fileID = f := by
  simp [chunksOfFile, mem_values, catalog]

lemma nodup_chunksOfFile (f : FileID) : ((chunksOfFile s f).map ChunkMetadata.id).Nodup := by
  refine ((perm_insertionSort _ _).map _).nodup_iff.mpr ?_
  exact s.chunks.nodup.sublist (filter_sublist.map _)

lemma chunksOfFile_congr (h : t.chunks = s.chunks) : chunksOfFile t f = chunksOfFile s f := by
  rw [chunksOfFile, chunksOfFile, h]

@[simp] lemma yields_listChunksByFile :
    Yields (listChunksByFile f) s chunks t ↔ chunks = chunksOfFile s f ∧ t = s := by
  simp only [listChunksByFile, yields_get_bind, yields_pure]

def sessionsOfFile (s : MemoryState) (f : FileID) : List UploadSession :=
  (s.uploadSessions.values.filter (·.fileID = f)).insertionSort (·.createdAt ≤ ·.createdAt)

lemma mem_sessionsOfFile :
    y ∈ sessionsOfFile s f ↔ (catalog s).session y.id = some y ∧ y.fileID = f := by
  simp [sessionsOfFile, mem_values, catalog]

lemma nodup_sessionsOfFile (f : FileID) : ((sessionsOfFile s f).map UploadSession.id).Nodup := by
  refine ((perm_insertionSort _ _).map _).nodup_iff.mpr ?_
  exact s.uploadSessions.nodup.sublist (filter_sublist.map _)

@[simp] lemma yields_listUploadSessionsByFile :
    Yields (listUploadSessionsByFile f none) s sessions t ↔
      sessions = sessionsOfFile s f ∧ t = s := by
  simp only [listUploadSessionsByFile, yields_get_bind, yields_pure, sessionsOfFile, Option.all_none,
    Bool.and_true]

lemma yields_getChunk (hk : k ≠ "") :
    Yields (getChunk { id := k }) s z t ↔ (catalog s).chunk k = some z ∧ t = s := by
  simp only [getChunk, yields_get_bind, yields_expect, findChunk_id hk]

def PositionTaken (s : MemoryState) (z : ChunkMetadata) : Prop :=
  ∃ k w, (catalog s).chunk k = some w ∧ w.fileID = z.fileID ∧ k ≠ z.id ∧
    (w.index = z.index ∨ w.offset = z.offset)

lemma yields_rejectTakenPosition :
    Yields (rejectTakenPosition z w) s u t ↔
      ¬(w.fileID = z.fileID ∧ w.id ≠ z.id ∧ (w.index = z.index ∨ w.offset = z.offset)) ∧
        t = s := by
  by_cases hskip : w.fileID ≠ z.fileID ∨ w.id = z.id
  · have hnot : ¬(w.fileID = z.fileID ∧ w.id ≠ z.id ∧
        (w.index = z.index ∨ w.offset = z.offset)) := by
      rintro ⟨hf, hi, _⟩
      rcases hskip with h | h
      · exact h hf
      · exact hi h
    simp only [rejectTakenPosition, hskip, if_true, yields_pure, hnot, not_false_eq_true]
  · simp only [rejectTakenPosition, hskip, if_false, yields_reject_bind, yields_reject]
    rw [not_or, not_not] at hskip
    simp [hskip.1, hskip.2, and_assoc]

structure ChunkFits (s : MemoryState) (z : ChunkMetadata) : Prop where
  id_ne : z.id ≠ ""
  fileID_ne : z.fileID ≠ ""
  file : ((catalog s).file z.fileID).isSome
  size_nonneg : 0 ≤ z.size
  size_le : z.size ≤ fixedChunkSizeBytes
  offset : z.offset = z.index * fixedChunkSizeBytes
  free : ¬PositionTaken s z

lemma yields_upsertChunks_singleton :
    Yields (upsertChunks [z]) s u t ↔
      ChunkFits s z ∧ t = { s with chunks := s.chunks.put z } := by
  have hstored : ∀ v r, Yields (forM s.chunks.values (rejectTakenPosition z)) s v r ↔
      ¬PositionTaken s z ∧ r = s := by
    intro v r
    rw [yields_forM_check (fun w _ _ _ => yields_rejectTakenPosition)]
    refine and_congr_left fun _ => ?_
    constructor
    · rintro h ⟨k, w, hw, hf, hk, hpos⟩
      obtain rfl := chunk_id hw
      exact h w (mem_values.mpr hw) ⟨hf, hk, hpos⟩
    · rintro h w hw ⟨hf, hk, hpos⟩
      exact h ⟨w.id, w, mem_values.mp hw, hf, hk, hpos⟩
  have hput : ((∅ : Records ChunkMetadata.id).put z).values = [z] := rfl
  have hnone : (∅ : Records ChunkMetadata.id).values = [] := rfl
  simp only [upsertChunks, pendingChunks, forM_eq_forM, bind_assoc, pure_bind,
    yields_reject_bind, yields_get_bind, hnone, forM_nil, hput, forM_cons]
  simp only [yields_read_bind hstored]
  constructor
  · rintro ⟨hids, hfile, hneg, hmax, hoff, ⟨⟩, hfree, ht⟩
    rw [not_or] at hids
    refine ⟨⟨hids.1, hids.2, ?_, by simpa using hneg, by simpa using hmax, by simpa using hoff,
      hfree⟩, ?_⟩
    · simpa [catalog, Option.isSome_iff_ne_none] using hfile
    · simpa using ht
  · rintro ⟨hfits, ht⟩
    refine ⟨?_, ?_, by simpa using hfits.size_nonneg, by simpa using hfits.size_le,
      by simpa using hfits.offset, (), hfits.free, by simpa using ht⟩
    · rintro (h | h)
      · exact hfits.id_ne h
      · exact hfits.fileID_ne h
    · simpa [catalog, Option.isSome_iff_ne_none] using hfits.file

lemma yields_updateChunkStatus {patch : ChunkStatusPatch} (hk : k ≠ "")
    (hsel : patch.selector = { id := k }) :
    Yields (updateChunkStatus patch) s u t ↔ ∃ z, (catalog s).chunk k = some z ∧
      t = { s with chunks := s.chunks.put (patchChunk patch z) } := by
  simp only [updateChunkStatus, yields_get_bind, yields_expect_bind, yields_putChunk, hsel,
    findChunk_id hk]

lemma yields_deleteChunk (hk : k ≠ "") :
    Yields (deleteChunk { id := k }) s u t ↔ (∃ z, (catalog s).chunk k = some z) ∧
      t = { s with chunks := s.chunks.erase k } := by
  simp only [deleteChunk, yields_get_bind, yields_expect_bind, yields_modify, findChunk_id hk]
  constructor
  · rintro ⟨z, hz, rfl⟩
    obtain rfl := chunk_id hz
    exact ⟨⟨z, hz⟩, rfl⟩
  · rintro ⟨⟨z, hz⟩, rfl⟩
    obtain rfl := chunk_id hz
    exact ⟨z, hz, rfl⟩

structure SameButChunks (c c' : Catalog) : Prop where
  inode : c'.inode = c.inode
  file : c'.file = c.file
  session : c'.session = c.session
  node : c'.node = c.node
  plan : c'.plan = c.plan

def mapChunks (c : Catalog) (f : FileID) (g : ChunkMetadata → Option ChunkMetadata) : Catalog :=
  { c with chunk := fun k => (c.chunk k).bind fun z => if z.fileID = f then g z else some z }

lemma chunkLoop (hempty : (catalog s).chunk "" = none)
    (hround : ∀ r z, z.id ≠ "" → (catalog r).chunk z.id = some z →
      ∃ r', Yields (body z) r () r' ∧ catalog r' = { catalog r with
        chunk := update (catalog r).chunk z.id (g z) }) :
    ∃ t, Yields (forM (chunksOfFile s f) body) s () t ∧ catalog t = mapChunks (catalog s) f g := by
  have hne : ∀ z ∈ chunksOfFile s f, z.id ≠ "" := by
    intro z hz hid
    have := (mem_chunksOfFile.mp hz).1
    rw [hid, hempty] at this
    cases this
  obtain ⟨t, ht, hframe, hvisited, hkept⟩ := forM_visits_succeeds (fun r => (catalog r).chunk)
    ChunkMetadata.id g (fun r => SameButChunks (catalog s) (catalog r)) (nodup_chunksOfFile f)
    (fun z hz => (mem_chunksOfFile.mp hz).1) ⟨rfl, rfl, rfl, rfl, rfl⟩ (by
      intro z hz r hr hview
      obtain ⟨r', hy, hr'⟩ := hround r z (hne z hz) hview
      refine ⟨r', hy, ?_, by rw [hr']⟩
      rw [hr']
      exact ⟨hr.inode, hr.file, hr.session, hr.node, hr.plan⟩)
  refine ⟨t, ht, ?_⟩
  have hall : (catalog t).chunk = (mapChunks (catalog s) f g).chunk := by
    funext k
    by_cases hk : ∃ z ∈ chunksOfFile s f, z.id = k
    · obtain ⟨z, hz, rfl⟩ := hk
      obtain ⟨hstored, hzf⟩ := mem_chunksOfFile.mp hz
      simp [mapChunks, hstored, hzf, hvisited z hz]
    · rw [hkept k (fun z hz hid => hk ⟨z, hz, hid⟩)]
      cases hz : (catalog s).chunk k with
      | none => simp [mapChunks, hz]
      | some z =>
        obtain rfl := chunk_id hz
        have hzf : z.fileID ≠ f := by
          intro hzf
          exact hk ⟨z, mem_chunksOfFile.mpr ⟨hz, hzf⟩, rfl⟩
        simp [mapChunks, hz, hzf]
  ext1
  · exact hframe.inode
  · exact hframe.file
  · exact hall
  · exact hframe.session
  · exact hframe.node
  · exact hframe.plan

lemma restampLoop (patch : ChunkMetadata → ChunkStatusPatch)
    (hsel : ∀ z, (patch z).selector = { id := z.id }) (hempty : (catalog s).chunk "" = none) :
    ∃ t, Yields (forM (chunksOfFile s f) fun z => updateChunkStatus (patch z)) s () t ∧
      catalog t = mapChunks (catalog s) f fun z => some (patchChunk (patch z) z) := by
  apply chunkLoop hempty
  intro r z hz hview
  refine ⟨_, (yields_updateChunkStatus hz (hsel z)).mpr ⟨z, hview, rfl⟩, ?_⟩
  exact catalog_putChunk (patchChunk (patch z) z)

lemma restampLoop_spec (hempty : (catalog s).chunk "" = none)
    (hsel : ∀ z, (patch z).selector = { id := z.id })
    (h : Yields ((chunksOfFile s f).forM fun z => updateChunkStatus (patch z)) s u t) :
    catalog t = mapChunks (catalog s) f fun z => some (patchChunk (patch z) z) := by
  obtain ⟨t', ht', hcatalog⟩ := restampLoop patch hsel hempty
  obtain rfl := (h.unique ht').2
  exact hcatalog

lemma restampLoop_andThen (hxs : xs = chunksOfFile s f) (hempty : (catalog s).chunk "" = none)
    (hsel : ∀ z, (patch z).selector = { id := z.id })
    (hrest : ∀ t, catalog t = mapChunks (catalog s) f (fun z => some (patchChunk (patch z) z)) →
      Returns (rest ()) t) :
    Returns ((xs.forM fun z => updateChunkStatus (patch z)) >>= rest) s := by
  subst hxs
  obtain ⟨t, hloop, ht⟩ := restampLoop patch hsel hempty
  exact Yields.unitThen hloop (hrest t ht)

lemma deleteLoop (hempty : (catalog s).chunk "" = none) :
    ∃ t, Yields (forM (chunksOfFile s f) fun z => deleteChunk { id := z.id }) s () t ∧
      catalog t = mapChunks (catalog s) f fun _ => none := by
  apply chunkLoop hempty
  intro r z hz hview
  exact ⟨_, (yields_deleteChunk hz).mpr ⟨⟨z, hview⟩, rfl⟩, catalog_eraseChunk z.id⟩

lemma yields_getUploadSession :
    Yields (getUploadSession k) s y t ↔ (catalog s).session k = some y ∧ t = s := by
  simp only [getUploadSession, yields_get_bind, yields_expect]
  rfl

lemma yields_getUploadSession_bind {f : UploadSession → StoreM α} :
    Yields (getUploadSession k >>= f) s a t ↔
      ∃ y, (catalog s).session k = some y ∧ Yields (f y) s a t :=
  yields_read_bind fun _ _ => yields_getUploadSession

lemma yields_createUploadSession (hsize : y.chunkSize = fixedChunkSizeBytes) :
    Yields (createUploadSession (some y)) s u t ↔
      (y.id ≠ "" ∧ y.fileID ≠ "" ∧ (catalog s).session y.id = none ∧
        ((catalog s).file y.fileID).isSome) ∧
      t = { s with uploadSessions := s.uploadSessions.put y } := by
  have hne : fixedChunkSizeBytes ≠ 0 := by decide
  simp [createUploadSession, hsize, hne, catalog, Option.isSome_iff_ne_none, and_assoc]

def OffsetsFit (s : MemoryState) (y : UploadSession) (confirmed next : Int64) : Prop :=
  0 ≤ confirmed ∧ 0 ≤ next ∧ confirmed ≤ next ∧
    (0 < uploadExpectedSize s y → next ≤ uploadExpectedSize s y)

lemma yields_updateUploadProgress :
    Yields (updateUploadProgress progress) s u t ↔
      ∃ y, (catalog s).session progress.sessionID = some y ∧ y.status ≠ .completed ∧
        OffsetsFit s y progress.confirmedOffset progress.nextOffset ∧
        t = { s with uploadSessions := s.uploadSessions.put (patchSession progress y) } := by
  simp [updateUploadProgress, OffsetsFit, catalog, patchSession, and_assoc]

structure SameButSessions (s t : MemoryState) : Prop where
  inodes : t.inodes = s.inodes
  files : t.files = s.files
  chunks : t.chunks = s.chunks
  nodes : t.nodes = s.nodes

lemma uploadExpectedSize_congr (h : SameButSessions s t) :
    uploadExpectedSize t y = uploadExpectedSize s y := by
  rw [uploadExpectedSize, uploadExpectedSize, h.files]

lemma putUploadSession_spec (y' : UploadSession) (hid : y'.id = k)
    (h : t = { s with uploadSessions := s.uploadSessions.put y' }) :
    SameButSessions s t ∧ catalog t = { catalog s with
      session := update (catalog s).session k (some y') } := by
  subst h hid
  exact ⟨⟨rfl, rfl, rfl, rfl⟩, catalog_putUploadSession y'⟩

lemma updateUploadProgress_spec (h : Yields (updateUploadProgress progress) s u t) :
    ∃ y, (catalog s).session progress.sessionID = some y ∧ y.status ≠ .completed ∧
      OffsetsFit s y progress.confirmedOffset progress.nextOffset ∧ SameButSessions s t ∧
      catalog t = { catalog s with
        session := update (catalog s).session progress.sessionID
          (some (patchSession progress y)) } := by
  obtain ⟨y, hy, hopen, hoffsets, ht⟩ := yields_updateUploadProgress.mp h
  have hid : y.id = progress.sessionID := session_id hy
  exact ⟨y, hy, hopen, hoffsets, putUploadSession_spec (patchSession progress y) hid ht⟩

lemma yields_recordUploadFailure :
    Yields (recordUploadFailure failure) s u t ↔
      ∃ y, (catalog s).session failure.sessionID = some y ∧
        t = { s with uploadSessions := s.uploadSessions.put (failSession failure y) } := by
  simp [recordUploadFailure, catalog, failSession]

lemma recordUploadFailure_spec (h : Yields (recordUploadFailure failure) s u t) :
    ∃ y, (catalog s).session failure.sessionID = some y ∧ SameButSessions s t ∧
      catalog t = { catalog s with
        session := update (catalog s).session failure.sessionID
          (some (failSession failure y)) } := by
  obtain ⟨y, hy, ht⟩ := yields_recordUploadFailure.mp h
  have hid : y.id = failure.sessionID := session_id hy
  exact ⟨y, hy, putUploadSession_spec (failSession failure y) hid ht⟩

def completeSession (completedAt : Time) (y : UploadSession) : UploadSession :=
  { y with status := .completed, completedAt := some completedAt, updatedAt := completedAt }

lemma yields_completeUploadSession :
    Yields (completeUploadSession k completedAt) s u t ↔
      ∃ y, (catalog s).session k = some y ∧
        (0 < uploadExpectedSize s y → y.confirmedOffset = uploadExpectedSize s y) ∧
        t = { s with uploadSessions := s.uploadSessions.put (completeSession completedAt y) } := by
  simp [completeUploadSession, catalog, completeSession]

lemma completeUploadSession_spec (h : Yields (completeUploadSession k completedAt) s u t) :
    ∃ y, (catalog s).session k = some y ∧
      (0 < uploadExpectedSize s y → y.confirmedOffset = uploadExpectedSize s y) ∧
      SameButSessions s t ∧ catalog t = { catalog s with
        session := update (catalog s).session k (some (completeSession completedAt y)) } := by
  obtain ⟨y, hy, hsize, ht⟩ := yields_completeUploadSession.mp h
  have hid : y.id = k := session_id hy
  exact ⟨y, hy, hsize, putUploadSession_spec (completeSession completedAt y) hid ht⟩

lemma deleteSessionsLoop (f : FileID) :
    ∃ t, Yields (forM (sessionsOfFile s f) fun y => deleteUploadSession y.id) s () t ∧
      catalog t = { catalog s with
        session := fun k => ((catalog s).session k).filter (·.fileID ≠ f) } := by
  obtain ⟨t, ht, ⟨g, hg⟩, hvisited, hkept⟩ := forM_visits_succeeds (fun r => (catalog r).session)
    UploadSession.id (fun _ => none) (fun r => ∃ g, catalog r = { catalog s with session := g })
    (nodup_sessionsOfFile f) (fun y hy => (mem_sessionsOfFile.mp hy).1) ⟨_, rfl⟩
    (f := fun y => deleteUploadSession y.id) (by
      rintro y _ r ⟨g, hg⟩ hview
      refine ⟨{ r with uploadSessions := r.uploadSessions.erase y.id }, ?_, ?_⟩
      · have hsome : r.uploadSessions.lookup y.id = some y := hview
        simp [deleteUploadSession, hsome]
      · rw [catalog_eraseUploadSession]
        exact ⟨⟨_, by rw [hg]⟩, rfl⟩)
  have hall : ∀ k, (catalog t).session k = ((catalog s).session k).filter (·.fileID ≠ f) := by
    intro k
    by_cases hk : ∃ y ∈ sessionsOfFile s f, y.id = k
    · obtain ⟨y, hy, rfl⟩ := hk
      obtain ⟨hstored, hyf⟩ := mem_sessionsOfFile.mp hy
      rw [hvisited y hy, hstored]
      simp [Option.filter, hyf]
    · rw [hkept k (fun y hy hid => hk ⟨y, hy, hid⟩)]
      cases hy : (catalog s).session k with
      | none => rfl
      | some y =>
        obtain rfl := session_id hy
        have hyf : y.fileID ≠ f := by
          intro hyf
          exact hk ⟨y, mem_sessionsOfFile.mpr ⟨hy, hyf⟩, rfl⟩
        simp [Option.filter, hyf]
  refine ⟨t, ht, ?_⟩
  rw [hg] at hall ⊢
  simp only [Catalog.mk.injEq, true_and, and_true]
  exact funext hall

end AstraStorage.Proofs
