import AstraStorage.Model.Download
import AstraStorage.Proofs.Reachable

/-!
# Chunk records

A chunk is placed when it is committed, and later calls only restamp or remove it. So the list of a
file's chunks in index order does not depend on the order in which the map is iterated.
-/

namespace AstraStorage.Proofs
open Lib Store Service Function List

variable {k : UploadSessionID}

structure ChunkTable (c : Catalog) : Prop where
  place : ∀ k z, c.chunk k = some z → 0 ≤ z.offset ∧ 0 ≤ z.size ∧ 0 ≤ z.offset + z.size
  index : ∀ k l z w, c.chunk k = some z → c.chunk l = some w → z.fileID = w.fileID →
    z.index = w.index → k = l

structure SamePlace (z z' : ChunkMetadata) : Prop where
  id : z'.id = z.id
  fileID : z'.fileID = z.fileID
  index : z'.index = z.index
  offset : z'.offset = z.offset
  size : z'.size = z.size

def ChunksBy (R : ChunkMetadata → ChunkMetadata → Prop) (c c' : Catalog) : Prop :=
  ∀ k z', c'.chunk k = some z' → ∃ z, c.chunk k = some z ∧ R z z'

def ChunksFrom (c c' : Catalog) : Prop :=
  ∀ k z', c'.chunk k = some z' → ∃ z, c.chunk k = some z ∧ SamePlace z z'

variable {c c' : Catalog}

lemma SamePlace.refl (z : ChunkMetadata) : SamePlace z z := ⟨rfl, rfl, rfl, rfl, rfl⟩

lemma samePlace_stampChunk (z : ChunkMetadata) : SamePlace z (stampChunk status errorCode when z) :=
  ⟨rfl, rfl, rfl, rfl, rfl⟩

section Relation

variable {R : ChunkMetadata → ChunkMetadata → Prop} (hrefl : ∀ z, R z z)
include hrefl

lemma ChunksBy.of_sub (h : ∀ k z, c'.chunk k = some z → c.chunk k = some z) : ChunksBy R c c' :=
  fun k z hz => ⟨z, h k z hz, hrefl z⟩

lemma ChunksBy.withUpload {g : ChunkMetadata → Option ChunkMetadata}
    (hg : ∀ z z', g z = some z' → R z z') : ChunksBy R c (withUpload c k f y' file' g) := by
  intro j z' hz'
  obtain ⟨z, hz, hz'⟩ := chunk_withUpload.mp hz'
  by_cases hzf : z.fileID = f
  · rw [if_pos hzf] at hz'
    exact ⟨z, hz, hg z z' hz'⟩
  · rw [if_neg hzf] at hz'
    cases hz'
    exact ⟨_, hz, hrefl _⟩

lemma ChunksBy.namespaceChanges (h : Relation.ReflTransGen (NamespaceChange ok) c c') :
    ChunksBy R c c' := by
  induction h with
  | refl => exact .of_sub hrefl fun _ _ hz => hz
  | tail _ hstep ih =>
    intro k z hz
    refine ih k z ?_
    cases hstep with
    | addDirectory | addFile | dropDirectory => exact hz
    | rename _ _ _ _ h | move _ _ _ _ _ _ h => rwa [h.chunk] at hz
    | dropFile =>
      simp only [withoutFile, Option.filter_eq_some_iff] at hz
      exact hz.1

/-- Only a commit makes a chunk; every other action leaves the chunks that it keeps alone or
patches their status. -/
theorem Effect.chunksBy (hpatch : ∀ patch z, R z (patchChunk patch z)) (h : Effect ok s t a) :
    ChunksBy R (catalog s) (catalog t) ∨
      ∃ now req y file replicas, a = .call now (.commitChunk req) ∧ CommitAccepted s req y file ∧
        (catalog t).chunk = update (catalog s).chunk req.chunkID
          (some (committedChunk (requestTime now req.committedAt) req y file replicas)) := by
  cases h with
  | same ht => exact .inl (.of_sub hrefl fun _ _ hz => ht ▸ hz)
  | namespaces ht => exact .inl (.namespaceChanges hrefl ht)
  | nodes ht => exact .inl (.of_sub hrefl fun _ _ hz => ht.chunk ▸ hz)
  | upload h =>
    cases h with
    | start _ ht =>
      rw [ht]
      exact .inl (.withUpload hrefl (by rintro z z' ⟨⟩; exact hrefl z))
    | commit hacc ht => exact .inr ⟨_, _, _, _, _, rfl, hacc, by rw [ht]⟩
    | complete _ ht | verify _ ht | fail _ ht =>
      rw [ht]
      exact .inl (.withUpload hrefl (by rintro z z' ⟨⟩; exact hpatch _ z))
    | retry _ ht =>
      rw [ht]
      refine .inl (.withUpload hrefl fun z z' hz => ?_)
      unfold reopenedChunk at hz
      split at hz
      · cases hz
        exact hpatch _ z
      · cases hz

end Relation

lemma ChunksFrom.of_sub (h : ∀ k z, c'.chunk k = some z → c.chunk k = some z) : ChunksFrom c c' :=
  ChunksBy.of_sub SamePlace.refl h

theorem Effect.chunksFrom (h : Effect ok s t a) :
    ChunksFrom (catalog s) (catalog t) ∨
      ∃ now req y file replicas, a = .call now (.commitChunk req) ∧ CommitAccepted s req y file ∧
        (catalog t).chunk = update (catalog s).chunk req.chunkID
          (some (committedChunk (requestTime now req.committedAt) req y file replicas)) :=
  h.chunksBy SamePlace.refl fun _ _ => ⟨rfl, rfl, rfl, rfl, rfl⟩

namespace ChunkTable

lemma chunksFrom (h : ChunkTable c) (hc : ChunksFrom c c') : ChunkTable c' := by
  constructor
  · intro k z' hz'
    obtain ⟨z, hz, hplace⟩ := hc k z' hz'
    rw [hplace.offset, hplace.size]
    exact h.place k z hz
  · intro k l z' w' hz' hw' hfile hindex
    obtain ⟨z, hz, hzp⟩ := hc k z' hz'
    obtain ⟨w, hw, hwp⟩ := hc l w' hw'
    rw [hzp.fileID, hwp.fileID] at hfile
    rw [hzp.index, hwp.index] at hindex
    exact h.index k l z w hz hw hfile hindex

lemma commit (h : ChunkTable (catalog s)) (hacc : CommitAccepted s req y file)
    (hc : c'.chunk = update (catalog s).chunk req.chunkID
      (some (committedChunk when req y file replicas))) : ChunkTable c' := by
  have hfree : ∀ k z, k ≠ req.chunkID → (catalog s).chunk k = some z → z.fileID = y.fileID →
      z.index ≠ req.index :=
    fun k z hk hz hzf => (hacc.free k z hz hzf hk).1
  constructor
  · intro k z hz
    rw [hc, update_some_eq_some] at hz
    rcases hz with ⟨_, rfl⟩ | ⟨_, hz⟩
    · exact ⟨hacc.position.2.1, hacc.position.2.2, hacc.offsets.1⟩
    · exact h.place k z hz
  · intro k l z w hz hw hfile hindex
    rw [hc, update_some_eq_some] at hz hw
    rcases hz with ⟨rfl, rfl⟩ | ⟨hk, hz⟩
    · rcases hw with ⟨rfl, rfl⟩ | ⟨hl, hw⟩
      · rfl
      · exact absurd hindex.symm (hfree l w hl hw hfile.symm)
    · rcases hw with ⟨rfl, rfl⟩ | ⟨hl, hw⟩
      · exact absurd hindex (hfree k z hk hz hfile)
      · exact h.index k l z w hz hw hfile hindex

lemma effect (h : ChunkTable (catalog s)) (he : Effect ok s t a) : ChunkTable (catalog t) := by
  rcases he.chunksFrom with hfrom | ⟨_, _, _, _, _, _, hacc, hc⟩
  · exact h.chunksFrom hfrom
  · exact h.commit hacc hc

end ChunkTable

lemma chunkTable_rootState (now : Time) : ChunkTable (catalog (rootState now)) := by
  constructor
  · intro k z hz
    cases hz
  · intro k l z w hz
    cases hz

theorem chunkTable_of_run (hrun : ServiceRun history s) : ChunkTable (catalog s) :=
  kept_of_serviceRun (I := fun s => ChunkTable (catalog s)) hrun chunkTable_rootState
    fun _ _ _ hw hc hstep => hc.effect (effect_of_step hw hstep)

lemma sorted_chunksOfFile (s : MemoryState) (f : FileID) :
    (chunksOfFile s f).Pairwise (·.index ≤ ·.index) := by
  exact pairwise_insertionSort _ _

/-- The chunk list follows the records: restamping the records of a file restamps its list. -/
theorem chunksOfFile_eq_map (ht : ChunkTable (catalog t)) (hg : ∀ z, SamePlace z (g z))
    (h : ∀ z', ((catalog t).chunk z'.id = some z' ∧ z'.fileID = f) ↔
      ∃ z, ((catalog s).chunk z.id = some z ∧ z.fileID = f) ∧ g z = z') :
    chunksOfFile t f = (chunksOfFile s f).map g := by
  have hmem : ∀ z', z' ∈ chunksOfFile t f ↔ z' ∈ (chunksOfFile s f).map g := by
    intro z'
    rw [mem_chunksOfFile, mem_map, h]
    simp only [mem_chunksOfFile]
  have hid : ((chunksOfFile s f).map g).map ChunkMetadata.id =
      (chunksOfFile s f).map ChunkMetadata.id := by
    rw [map_map]
    exact map_congr_left (fun z _ => (hg z).id)
  have hnodup : ((chunksOfFile s f).map g).Nodup := by
    apply List.Nodup.of_map ChunkMetadata.id
    rw [hid]
    exact nodup_chunksOfFile f
  have hsorted : ((chunksOfFile s f).map g).Pairwise (·.index ≤ ·.index) := by
    rw [pairwise_map]
    refine (sorted_chunksOfFile s f).imp ?_
    intro z w hzw
    rwa [(hg z).index, (hg w).index]
  refine List.Perm.eq_of_pairwise ?_ (sorted_chunksOfFile t f) hsorted
    ((perm_ext_iff_of_nodup (nodup_chunksOfFile f).of_map hnodup).mpr hmem)
  intro z w hz hw hle hge
  have hindex := Int64.le_antisymm hle hge
  obtain ⟨hz, hzf⟩ := mem_chunksOfFile.mp hz
  obtain ⟨hw, hwf⟩ := mem_chunksOfFile.mp ((hmem w).mpr hw)
  have hkey := ht.index _ _ z w hz hw (hzf.trans hwf.symm) hindex
  rw [hkey, hw] at hz
  exact (Option.some.inj hz).symm

lemma chunksOfFile_eq (ht : ChunkTable (catalog t))
    (h : ∀ k z, z.fileID = f → ((catalog t).chunk k = some z ↔ (catalog s).chunk k = some z)) :
    chunksOfFile t f = chunksOfFile s f := by
  rw [chunksOfFile_eq_map (g := id) ht SamePlace.refl, map_id]
  intro z'
  constructor
  · rintro ⟨hz', hf⟩
    exact ⟨z', ⟨(h _ z' hf).mp hz', hf⟩, rfl⟩
  · rintro ⟨z, ⟨hz, hf⟩, rfl⟩
    exact ⟨(h _ z hf).mpr hz, hf⟩

lemma yields_buildDownloadPlan (hf : f ≠ "") :
    Yields (Service.buildDownloadPlan f) s plan t ↔ ∃ file, (catalog s).file f = some file ∧
      chunksOfFile s f ≠ [] ∧ plan = planOfChunks file (chunksOfFile s f) ∧ t = s := by
  simp only [Service.buildDownloadPlan, yields_getFile_bind hf,
    yields_read_bind (fun _ _ => yields_listChunksByFile), yields_reject_bind, yields_pure,
    length_eq_zero_iff]
  constructor
  · rintro ⟨file, hfile, _, rfl, hne, rfl, rfl⟩
    exact ⟨file, hfile, hne, rfl, rfl⟩
  · rintro ⟨file, hfile, hne, rfl, rfl⟩
    exact ⟨file, hfile, _, rfl, hne, rfl, rfl⟩

lemma chunksOfFile_withUpload (hc : ChunkTable (catalog t)) (hg : ∀ z, SamePlace z (g z))
    (ht : catalog t = withUpload (catalog s) k f y' file' (fun z => some (g z))) :
    chunksOfFile t f = (chunksOfFile s f).map g := by
  refine chunksOfFile_eq_map hc hg fun z' => ?_
  rw [ht, chunk_withUpload]
  constructor
  · rintro ⟨⟨z, hz, hzz'⟩, hf⟩
    by_cases hzf : z.fileID = f
    · rw [if_pos hzf] at hzz'
      exact ⟨z, ⟨chunk_id hz ▸ hz, hzf⟩, Option.some.inj hzz'⟩
    · rw [if_neg hzf] at hzz'
      cases hzz'
      exact absurd hf hzf
  · rintro ⟨z, ⟨hz, hf⟩, rfl⟩
    exact ⟨⟨z, (hg z).id ▸ hz, by rw [if_pos hf]⟩, (hg z).fileID.trans hf⟩

lemma maxChunkEnd_map (hg : ∀ z, SamePlace z (g z)) (chunks : List ChunkMetadata) :
    maxChunkEnd (chunks.map g) = maxChunkEnd chunks := by
  rw [maxChunkEnd, foldl_map]
  simp only [(hg _).offset, (hg _).size]
  rfl

end AstraStorage.Proofs
