import AstraStorage.Lib.Forest
import AstraStorage.Lib.Outcomes
import AstraStorage.Model.Calls

/-!
# What a state means

A `Catalog` is the abstract repository: six partial functions from IDs to records. The lookups of
the store, its guards and its writes are read here as facts about the catalog.
-/

namespace AstraStorage.Proofs
open Lib Store Service Records

variable {s : MemoryState} {i : InodeID} {c : Prop}

@[ext] structure Catalog where
  inode : InodeID → Option InodeMetadata
  file : FileID → Option FileMetadata
  chunk : ChunkID → Option ChunkMetadata
  session : UploadSessionID → Option UploadSession
  node : NodeID → Option NodeInfo
  plan : ReplicaPlanID → Option ReplicaPlan

def catalog (s : MemoryState) : Catalog where
  inode := s.inodes.lookup
  file := s.files.lookup
  chunk := s.chunks.lookup
  session := s.uploadSessions.lookup
  node := s.nodes.lookup
  plan := s.replicaPlans.lookup

lemma sameRecords_iff : SameRecords s t ↔ catalog t = catalog s := by
  constructor
  · rintro ⟨hi, hf, hc, hu, hn, hp⟩
    simp [catalog, hi, hf, hc, hu, hn, hp]
  · intro h
    simp only [catalog, Catalog.mk.injEq] at h
    exact ⟨h.1, h.2.1, h.2.2.1, h.2.2.2.1, h.2.2.2.2.1, h.2.2.2.2.2⟩

section Blocks

variable {α : Type}

@[simp] lemma yields_fail : Yields (fail kind format args : StoreM α) s a t ↔ False := by
  simp [fail]

@[simp] lemma yields_reject [Decidable c] :
    Yields (reject c kind format args) s u t ↔ ¬c ∧ t = s := by
  simp [reject]

@[simp] lemma yields_expect : Yields (expect v kind format args) s a t ↔ v = some a ∧ t = s := by
  cases v with
  | none => simp [expect]
  | some b => simp [expect, eq_comm]

lemma yields_reject_bind [Decidable c] {f : Unit → StoreM α} :
    Yields (reject c kind format args >>= f) s a t ↔ ¬c ∧ Yields (f ()) s a t := by
  rw [yields_read_bind (fun _ _ => yields_reject)]
  constructor
  · rintro ⟨⟨⟩, h⟩
    exact h
  · exact fun h => ⟨(), h⟩

lemma yields_expect_bind {β : Type} {v : Option β} {f : β → StoreM α} :
    Yields (expect v kind format args >>= f) s a t ↔ ∃ b, v = some b ∧ Yields (f b) s a t :=
  yields_read_bind fun _ _ => yields_expect

lemma yields_get_bind {f : MemoryState → StoreM α} :
    Yields (get >>= f) s a t ↔ Yields (f s) s a t := by
  simp

@[simp] lemma yields_inTx : Yields (inTx x) s a t ↔ Yields x s a t := by
  unfold Yields inTx
  cases h : x s <;> simp

lemma returns_inTx : Returns (inTx x) s ↔ Returns x s := by
  simp [Returns]

@[simp] lemma yields_putInode :
    Yields (putInode x) s u t ↔ t = { s with inodes := s.inodes.put x } := by
  simp [putInode]

@[simp] lemma yields_putFile :
    Yields (putFile x) s u t ↔ t = { s with files := s.files.put x } := by
  simp [putFile]

@[simp] lemma yields_putChunk :
    Yields (putChunk x) s u t ↔ t = { s with chunks := s.chunks.put x } := by
  simp [putChunk]

@[simp] lemma yields_putUploadSession :
    Yields (putUploadSession x) s u t ↔
      t = { s with uploadSessions := s.uploadSessions.put x } := by
  simp [putUploadSession]

@[simp] lemma yields_putNode :
    Yields (putNode x) s u t ↔ t = { s with nodes := s.nodes.put x } := by
  simp [putNode]

end Blocks

section Lookups

lemma findInode_id (h : i ≠ "") : findInode s { id := i } = (catalog s).inode i := by
  simp [findInode, h, catalog]

lemma findFile_id (h : f ≠ "") : findFile s { id := f } = (catalog s).file f := by
  simp [findFile, h, catalog]

lemma findChunk_id (h : k ≠ "") : findChunk s { id := k } = (catalog s).chunk k := by
  simp [findChunk, h, catalog]

lemma findFile_inodeID (hi : i ≠ "") (h : findFile s { inodeID := i } = some file) :
    (catalog s).file file.id = some file ∧ file.inodeID = i := by
  have hp := List.find?_some h
  have hm := List.mem_of_find?_eq_some h
  simp only [hi, decide_false, Bool.false_or, decide_true, Bool.true_or, Bool.and_true,
    Option.all_none, decide_eq_true_eq] at hp
  exact ⟨mem_values.mp hm, hp⟩

lemma inode_id (h : (catalog s).inode i = some x) : x.id = i :=
  key_of_lookup h

lemma file_id (h : (catalog s).file f = some x) : x.id = f :=
  key_of_lookup h

lemma chunk_id (h : (catalog s).chunk k = some x) : x.id = k :=
  key_of_lookup h

lemma session_id (h : (catalog s).session k = some x) : x.id = k :=
  key_of_lookup h

lemma nameTaken_iff :
    nameTaken s parentID name excludeID = true ↔
      ∃ i x, (catalog s).inode i = some x ∧ x.parentID = parentID ∧ x.name = name ∧
        i ≠ excludeID ∧ x.status ≠ .deleted := by
  simp only [nameTaken, List.any_eq_true, Bool.and_eq_true, decide_eq_true_eq, ne_eq]
  constructor
  · rintro ⟨x, hx, ⟨⟨hp, hn⟩, he⟩, hd⟩
    exact ⟨x.id, x, mem_values.mp hx, hp, hn, he, hd⟩
  · rintro ⟨i, x, hx, hp, hn, he, hd⟩
    obtain rfl := inode_id hx
    exact ⟨x, mem_values.mpr hx, ⟨⟨hp, hn⟩, he⟩, hd⟩

end Lookups

def parentOf (c : Catalog) (i : InodeID) : Option InodeID := (c.inode i).map (·.parentID)

lemma parentOf_eq_some {c : Catalog} :
    parentOf c i = some p ↔ ∃ x, c.inode i = some x ∧ x.parentID = p := by
  simp [parentOf]

lemma isDescendantLoop_sound
    (h : isDescendantLoop s ancestorID rounds (s.inodes.lookup candidateID) = some b) :
    b = true ↔ Below (parentOf (catalog s)) candidateID ancestorID := by
  induction rounds generalizing candidateID <;> cases hc : s.inodes.lookup candidateID
  case zero.none | succ.none =>
    have hnone : parentOf (catalog s) candidateID = none := by simp [parentOf, catalog, hc]
    simp only [hc, isDescendantLoop, Option.some.injEq] at h
    simp [← h, not_below_of_none hnone]
  case zero.some => simp [hc, isDescendantLoop] at h
  case succ.some rounds ih x =>
    have hup : parentOf (catalog s) candidateID = some x.parentID := by
      simp [parentOf, catalog, hc]
    rw [below_iff_of_some hup]
    simp only [hc, isDescendantLoop] at h
    by_cases hp : x.parentID = ancestorID
    · simp only [hp, if_true, Option.some.injEq] at h
      simp [← h, hp]
    · simp only [hp, if_false] at h
      simp [hp, ih h]

lemma isDescendantLoop_returns (h : Leaves (parentOf (catalog s)) n candidateID) (hn : n ≤ rounds) :
    (isDescendantLoop s ancestorID rounds (s.inodes.lookup candidateID)).isSome := by
  induction h generalizing rounds with
  | @out c h =>
    have hc : s.inodes.lookup c = none := by simpa [parentOf, catalog] using h
    cases rounds <;> simp [hc, isDescendantLoop]
  | @up n c p h _ ih =>
    obtain ⟨x, hx, rfl⟩ := parentOf_eq_some.mp h
    have hx' : s.inodes.lookup c = some x := hx
    cases rounds with
    | zero => omega
    | succ rounds =>
      rw [hx', isDescendantLoop]
      by_cases hp : x.parentID = ancestorID
      · simp [hp]
      · simp only [hp, if_false]
        exact ih (by omega)

lemma yields_isDescendant (h : Yields (isDescendant s candidateID ancestorID) r b t) :
    (b = true ↔ Below (parentOf (catalog s)) candidateID ancestorID) ∧ t = r := by
  unfold isDescendant at h
  cases hl : isDescendantLoop s ancestorID s.inodes.size (s.inodes.lookup candidateID) with
  | none => simp [hl] at h
  | some b' =>
    simp only [hl, yields_pure] at h
    obtain ⟨rfl, rfl⟩ := h
    exact ⟨isDescendantLoop_sound hl, rfl⟩

lemma leaves_le_size (h : Leaves (parentOf (catalog s)) n i) : n ≤ s.inodes.size := by
  have hkeys : ∀ i, parentOf (catalog s) i ≠ none → i ∈ s.inodes.values.map InodeMetadata.id := by
    intro i hi
    apply mem_keys_of_lookup
    intro hnone
    exact hi (by simp [parentOf, catalog, hnone])
  have hlength := h.le_length hkeys
  rw [List.length_map] at hlength
  exact hlength

/-- From where the parents lead out of the table the loop ends, and with more rounds it says the
same. -/
theorem isDescendantLoop_decides (hz : (catalog s).inode z = none)
    (h : Climbs (parentOf (catalog s)) candidateID z) (ancestorID : InodeID) :
    ∃ b, (∀ rounds, s.inodes.size ≤ rounds →
        isDescendantLoop s ancestorID rounds (s.inodes.lookup candidateID) = some b) ∧
      (b = true ↔ Below (parentOf (catalog s)) candidateID ancestorID) := by
  have hz' : parentOf (catalog s) z = none := by simp [parentOf, hz]
  obtain ⟨n, hn⟩ := exists_leaves hz' h
  have hsome : ∀ rounds, s.inodes.size ≤ rounds →
      ∃ b, isDescendantLoop s ancestorID rounds (s.inodes.lookup candidateID) = some b :=
    fun rounds hrounds => Option.isSome_iff_exists.mp
      (isDescendantLoop_returns hn ((leaves_le_size hn).trans hrounds))
  obtain ⟨b, hb⟩ := hsome _ le_rfl
  refine ⟨b, fun rounds hrounds => ?_, isDescendantLoop_sound hb⟩
  obtain ⟨b', hb'⟩ := hsome rounds hrounds
  have hsame : b' = true ↔ b = true :=
    (isDescendantLoop_sound hb').trans (isDescendantLoop_sound hb).symm
  rw [hb', Bool.eq_iff_iff.mpr hsame]

end AstraStorage.Proofs
