import AstraStorage.Proofs.StoreNamespaceSpec
import AstraStorage.Proofs.StoreUploadSpec

/-!
# What the checks of the upload calls decide

The helper functions of the upload calls read the state and either pass or fail. Each one
is read here as the condition under which it passes.
-/

namespace AstraStorage.Proofs
open Lib Store Service

variable {s : MemoryState} {file : FileMetadata} {f : FileID} {k : ChunkID} {y : UploadSession}
  {storedSize : Int64}

@[simp] lemma yields_validateChecksumShape :
    Yields (validateChecksumShape checksum) s u t ↔
      (∀ c ∈ checksum, c.verified = true → c.verifiedAt ≠ none) ∧ t = s := by
  cases checksum with
  | none => simp [validateChecksumShape]
  | some c => simp [validateChecksumShape, Option.isNone_iff_eq_none]

@[simp] lemma yields_rejectFileStatus :
    Yields (rejectFileStatus expected file format) s u t ↔
      (expected = [] ∨ file.status ∈ expected) ∧ t = s := by
  simp only [rejectFileStatus, yields_reject]
  refine and_congr_left fun _ => ?_
  tauto

@[simp] lemma yields_currentStoredSize :
    Yields (currentStoredSize f) s size t ↔ size = maxChunkEnd (chunksOfFile s f) ∧ t = s := by
  simp only [currentStoredSize, yields_read_bind (fun _ _ => yields_listChunksByFile),
    exists_eq_left, yields_pure]

def NoActiveSession (c : Catalog) (f : FileID) : Prop :=
  ∀ k y, c.session k = some y → y.fileID = f → isTerminalUploadStatus y.status = true

@[simp] lemma yields_ensureNoActiveUploadSession :
    Yields (ensureNoActiveUploadSession f) s u t ↔ NoActiveSession (catalog s) f ∧ t = s := by
  simp only [ensureNoActiveUploadSession,
    yields_read_bind (fun _ _ => yields_listUploadSessionsByFile), exists_eq_left, yields_reject]
  refine and_congr_left fun _ => ?_
  rw [Bool.not_eq_true, Option.isSome_eq_false_iff, Option.isNone_iff_eq_none, List.find?_eq_none]
  simp only [Bool.not_eq_false, decide_eq_true_eq, NoActiveSession]
  constructor
  · intro h k y hy hf
    obtain rfl := session_id hy
    exact h y (mem_sessionsOfFile.mpr ⟨hy, hf⟩)
  · intro h y hy
    obtain ⟨hstored, hf⟩ := mem_sessionsOfFile.mp hy
    exact h y.id y hstored hf

def Covers : Int64 → List ChunkMetadata → Int64 → Prop
  | next, [], stop => stop = next
  | next, z :: rest, stop => z.offset = next ∧ (rest ≠ [] → z.size = fixedChunkSizeBytes) ∧
      (z.status ≠ .corrupted ∧ z.status ≠ .failed) ∧ Covers (next + z.size) rest stop

@[simp] lemma yields_chunkCoverage :
    Yields (chunkCoverage file next chunks) s stop t ↔ Covers next chunks stop ∧ t = s := by
  induction chunks generalizing next with
  | nil => simp [chunkCoverage, Covers]
  | cons z rest ih =>
    simp only [chunkCoverage, Covers, yields_reject_bind, ih, ne_eq, not_not, not_and, not_or,
      and_assoc]

structure Verifiable (s : MemoryState) (file : FileMetadata) (y : UploadSession)
    (storedSize : Int64) : Prop where
  chunks : chunksOfFile s file.id ≠ []
  stored : storedSize = expectedFileSize file y
  covers : Covers 0 (chunksOfFile s file.id) (expectedFileSize file y)

@[simp] lemma yields_ensureFileReadyForVerification :
    Yields (ensureFileReadyForVerification file y storedSize) s u t ↔
      Verifiable s file y storedSize ∧ t = s := by
  simp only [ensureFileReadyForVerification,
    yields_read_bind (fun _ _ => yields_listChunksByFile), exists_eq_left, yields_reject_bind,
    yields_read_bind (fun _ _ => yields_chunkCoverage), yields_reject, ne_eq, not_not]
  constructor
  · rintro ⟨hne, hstored, _, hcovers, rfl, rfl⟩
    exact ⟨⟨hne, hstored, hcovers⟩, rfl⟩
  · rintro ⟨h, rfl⟩
    exact ⟨h.chunks, h.stored, _, h.covers, rfl, rfl⟩

def Servable (file : FileMetadata) (z : ChunkMetadata) : Prop :=
  checksumReady z.checksum = true ∧ requiredReplicas file ≤ healthyReplicaCount z.replicas

@[simp] lemma yields_ensureFileReadyForAvailability :
    Yields (ensureFileReadyForAvailability file y storedSize) s u t ↔
      (Verifiable s file y storedSize ∧ ∀ z ∈ chunksOfFile s file.id, Servable file z) ∧
        t = s := by
  have hround : ∀ z ∈ chunksOfFile s file.id, ∀ v r, Yields (do
      reject (checksumReady z.checksum = false) .conflict "chunk %q checksum is not verified"
        [.text z.id]
      reject (healthyReplicaCount z.replicas < requiredReplicas file) .conflict
        "chunk %q does not satisfy minimum readable replicas" [.text z.id]) s v r ↔
      Servable file z ∧ r = s := by
    intro z _ v r
    simp only [yields_reject_bind, yields_reject, Bool.not_eq_false, not_lt, Servable, and_assoc]
  simp only [ensureFileReadyForAvailability,
    yields_read_bind (fun _ _ => yields_listChunksByFile), exists_eq_left,
    yields_read_bind (fun _ _ => yields_ensureFileReadyForVerification), List.forM_eq_forM,
    yields_forM_check hround]
  constructor
  · rintro ⟨⟨⟩, hv, hs, rfl⟩
    exact ⟨⟨hv, hs⟩, rfl⟩
  · rintro ⟨⟨hv, hs⟩, rfl⟩
    exact ⟨(), hv, hs, rfl⟩

def ReplicaFits (f : FileID) (k : ChunkID) (nodeID : NodeID) (replica : ReplicaMetadata) : Prop :=
  nodeID ≠ "" ∧ (replica.nodeID = "" ∨ replica.nodeID = nodeID) ∧
    (replica.fileID = "" ∨ replica.fileID = f) ∧ (replica.chunkID = "" ∨ replica.chunkID = k)

def ReplicasFit (replicas : ReplicaSet) (f : FileID) (k : ChunkID) : Prop :=
  ∀ table ∈ replicas, ∀ e ∈ table.entries, ReplicaFits f k e.1 e.2

lemma fill_eq_iff : (if a = "" then b else a) = b ↔ a = "" ∨ a = b := by
  by_cases ha : a = ""
  · simp [ha]
  · simp [ha]

lemma normalizeReplica_spec :
    (∀ a t, Yields (normalizeReplica f k nodeID replica) s a t →
      ReplicaFits f k nodeID replica ∧ t = s) ∧
    (ReplicaFits f k nodeID replica → ∃ a, Yields (normalizeReplica f k nodeID replica) s a s) := by
  simp only [normalizeReplica, yields_reject_bind, yields_pure, ne_eq, not_not, fill_eq_iff]
  constructor
  · rintro a t ⟨hn, h1, h2, h3, _, rfl⟩
    exact ⟨⟨hn, h1, h2, h3⟩, rfl⟩
  · rintro ⟨hn, h1, h2, h3⟩
    exact ⟨_, hn, h1, h2, h3, rfl, trivial⟩

lemma normalizeReplicas_spec (entries : List (Sigma fun _ : NodeID => ReplicaMetadata))
    (acc : Table NodeID ReplicaMetadata) :
    (∀ a t, Yields (normalizeReplicas f k entries acc) s a t →
      (∀ e ∈ entries, ReplicaFits f k e.1 e.2) ∧ t = s) ∧
    ((∀ e ∈ entries, ReplicaFits f k e.1 e.2) →
      ∃ a, Yields (normalizeReplicas f k entries acc) s a s) := by
  induction entries generalizing acc with
  | nil => simp [normalizeReplicas]
  | cons e entries ih =>
    obtain ⟨nodeID, replica⟩ := e
    constructor
    · intro a t h
      obtain ⟨replica', r, hone, hrest⟩ := yields_bind.mp h
      obtain ⟨hfits, rfl⟩ := normalizeReplica_spec.1 _ _ hone
      obtain ⟨hall, rfl⟩ := (ih _).1 _ _ hrest
      exact ⟨List.forall_mem_cons.mpr ⟨hfits, hall⟩, rfl⟩
    · intro hall
      rw [List.forall_mem_cons] at hall
      obtain ⟨replica', hone⟩ := normalizeReplica_spec.2 hall.1
      obtain ⟨a, hrest⟩ := (ih (acc.insert nodeID replica')).2 hall.2
      exact ⟨a, yields_bind.mpr ⟨replica', s, hone, hrest⟩⟩

lemma normalizeChunkReplicas_spec :
    (∀ a t, Yields (normalizeChunkReplicas replicas f k) s a t →
      ReplicasFit replicas f k ∧ t = s) ∧
    (ReplicasFit replicas f k → ∃ a, Yields (normalizeChunkReplicas replicas f k) s a s) := by
  cases replicas with
  | none => simp [normalizeChunkReplicas, ReplicasFit]
  | some table =>
    constructor
    · intro a t h
      obtain ⟨normalized, r, hall, hpure⟩ := yields_bind.mp h
      obtain ⟨hfits, rfl⟩ := (normalizeReplicas_spec table.entries ∅).1 _ _ hall
      refine ⟨?_, (yields_pure.mp hpure).2⟩
      intro table' htable
      obtain rfl := Option.some.inj htable
      exact hfits
    · intro h
      obtain ⟨normalized, hall⟩ := (normalizeReplicas_spec table.entries ∅).2 (h table rfl)
      exact ⟨some normalized, yields_bind.mpr ⟨normalized, s, hall, yields_pure.mpr ⟨rfl, rfl⟩⟩⟩

end AstraStorage.Proofs
