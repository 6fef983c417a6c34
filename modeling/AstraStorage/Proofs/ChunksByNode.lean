import AstraStorage.Proofs.PostgresChunks
import Mathlib.Data.List.Dedup

/-!
# The chunks of a node in Postgres

With an alias before the columns that both joined tables define, the query of `listChunksByNode`
returns the list of the in-memory repository. The source puts no alias before any of them, and
`chunkColumns` has nine such names.
-/

namespace AstraStorage.Proofs
open Lib Store Allocator List Records
open Postgres (ChunkTables ChunkRow scanChunk loadChunkReplicas joinedOnNode ambiguous)

variable {owner : String → ChunkID × NodeID} {s : MemoryState} {d : ChunkTables} {n : NodeID}
  {chunks others : List ChunkMetadata}

def FileAndIndex (z w : ChunkMetadata) : Prop :=
  z.fileID < w.fileID ∨ (z.fileID = w.fileID ∧ z.index ≤ w.index)

instance : DecidableRel FileAndIndex := fun _ _ => inferInstanceAs (Decidable (_ ∨ _))

instance : Std.Total FileAndIndex where
  total z w := by
    rcases lt_trichotomy z.fileID w.fileID with h | h | h
    · exact .inl (.inl h)
    · exact (Int64.le_total z.index w.index).imp (.inr ⟨h, ·⟩) (.inr ⟨h.symm, ·⟩)
    · exact .inr (.inl h)

instance : IsTrans ChunkMetadata FileAndIndex where
  trans z w v := by
    rintro (h | ⟨h, hle⟩) (h' | ⟨h', hle'⟩)
    · exact .inl (h.trans h')
    · exact .inl (h' ▸ h)
    · exact .inl (h ▸ h')
    · exact .inr ⟨h.trans h', Int64.le_trans hle hle'⟩

structure OnNode (d : ChunkTables) (n : NodeID) (chunks : List ChunkMetadata) : Prop where
  listed : ∀ k, k ∈ chunks.map ChunkMetadata.id ↔
    (d.chunks.lookup k).isSome ∧ (d.replicas.lookup (k, n)).isSome
  stored : ∀ z ∈ chunks, (d.chunks.lookup z.id).map scanChunk = some (bareChunk z)
  replicas : ∀ z ∈ chunks, ∀ m, replicaOn z.replicas m = d.replicas.lookup (z.id, m)
  nodup : (chunks.map ChunkMetadata.id).Nodup

lemma OnNode.perm (h : OnNode d n chunks) (hperm : others.Perm chunks) : OnNode d n others where
  listed k := (hperm.map _).mem_iff.trans (h.listed k)
  stored z hz := h.stored z (hperm.mem_iff.mp hz)
  replicas z hz := h.replicas z (hperm.mem_iff.mp hz)
  nodup := (hperm.map _).nodup_iff.mpr h.nodup

lemma onNode_joined (d : ChunkTables) (n : NodeID) :
    OnNode d n ((joinedOnNode d n).dedup.map fun row => loadChunkReplicas d (scanChunk row)) := by
  have hmem (row : ChunkRow) : row ∈ (joinedOnNode d n).dedup ↔
      d.chunks.lookup row.id = some row ∧ (d.replicas.lookup (row.id, n)).isSome := by
    simp only [joinedOnNode, mem_dedup, mem_flatMap, mem_map, mem_filter, decide_eq_true_eq,
      Option.isSome_iff_exists, lookup_eq_some (k := (row.id, n)), mem_values]
    constructor
    · rintro ⟨c, hc, r, ⟨hr, hkey⟩, rfl⟩
      exact ⟨hc, r, hr, Prod.ext hkey.1 hkey.2⟩
    · rintro ⟨hrow, r, hr, hkey⟩
      exact ⟨row, hrow, r, ⟨hr, congrArg Prod.fst hkey, congrArg Prod.snd hkey⟩, rfl⟩
  constructor
  · intro k
    simp only [map_map, mem_map, hmem, Option.isSome_iff_exists]
    constructor
    · rintro ⟨row, ⟨hrow, hreplica⟩, rfl⟩
      exact ⟨⟨row, hrow⟩, hreplica⟩
    · rintro ⟨⟨row, hrow⟩, hreplica⟩
      obtain rfl := (lookup_eq_some.mp hrow).2
      exact ⟨row, ⟨hrow, hreplica⟩, rfl⟩
  · intro z hz
    obtain ⟨row, hrow, rfl⟩ := mem_map.mp hz
    exact congrArg (Option.map scanChunk) ((hmem row).mp hrow).1
  · intro z hz m
    obtain ⟨row, -, rfl⟩ := mem_map.mp hz
    exact replicaOn_loadChunkReplicas rfl m
  · rw [map_map]
    refine (nodup_dedup _).map_on fun a ha b hb hid => ?_
    have hrow := ((hmem a).mp ha).1
    rw [show a.id = b.id from hid, ((hmem b).mp hb).1] at hrow
    exact (Option.some.inj hrow).symm

lemma onNode_memory (h : Represents owner s d) : OnNode d n (s.chunks.values.filter fun chunk =>
    chunk.replicas.any fun replicas => (replicas.lookup n).isSome) := by
  have hreplica (z : ChunkMetadata) (hz : s.chunks.lookup z.id = some z) (m : NodeID) :
      replicaOn z.replicas m = d.replicas.lookup (z.id, m) := by
    rw [h.replica, hz, Option.bind_some]
  have hany (z : ChunkMetadata) : (z.replicas.any fun replicas => (replicas.lookup n).isSome) =
      (replicaOn z.replicas n).isSome := by
    cases z.replicas with
    | none | some replicas => rfl
  constructor
  · intro k
    simp only [mem_map, mem_filter, mem_values, hany]
    constructor
    · rintro ⟨z, ⟨hz, hon⟩, rfl⟩
      obtain ⟨row, hrow, -⟩ := h.row hz
      exact ⟨Option.isSome_iff_exists.mpr ⟨row, hrow⟩, hreplica z hz n ▸ hon⟩
    · rintro ⟨hrow, hon⟩
      obtain ⟨row, hrow⟩ := Option.isSome_iff_exists.mp hrow
      obtain ⟨z, hz, -⟩ := h.record hrow
      obtain ⟨-, rfl⟩ := lookup_eq_some.mp hz
      exact ⟨z, ⟨hz, hreplica z hz n ▸ hon⟩, rfl⟩
  · intro z hz
    have hz := mem_values.mp (mem_filter.mp hz).1
    rw [h.chunk, hz]
    rfl
  · exact fun z hz => hreplica z (mem_values.mp (mem_filter.mp hz).1)
  · exact s.chunks.nodup.sublist (filter_sublist.map _)

lemma FileAndIndex.antisymm (h : FileAndIndex z w) (h' : FileAndIndex w z) :
    z.fileID = w.fileID ∧ z.index = w.index := by
  rcases h, h' with ⟨h | ⟨h, hle⟩, h' | ⟨h', hle'⟩⟩
  · exact absurd h' h.not_gt
  · exact absurd h'.symm h.ne
  · exact absurd h.symm h'.ne
  · exact ⟨h, Int64.le_antisymm hle hle'⟩

lemma OnNode.bare (hw : OnNode d n chunks) (hz : OnNode d n others) (h : z ∈ others) :
    bareChunk z ∈ chunks.map bareChunk := by
  obtain ⟨w, hmem, hid⟩ := mem_map.mp ((hw.listed z.id).mpr ((hz.listed z.id).mp
    (mem_map_of_mem h)))
  refine mem_map.mpr ⟨w, hmem, ?_⟩
  have hstored := hz.stored z h
  rw [← hid, hw.stored w hmem] at hstored
  exact Option.some.inj hstored

lemma OnNode.same (h : Represents owner s d) (hz : OnNode d n others) (hw : OnNode d n chunks)
    (hzs : others.Pairwise FileAndIndex) (hws : chunks.Pairwise FileAndIndex) :
    Forall₂ SameChunk others chunks := by
  have hbare : others.map bareChunk = chunks.map bareChunk := by
    have hnodup {l : List ChunkMetadata} (hl : OnNode d n l) : (l.map bareChunk).Nodup := by
      refine List.Nodup.of_map ChunkMetadata.id ?_
      rw [map_map]
      exact hl.nodup
    have hrecord {l : List ChunkMetadata} (hl : OnNode d n l) (v) (hv : v ∈ l) :
        ∃ v', s.chunks.lookup v.id = some v' ∧ bareChunk v' = bareChunk v :=
      Option.map_eq_some_iff.mp ((h.chunk v.id).symm.trans (hl.stored v hv))
    have hzs' : (others.map bareChunk).Pairwise FileAndIndex := pairwise_map.mpr hzs
    have hws' : (chunks.map bareChunk).Pairwise FileAndIndex := pairwise_map.mpr hws
    refine List.Perm.eq_of_pairwise ?_ hzs' hws'
      ((perm_ext_iff_of_nodup (hnodup hz) (hnodup hw)).mpr fun c => ⟨?_, ?_⟩)
    · intro a b ha hb hab hba
      obtain ⟨z, hza, rfl⟩ := mem_map.mp ha
      obtain ⟨w, hwb, rfl⟩ := mem_map.mp hb
      obtain ⟨z', hz', hzz⟩ := hrecord hz z hza
      obtain ⟨w', hw', hww⟩ := hrecord hw w hwb
      obtain ⟨hfile, hindex⟩ := FileAndIndex.antisymm hab hba
      rw [← hzz, ← hww] at hfile hindex ⊢
      rw [h.index _ _ z' w' hz' hw' hfile hindex, hw'] at hz'
      rw [Option.some.inj hz']
    · intro hc
      obtain ⟨z, hmem, rfl⟩ := mem_map.mp hc
      exact hw.bare hz hmem
    · intro hc
      obtain ⟨w, hmem, rfl⟩ := mem_map.mp hc
      exact hz.bare hw hmem
  have hfields : Forall₂ (fun z w => bareChunk z = bareChunk w) others chunks := by
    refine forall₂_map_left_iff.mp (forall₂_map_right_iff.mp ?_)
    rw [hbare, forall₂_eq_eq_eq]
  rw [forall₂_iff_zip] at hfields ⊢
  refine ⟨hfields.1, fun {z w} hmem => ⟨hfields.2 hmem, fun m => ?_⟩⟩
  obtain ⟨hza, hwb⟩ := of_mem_zip hmem
  have hid : z.id = w.id := (congrArg ChunkMetadata.id (hfields.2 hmem) :)
  rw [hz.replicas z hza, hw.replicas w hwb, hid]

def ListsByNode (qualified : String → Bool) (n : NodeID) (d : ChunkTables) : Prop :=
  ∃ chunks, Yields (Postgres.chunksByNode qualified n) d chunks d ∧ OnNode d n chunks ∧
    chunks.Pairwise FileAndIndex ∧ ∀ owner s, Represents owner s d →
      ∃ others, Yields (Store.listChunksByNode n) s others s ∧ Forall₂ SameChunk others chunks

lemma ambiguous_eq_false : ambiguous qualified = false ↔
    ∀ name ∈ Postgres.chunkColumns, name ∈ Postgres.replicaColumns → qualified name = true := by
  simp only [ambiguous, any_eq_false, Bool.and_eq_true, Bool.not_eq_true', contains_iff_mem,
    not_and', Bool.not_eq_false]

/-- The query lists the chunks of a node exactly if it has the alias before each column of both
tables. That of the source has none, so it fails for every node and all contents of the tables. -/
theorem listsByNode_iff (qualified : String → Bool) (n : NodeID) (d : ChunkTables) :
    (ListsByNode qualified n d ↔ ∀ name ∈ Postgres.chunkColumns,
      name ∈ Postgres.replicaColumns → qualified name = true) ∧
    Postgres.listChunksByNode n d =
      .error (.database (.other "column reference is ambiguous")) d := by
  refine ⟨?_, rfl⟩
  rw [← ambiguous_eq_false]
  cases hambiguous : ambiguous qualified with
  | true =>
    refine iff_of_false ?_ Bool.true_eq_false.mp
    rintro ⟨chunks, h, -⟩
    rw [Postgres.chunksByNode, Postgres.selectByNode, if_pos hambiguous] at h
    cases h
  | false =>
    refine iff_of_true ?_ rfl
    have hsorted := map_insertionSort (fun a b => FileAndIndex (scanChunk a) (scanChunk b))
      FileAndIndex (fun row => loadChunkReplicas d (scanChunk row)) (joinedOnNode d n).dedup
      fun _ _ _ _ => Iff.rfl
    have honNode := (onNode_joined d n).perm (perm_insertionSort FileAndIndex _)
    refine ⟨_, ?_, honNode, pairwise_insertionSort _ _, fun owner s h => ⟨_, rfl, ?_⟩⟩
    · rw [Postgres.chunksByNode, Postgres.selectByNode, hambiguous, if_neg Bool.false_ne_true,
        ← hsorted]
      rfl
    · exact ((onNode_memory h).perm (perm_insertionSort _ _)).same h honNode
        (pairwise_insertionSort _ _) (pairwise_insertionSort _ _)

/-- The query of the source, on empty tables. -/
theorem listChunksByNode_ambiguous :
    Yields (Store.listChunksByNode "n") {} [] {} ∧
      Postgres.listChunksByNode "n" {} =
        .error (.database (.other "column reference is ambiguous")) {} := by
  refine ⟨rfl, ?_⟩
  rfl

end AstraStorage.Proofs
