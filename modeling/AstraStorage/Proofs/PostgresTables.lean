import AstraStorage.Lib.Lockstep
import AstraStorage.Model.PostgresChunks
import AstraStorage.Proofs.BatchUpserts
import AstraStorage.Proofs.RepairSpec

/-!
# Chunks in memory and in tables

`Represents` says when tables hold what a memory state holds, and for each statement of the Postgres
repository what it makes of the tables.
-/

namespace AstraStorage.Proofs
open Lib Store Allocator Function List Records Postgres
open Postgres (ChunkTables ChunkRow FitsColumns FitsInteger scanChunk chunkRow replicaRow
  replicaKey timestamptz storedChecksum loadChunkReplicas selectedChunk)

variable {z : ChunkMetadata} {r : ReplicaMetadata} {selector : ChunkSelector} {d : ChunkTables}
  {k : ChunkID} {n : NodeID}

def OnMicrosecond (t : Time) : Prop := t % 1000 = 0

instance (t : Time) : Decidable (OnMicrosecond t) := inferInstanceAs (Decidable (t % 1000 = 0))

lemma timestamptz_eq_self (h : OnMicrosecond t) : timestamptz t = t := by
  rw [timestamptz, show t % 1000 = 0 from h, Int.sub_zero]

lemma map_timestamptz_eq_self {t : Option Time} (h : ∀ x ∈ t, OnMicrosecond x) :
    t.map timestamptz = t := by
  cases t with
  | none => rfl
  | some x => rw [Option.map_some, timestamptz_eq_self (h x rfl)]

def ExactChecksum (checksum : Checksum) : Prop := ∀ t ∈ checksum.verifiedAt, OnMicrosecond t

instance (checksum : Checksum) : Decidable (ExactChecksum checksum) :=
  inferInstanceAs (Decidable (∀ t ∈ checksum.verifiedAt, OnMicrosecond t))

lemma storedChecksum_eq_self {checksum : Checksum} (h : ExactChecksum checksum) :
    storedChecksum checksum = checksum := by
  unfold storedChecksum
  rw [map_timestamptz_eq_self h]

@[mk_iff] structure ExactChunk (z : ChunkMetadata) : Prop where
  texts : ∀ text ∈ (chunkRow z).texts, IsText text
  counts : FitsColumns z.replicaPolicy z.replicaCount
  checksum : ExactChecksum z.checksum
  createdAt : OnMicrosecond z.createdAt
  updatedAt : OnMicrosecond z.updatedAt
  verifiedAt : ∀ t ∈ z.verifiedAt, OnMicrosecond t

instance (z : ChunkMetadata) : Decidable (ExactChunk z) :=
  decidable_of_iff _ (exactChunk_iff z).symm

@[mk_iff] structure ExactReplica (k : ChunkID) (n : NodeID) (r : ReplicaMetadata) : Prop where
  chunkID : r.chunkID = k
  nodeID : r.nodeID = n
  texts : ∀ text ∈ replicaTexts r, IsText text
  checksum : ExactChecksum r.checksum
  createdAt : OnMicrosecond r.createdAt
  updatedAt : OnMicrosecond r.updatedAt
  verifiedAt : ∀ t ∈ r.verifiedAt, OnMicrosecond t

instance (k : ChunkID) (n : NodeID) (r : ReplicaMetadata) : Decidable (ExactReplica k n r) :=
  decidable_of_iff _ (exactReplica_iff k n r).symm

def bareChunk (z : ChunkMetadata) : ChunkMetadata := { z with replicas := none }

lemma scanChunk_chunkRow (h : ExactChunk z) : scanChunk (chunkRow z) = bareChunk z := by
  simp only [scanChunk, chunkRow, bareChunk, storedChecksum_eq_self h.checksum,
    timestamptz_eq_self h.createdAt, timestamptz_eq_self h.updatedAt,
    map_timestamptz_eq_self h.verifiedAt]

lemma replicaRow_eq_self {k : ChunkID} (h : ExactReplica k n r) : replicaRow k n r = r := by
  simp only [replicaRow, storedChecksum_eq_self h.checksum, timestamptz_eq_self h.createdAt,
    timestamptz_eq_self h.updatedAt, map_timestamptz_eq_self h.verifiedAt, ← h.chunkID, ← h.nodeID]

section Rows

lemma mem_replicaRows : r ∈ Postgres.replicaRows d k ↔ r ∈ d.replicas.values ∧ r.chunkID = k := by
  simp [replicaRows, mem_insertionSort]

lemma nodup_nodes (d : ChunkTables) (k : ChunkID) :
    ((d.replicas.values.filter (·.chunkID = k)).map (·.nodeID)).Nodup := by
  have hkeys : ((d.replicas.values.filter (·.chunkID = k)).map replicaKey).Nodup :=
    d.replicas.nodup.sublist (filter_sublist.map replicaKey)
  refine List.Nodup.of_map (fun node => (k, node)) ?_
  rw [map_map]
  convert hkeys using 1
  refine map_congr_left fun r hr => ?_
  have hk : r.chunkID = k := by simpa using (mem_filter.mp hr).2
  simp [replicaKey, hk]

lemma replicaOn_foldl {rows : List ReplicaMetadata} (hnodup : (rows.map (·.nodeID)).Nodup)
    (replicas : ReplicaSet) (n : NodeID) :
    replicaOn (rows.foldl (fun replicas row => some ((replicas.getD ∅).insert row.nodeID row))
      replicas) n = (rows.find? (·.nodeID = n)).or (replicaOn replicas n) := by
  induction rows generalizing replicas with
  | nil => rfl
  | cons row rows ih =>
    rw [map_cons, nodup_cons] at hnodup
    rw [foldl_cons, ih hnodup.2]
    by_cases hn : row.nodeID = n
    · subst hn
      have hnone : rows.find? (·.nodeID = row.nodeID) = none := by
        rw [find?_eq_none]
        intro r hr heq
        exact hnodup.1 (of_decide_eq_true heq ▸ mem_map_of_mem hr)
      rw [hnone, find?_cons_of_pos (by simp)]
      exact AList.lookup_insert _
    · rw [find?_cons_of_neg (by simpa using hn)]
      congr 1
      change ((replicas.getD ∅).insert row.nodeID row).lookup n = _
      rw [AList.lookup_insert_ne (Ne.symm hn), lookup_replicas]

lemma replicaOn_loadChunkReplicas (hz : z.replicas = none) (n : NodeID) :
    replicaOn (loadChunkReplicas d z).replicas n = d.replicas.lookup (z.id, n) := by
  have hperm : (replicaRows d z.id).Perm (d.replicas.values.filter (·.chunkID = z.id)) :=
    perm_insertionSort _ _
  have hnodup := (hperm.map (·.nodeID)).nodup_iff.mpr (nodup_nodes d z.id)
  change replicaOn (foldl _ z.replicas _) n = _
  rw [hz, replicaOn_foldl hnodup]
  change (find? _ _).or none = _
  cases hfind : (replicaRows d z.id).find? (·.nodeID = n) with
  | some r =>
    obtain ⟨hr, hk⟩ := mem_replicaRows.mp (mem_of_find?_eq_some hfind)
    have hn : r.nodeID = n := by simpa using find?_some hfind
    refine (lookup_eq_some.mpr ⟨hr, ?_⟩).symm
    rw [replicaKey, hk, hn]
  | none =>
    cases hlookup : d.replicas.lookup (z.id, n) with
    | none => rfl
    | some r =>
      obtain ⟨hr, hkey⟩ := lookup_eq_some.mp hlookup
      simp only [replicaKey, Prod.mk.injEq] at hkey
      have hmem := mem_replicaRows.mpr ⟨hr, hkey.1⟩
      exact absurd (decide_eq_true hkey.2) (find?_eq_none.mp hfind r hmem)

lemma length_replicaRows (replicas : Table NodeID ReplicaMetadata)
    (h : ∀ n, replicas.lookup n = d.replicas.lookup (k, n)) :
    (d.replicas.values.filter (·.chunkID = k)).length = Table.size replicas := by
  rw [Table.size_eq_length_keys, ← length_map]
  refine List.Perm.length_eq ?_
  refine (perm_ext_iff_of_nodup (nodup_nodes d k) replicas.keys_nodup).mpr fun n => ?_
  rw [Table.mem_keys, h, mem_map]
  constructor
  · rintro ⟨r, hr, rfl⟩
    obtain ⟨hr, hk⟩ := mem_filter.mp hr
    have hk : r.chunkID = k := by simpa using hk
    have hlookup : d.replicas.lookup (k, r.nodeID) = some r :=
      lookup_eq_some.mpr ⟨hr, by rw [replicaKey, hk]⟩
    rw [hlookup]
    rfl
  · intro hsome
    obtain ⟨r, hr⟩ := Option.isSome_iff_exists.mp hsome
    obtain ⟨hr, hkey⟩ := lookup_eq_some.mp hr
    simp only [replicaKey, Prod.mk.injEq] at hkey
    exact ⟨r, mem_filter.mpr ⟨hr, by simpa using hkey.1⟩, hkey.2⟩

end Rows

section Statements

lemma yields_failWith [Decidable c] (hc : ¬c) : Yields (Postgres.failWith c e) d ⟨⟩ d := by
  unfold failWith
  rw [if_neg hc]
  rfl

lemma yields_rejectCall [Decidable c] {format : String} (hc : ¬c) : Yields
    (Postgres.rejectCall c kind format args) d ⟨⟩ d := by
  unfold rejectCall
  rw [if_neg hc]
  rfl

lemma yields_sendTexts (h : ∀ text ∈ texts, IsText text) : Yields (sendTexts texts) d ⟨⟩ d :=
  yields_failWith fun ⟨text, hmem, hnul⟩ => hnul (h text hmem)

lemma yields_getTables : Yields (get : Postgres.ChunkM ChunkTables) d d d := rfl

lemma yields_insertChunk (htexts : ∀ text ∈ row.texts, IsText text)
    (hfits : FitsColumns row.replicaPolicy row.replicaCount)
    (hfile : (d.files.lookup row.fileID).isSome)
    (hindex : ∀ other ∈ d.chunks.values, other.id ≠ row.id → other.fileID = row.fileID →
      other.chunkIndex ≠ row.chunkIndex) :
    Yields (Postgres.insertChunk row) d ⟨⟩ { d with chunks := d.chunks.put row } := by
  refine (yields_sendTexts htexts).bind_iff.mpr
    ((yields_failWith (not_not_intro hfits)).bind_iff.mpr (yields_getTables.bind_iff.mpr ?_))
  refine (yields_failWith ?_).bind_iff.mpr ((yields_failWith ?_).bind_iff.mpr rfl)
  · rintro ⟨other, hmem, hne, hf, hi⟩
    exact hindex other hmem hne hf hi
  · simpa [Option.isSome_iff_ne_none] using hfile

lemma yields_ensureNodesExist (htexts : ∀ n ∈ nodeIDs, IsText n)
    (h : ∀ n ∈ nodeIDs, (d.nodes.lookup n).isSome) :
    Yields (Postgres.ensureNodesExist nodeIDs updatedAt) d ⟨⟩ d := by
  induction nodeIDs with
  | nil => rfl
  | cons n nodeIDs ih =>
    have hfirst : Yields (if n = "" then pure ⟨⟩ else insertNode n updatedAt) d ⟨⟩ d := by
      by_cases hn : n = ""
      · rw [if_pos hn]
        rfl
      · rw [if_neg hn, insertNode, (yields_sendTexts (forall_mem_singleton.mpr
          (htexts n mem_cons_self))).bind_iff, yields_modify, if_pos (h n mem_cons_self)]
    exact hfirst.bind_iff.mpr (ih (fun m hm => htexts m (mem_cons_of_mem n hm))
      fun m hm => h m (mem_cons_of_mem n hm))

lemma yields_insertReplicas {owner : String → ChunkID × NodeID}
    {entries : List (Sigma fun _ : NodeID => ReplicaMetadata)}
    (hkeys : entries.NodupKeys) (hchunk : (d.chunks.lookup k).isSome)
    (hnode : ∀ e ∈ entries, (d.nodes.lookup e.1).isSome)
    (hfits : ∀ e ∈ entries, ExactReplica k e.1 e.2)
    (hnew : ∀ e ∈ entries, owner e.2.id = (k, e.1))
    (howned : ∀ key r, d.replicas.lookup key = some r → owner r.id = key) :
    ∃ replicas : Records replicaKey,
      Yields (entries.forM fun e => Postgres.insertReplica (replicaRow k e.1 e.2)) d ⟨⟩
        { d with replicas := replicas } ∧
      ∀ l n, replicas.lookup (l, n) = if l = k then (entries.dlookup n).or (d.replicas.lookup (l, n))
        else d.replicas.lookup (l, n) := by
  induction entries generalizing d with
  | nil =>
    refine ⟨d.replicas, rfl, fun l n => ?_⟩
    rw [dlookup_nil, Option.none_or, ite_self]
  | cons e entries ih =>
    obtain ⟨hfirst, hkeys⟩ := nodupKeys_cons.mp hkeys
    rw [forall_mem_cons] at hnode hfits hnew
    have hkey : replicaKey e.2 = (k, e.1) := by
      rw [replicaKey, hfits.1.chunkID, hfits.1.nodeID]
    have hput : (d.replicas.put e.2).lookup = update d.replicas.lookup (k, e.1) (some e.2) := by
      rw [lookup_put, hkey]
    have hinsert : Yields (insertReplica e.2) d ⟨⟩
        { d with replicas := d.replicas.put e.2 } := by
      refine (yields_sendTexts hfits.1.texts).bind_iff.mpr (yields_getTables.bind_iff.mpr
        ((yields_failWith ?_).bind_iff.mpr ((yields_failWith ?_).bind_iff.mpr
          ((yields_failWith ?_).bind_iff.mpr rfl))))
      · rintro ⟨other, hmem, hne, hid⟩
        have hother := howned _ other (mem_values.mp hmem)
        rw [hid, hnew.1] at hother
        exact hne (hother.symm.trans hkey.symm)
      · rw [hfits.1.chunkID]
        simpa [Option.isSome_iff_ne_none] using hchunk
      · rw [hfits.1.nodeID]
        simpa [Option.isSome_iff_ne_none] using hnode.1
    obtain ⟨replicas, hrest, hlookup⟩ := ih (d := { d with replicas := d.replicas.put e.2 }) hkeys
      hchunk hnode.2 hfits.2 hnew.2 (by
        intro key r hr
        rw [hput, update_some_eq_some] at hr
        rcases hr with ⟨rfl, rfl⟩ | ⟨-, hr⟩
        · exact hnew.1
        · exact howned key r hr)
    refine ⟨replicas, ?_, fun l n => ?_⟩
    · rw [forM_eq_forM, forM_cons, replicaRow_eq_self hfits.1]
      exact hinsert.bind_iff.mpr hrest
    · rw [hlookup, hput]
      by_cases hl : l = k
      · subst hl
        rw [if_pos rfl, if_pos rfl]
        by_cases hn : n = e.1
        · subst hn
          rw [dlookup_eq_none.mpr hfirst, dlookup_cons_eq, update_self]
          rfl
        · have hne : (l, n) ≠ (l, e.1) := fun heq => hn (congrArg Prod.snd heq)
          rw [update_of_ne hne, dlookup_cons_ne _ _ hn]
      · have hne : (l, n) ≠ (k, e.1) := fun heq => hl (congrArg Prod.fst heq)
        rw [if_neg hl, if_neg hl, update_of_ne hne]

lemma yields_deleteReplica (h : IsText n) :
    Yields (Postgres.deleteReplica k n) d ⟨⟩ { d with replicas := d.replicas.erase (k, n) } :=
  (yields_sendTexts (forall_mem_singleton.mpr h)).bind_iff.mpr rfl

lemma yields_deleteReplicas {nodeIDs : List NodeID} (htexts : ∀ n ∈ nodeIDs, IsText n) :
    ∃ replicas : Records replicaKey,
      Yields (nodeIDs.forM (Postgres.deleteReplica k)) d ⟨⟩ { d with replicas := replicas } ∧
      ∀ l n, replicas.lookup (l, n) = if l = k ∧ n ∈ nodeIDs then none else d.replicas.lookup (l, n) := by
  induction nodeIDs generalizing d with
  | nil => exact ⟨d.replicas, rfl, fun l n => by simp⟩
  | cons m nodeIDs ih =>
    rw [forall_mem_cons] at htexts
    obtain ⟨replicas, hrest, hlookup⟩ := ih htexts.2
    refine ⟨replicas, ?_, fun l n => ?_⟩
    · rw [forM_eq_forM]
      exact (yields_deleteReplica htexts.1).bind_iff.mpr hrest
    · rw [hlookup, lookup_erase]
      by_cases hm : (l, n) = (k, m)
      · cases hm
        simp
      · rw [update_of_ne hm]
        have hiff : (l = k ∧ n ∈ nodeIDs) ↔ (l = k ∧ n ∈ m :: nodeIDs) := by
          rw [mem_cons]
          constructor
          · rintro ⟨hl, hn⟩
            exact ⟨hl, Or.inr hn⟩
          · rintro ⟨rfl, rfl | hn⟩
            · exact absurd rfl hm
            · exact ⟨rfl, hn⟩
        simp only [hiff]

lemma yields_updateChunkRow (hrow : d.chunks.lookup k = some row) :
    Yields (Postgres.updateChunkRow k assign) d ⟨⟩
      { d with chunks := d.chunks.put (assign row) } := by
  rw [updateChunkRow, yields_modify, hrow]

section

variable (hselector : ¬(selector.id = "" ∧ selector.fileID = "" ∧ selector.index = none))
  (htexts : ∀ text ∈ [selector.id, selector.fileID], IsText text)
include hselector htexts

lemma yields_selectChunk (hfind : d.chunks.values.find? (selectedChunk selector) = some row) :
    Yields (Postgres.getChunk selector) d (loadChunkReplicas d (scanChunk row)) d := by
  refine (yields_rejectCall hselector).bind_iff.mpr ((yields_sendTexts htexts).bind_iff.mpr
    (yields_getTables.bind_iff.mpr ?_))
  rw [hfind]
  rfl

lemma selectChunk_missing (hfind : d.chunks.values.find? (selectedChunk selector) = none) :
    Postgres.getChunk selector d = .error (.store ⟨.notFound, "chunk", []⟩) d := by
  unfold Postgres.getChunk Postgres.rejectCall
  have hget : (MonadState.get : Postgres.ChunkM ChunkTables) d = .ok d d := rfl
  rw [if_neg hselector, pure_bind, bind_of_ok (yields_sendTexts htexts), bind_of_ok hget, hfind]
  rfl

end

lemma yields_getChunk_id (hk : k ≠ "") (htext : IsText k) (hrow : d.chunks.lookup k = some row) :
    Yields (Postgres.getChunk { id := k }) d (loadChunkReplicas d (scanChunk row)) d := by
  have hselected : selectedChunk { id := k } = fun row : ChunkRow => decide (row.id = k) := by
    funext row
    simp [selectedChunk, hk]
  have hfind : d.chunks.values.find? (selectedChunk { id := k }) = some row := by
    rw [hselected]
    exact hrow
  have hempty : IsText "" := by decide
  exact yields_selectChunk (fun h => hk h.1)
    (forall_mem_cons.mpr ⟨htext, forall_mem_singleton.mpr hempty⟩) hfind

lemma yields_updateReplicas {owner : String → ChunkID × NodeID} {w : ChunkMetadata}
    (patch : ChunkReplicaPatch) (replicas : Table NodeID ReplicaMetadata)
    (hget : Yields (Postgres.getChunk patch.selector) d w d)
    (hrow : d.chunks.lookup w.id = some row)
    (hnode : ∀ e ∈ (patch.upserts.getD ∅).entries, (d.nodes.lookup e.1).isSome)
    (hfits : ∀ e ∈ (patch.upserts.getD ∅).entries, ExactReplica w.id e.1 e.2)
    (hremoved : ∀ n ∈ patch.removeNodeIDs, IsText n)
    (hnew : ∀ e ∈ (patch.upserts.getD ∅).entries, owner e.2.id = (w.id, e.1))
    (howned : ∀ key r, d.replicas.lookup key = some r → owner r.id = key)
    (hreplicas : ∀ n, replicas.lookup n = if n ∈ patch.removeNodeIDs then none
      else (replicaOn patch.upserts n).or (d.replicas.lookup (w.id, n)))
    (hcounts : FitsColumns (patch.replicaPolicy.getD w.replicaPolicy)
      (patch.replicaCount.getD (Table.size replicas))) :
    ∃ rows : Records replicaKey,
      Yields (Postgres.updateChunkReplicas patch) d ⟨⟩
        { d with
          replicas := rows
          chunks := d.chunks.put { row with
            replicaCount := patch.replicaCount.getD (Table.size replicas)
            replicaPolicy := patch.replicaPolicy.getD w.replicaPolicy
            updatedAt := timestamptz patch.updatedAt } } ∧
      ∀ l n, rows.lookup (l, n) = if l = w.id then replicas.lookup n else d.replicas.lookup (l, n) := by
  have hchunk : (d.chunks.lookup w.id).isSome := by rw [hrow]; rfl
  obtain ⟨inserted, hinsert, hinserted⟩ := yields_insertReplicas
    (patch.upserts.getD ∅).nodupKeys hchunk hnode hfits hnew howned
  obtain ⟨rows, hdelete, hdeleted⟩ := yields_deleteReplicas (k := w.id)
    (d := { d with replicas := inserted }) hremoved
  have hlookup : ∀ l n, rows.lookup (l, n) =
      if l = w.id then replicas.lookup n else d.replicas.lookup (l, n) := by
    intro l n
    rw [hdeleted, hinserted]
    by_cases hl : l = w.id
    · subst hl
      simp only [true_and, if_true, hreplicas, ← lookup_replicas]
      rfl
    · simp only [hl, false_and, if_false]
  have hcount : Yields (patchedReplicaCount patch w.id) { d with replicas := rows }
      (patch.replicaCount.getD (Table.size replicas)) { d with replicas := rows } := by
    unfold patchedReplicaCount
    cases patch.replicaCount with
    | some count => rfl
    | none =>
      have hlength := length_replicaRows (d := { d with replicas := rows }) replicas
        (fun n => by rw [hlookup, if_pos rfl])
      rw [← hlength]
      rfl
  refine ⟨rows, hget.bind_iff.mpr ?_, hlookup⟩
  refine (yields_ensureNodesExist ?_ ?_).bind_iff.mpr ?_
  · intro n hn
    obtain ⟨e, he, rfl⟩ := mem_map.mp hn
    exact (hfits e he).nodeID ▸ (hfits e he).texts _ (by simp [replicaTexts])
  · intro n hn
    obtain ⟨e, he, rfl⟩ := mem_map.mp hn
    exact hnode e he
  · refine hinsert.bind_iff.mpr (hdelete.bind_iff.mpr (hcount.bind_iff.mpr ?_))
    exact (yields_failWith (not_not_intro hcounts)).bind_iff.mpr (yields_updateChunkRow hrow)

end Statements

end AstraStorage.Proofs
