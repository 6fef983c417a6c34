import AstraStorage.Proofs.Chunks
import AstraStorage.Proofs.PostgresTables

/-!
# The same chunks in Postgres and in memory

The chunk calls on the Postgres repository follow those on the in-memory one, call by call, as
long as no call falls into one of their differences.
-/

namespace AstraStorage.Proofs
open Lib Store Allocator List Function Records Table
open Postgres (ChunkTables ChunkRow ChunkCall FitsColumns FitsInteger IsText scanChunk chunkRow
  replicaKey statusTexts timestamptz storedChecksum loadChunkReplicas selectedChunk)

variable {r : ReplicaMetadata} {updatedAt : Time} {chunks : List ChunkMetadata}

/-! ### Equal states and equal answers -/

structure Represents (owner : String → ChunkID × NodeID) (s : MemoryState) (d : ChunkTables) :
    Prop where
  file : ∀ f, (d.files.lookup f).isSome = (s.files.lookup f).isSome
  node : ∀ n, (s.nodes.lookup n).isSome → (d.nodes.lookup n).isSome
  chunk : ∀ k, (d.chunks.lookup k).map scanChunk = (s.chunks.lookup k).map bareChunk
  replica : ∀ k n, d.replicas.lookup (k, n) = (s.chunks.lookup k).bind (replicaOn ·.replicas n)
  exact : ∀ k z, s.chunks.lookup k = some z → ExactChunk z
  index : ∀ k l z w, s.chunks.lookup k = some z → s.chunks.lookup l = some w →
    z.fileID = w.fileID → z.index = w.index → k = l
  owned : ∀ key r, d.replicas.lookup key = some r → owner r.id = key

structure SameChunk (z w : ChunkMetadata) : Prop where
  fields : bareChunk z = bareChunk w
  replicas : ∀ n, replicaOn z.replicas n = replicaOn w.replicas n

def SameKind : Fault → Postgres.TxError → Prop
  | .error e, .store e' => e.kind = e'.kind
  | _, _ => False

def AtPlace (selector : ChunkSelector) (z : ChunkMetadata) : Prop :=
  (selector.fileID = "" ∨ z.fileID = selector.fileID) ∧ ∀ index ∈ selector.index, z.index = index

instance (selector : ChunkSelector) (z : ChunkMetadata) : Decidable (AtPlace selector z) :=
  @instDecidableAnd _ _ inferInstance (Option.decidableForallMem _)

@[mk_iff] structure Clear (s : MemoryState) (selector : ChunkSelector) : Prop where
  nonempty : ¬(selector.id = "" ∧ selector.fileID = "" ∧ selector.index = none)
  texts : ∀ text ∈ [selector.id, selector.fileID], IsText text
  named : selector.id ≠ "" → ∀ z ∈ s.chunks.values, z.id = selector.id → AtPlace selector z
  single : selector.id = "" → ∀ z ∈ s.chunks.values, ∀ w ∈ s.chunks.values,
    AtPlace selector z → AtPlace selector w → z.id = w.id

instance (s : MemoryState) (selector : ChunkSelector) : Decidable (Clear s selector) :=
  decidable_of_iff _ (clear_iff s selector).symm

structure SameAnswers (s : MemoryState) (d : ChunkTables) : Prop where
  getChunk : ∀ selector, Clear s selector →
    Lockstep (fun e _ e' _ => SameKind e e') (fun z _ w _ => SameChunk z w)
      (Store.getChunk selector) s (Postgres.getChunk selector) d
  listChunksByFile : ∀ f, IsText f →
    Lockstep (fun e _ e' _ => SameKind e e') (fun zs _ ws _ => List.Forall₂ SameChunk zs ws)
      (Store.listChunksByFile f) s (Postgres.listChunksByFile f) d

variable {owner : String → ChunkID × NodeID} {s : MemoryState} {d d' : ChunkTables}
  {selector : ChunkSelector} {z w : ChunkMetadata} {k : ChunkID} {n : NodeID}

/-! ### Reading -/

def Sought (selector : ChunkSelector) (z : ChunkMetadata) : Prop :=
  if selector.id ≠ "" then z.id = selector.id else AtPlace selector z

lemma all_index_iff {index : Option Int64} :
    index.all (z.index = ·) = true ↔ ∀ i ∈ index, z.index = i := by
  cases index with
  | none | some i => simp

lemma mem_of_findChunk (h : findChunk s selector = some z) :
    z ∈ s.chunks.values ∧ Sought selector z := by
  unfold findChunk at h
  unfold Sought
  split at h
  · rename_i hid
    rw [if_pos hid]
    exact lookup_eq_some.mp h
  · rename_i hid
    rw [if_neg hid]
    refine ⟨mem_of_find?_eq_some h, ?_⟩
    have hp := find?_some h
    rw [Bool.and_eq_true, Bool.or_eq_true, decide_eq_true_eq, decide_eq_true_eq, all_index_iff] at hp
    exact hp

lemma not_sought_of_findChunk_none (h : findChunk s selector = none) (hz : z ∈ s.chunks.values) :
    ¬Sought selector z := by
  unfold findChunk at h
  unfold Sought
  split at h
  · rename_i hid
    rw [if_pos hid]
    intro hk
    rw [← hk, mem_values.mp hz] at h
    cases h
  · rename_i hid
    rw [if_neg hid]
    intro hp
    refine find?_eq_none.mp h z hz ?_
    rw [Bool.and_eq_true, Bool.or_eq_true, decide_eq_true_eq, decide_eq_true_eq, all_index_iff]
    exact hp

lemma row_place (hrow : scanChunk row = bareChunk z) :
    row.id = z.id ∧ row.fileID = z.fileID ∧ row.chunkIndex = z.index ∧ row.chunkOffset = z.offset :=
  ⟨(congrArg ChunkMetadata.id hrow :), (congrArg ChunkMetadata.fileID hrow :),
    (congrArg ChunkMetadata.index hrow :), (congrArg ChunkMetadata.offset hrow :)⟩

lemma selectedChunk_iff {row : ChunkRow} (hrow : scanChunk row = bareChunk z) :
    selectedChunk selector row = true ↔
      (selector.id = "" ∨ z.id = selector.id) ∧ AtPlace selector z := by
  obtain ⟨hid, hfile, hindex, -⟩ := row_place hrow
  unfold selectedChunk
  rw [Bool.and_eq_true, Bool.and_eq_true, Bool.or_eq_true, Bool.or_eq_true, hid, hfile, hindex,
    all_index_iff, decide_eq_true_eq, decide_eq_true_eq, decide_eq_true_eq, decide_eq_true_eq,
    and_assoc]
  rfl

lemma Clear.sought_iff (h : Clear s selector) (hz : z ∈ s.chunks.values) :
    Sought selector z ↔ (selector.id = "" ∨ z.id = selector.id) ∧ AtPlace selector z := by
  unfold Sought
  by_cases hid : selector.id = ""
  · simp [hid]
  · rw [if_pos hid]
    constructor
    · intro hk
      exact ⟨.inr hk, h.named hid z hz hk⟩
    · rintro ⟨hk, -⟩
      exact hk.resolve_left hid

lemma Clear.eq_of_sought (h : Clear s selector) (hz : z ∈ s.chunks.values)
    (hw : w ∈ s.chunks.values) (hsz : Sought selector z) (hsw : Sought selector w) : z = w := by
  have hid : z.id = w.id := by
    unfold Sought at hsz hsw
    by_cases hid : selector.id = ""
    · rw [if_neg (not_not_intro hid)] at hsz hsw
      exact h.single hid z hz w hw hsz hsw
    · rw [if_pos hid] at hsz hsw
      exact hsz.trans hsw.symm
  have hlookup := mem_values.mp hz
  rw [hid, mem_values.mp hw] at hlookup
  exact (Option.some.inj hlookup).symm

namespace Represents

section

variable (h : Represents owner s d)
include h

lemma row (hz : s.chunks.lookup k = some z) :
    ∃ row, d.chunks.lookup k = some row ∧ scanChunk row = bareChunk z := by
  have hk := h.chunk k
  rw [hz] at hk
  exact Option.map_eq_some_iff.mp hk

lemma record {row : ChunkRow} (hrow : d.chunks.lookup k = some row) :
    ∃ z, s.chunks.lookup k = some z ∧ scanChunk row = bareChunk z := by
  have hk := h.chunk k
  rw [hrow] at hk
  obtain ⟨z, hz, heq⟩ := Option.map_eq_some_iff.mp hk.symm
  exact ⟨z, hz, heq.symm⟩

lemma sameChunk (hz : s.chunks.lookup z.id = some z) :
    SameChunk z (loadChunkReplicas d (bareChunk z)) := by
  refine ⟨rfl, fun n => ?_⟩
  rw [replicaOn_loadChunkReplicas rfl]
  change _ = d.replicas.lookup (z.id, n)
  rw [h.replica, hz]
  rfl

lemma select (hclear : Clear s selector) :
    (∃ z, findChunk s selector = some z ∧ s.chunks.lookup z.id = some z ∧
      Yields (Postgres.getChunk selector) d (loadChunkReplicas d (bareChunk z)) d) ∨
    (findChunk s selector = none ∧
      Postgres.getChunk selector d = .error (.store ⟨.notFound, "chunk", []⟩) d) := by
  cases hfind : findChunk s selector with
  | some z =>
    obtain ⟨hmem, hsought⟩ := mem_of_findChunk hfind
    have hz := mem_values.mp hmem
    obtain ⟨row, hrow, hscan⟩ := h.row hz
    obtain ⟨hrowmem, -⟩ := lookup_eq_some.mp hrow
    have hselected := (selectedChunk_iff hscan).mpr ((hclear.sought_iff hmem).mp hsought)
    -- another row that matches would be the row of the same chunk
    have hrow' : d.chunks.values.find? (selectedChunk selector) = some row := by
      cases hf : d.chunks.values.find? (selectedChunk selector) with
      | none => exact absurd hselected (find?_eq_none.mp hf row hrowmem)
      | some row' =>
        have hlookup' := mem_values.mp (mem_of_find?_eq_some hf)
        obtain ⟨w, hw, hscan'⟩ := h.record hlookup'
        have hwmem := (lookup_eq_some.mp hw).1
        have hsought' := (hclear.sought_iff hwmem).mpr
          ((selectedChunk_iff hscan').mp (find?_some hf))
        obtain rfl := hclear.eq_of_sought hmem hwmem hsought hsought'
        rw [(row_place hscan').1, hrow] at hlookup'
        rw [Option.some.inj hlookup']
    refine .inl ⟨z, rfl, hz, ?_⟩
    rw [← hscan]
    exact yields_selectChunk hclear.nonempty hclear.texts hrow'
  | none =>
    refine .inr ⟨rfl, selectChunk_missing hclear.nonempty hclear.texts (find?_eq_none.mpr ?_)⟩
    intro row hrowmem hselected
    obtain ⟨z, hz, hscan⟩ := h.record (mem_values.mp hrowmem)
    have hmem := (lookup_eq_some.mp hz).1
    exact not_sought_of_findChunk_none hfind hmem
      ((hclear.sought_iff hmem).mpr ((selectedChunk_iff hscan).mp hselected))

lemma listed (f : FileID) :
    ((d.chunks.values.filter (·.fileID = f)).insertionSort (·.chunkIndex ≤ ·.chunkIndex)).map
      scanChunk = (chunksOfFile s f).map bareChunk := by
  have hmem : ∀ c, c ∈ ((d.chunks.values.filter (·.fileID = f)).insertionSort
      (·.chunkIndex ≤ ·.chunkIndex)).map scanChunk ↔ c ∈ (chunksOfFile s f).map bareChunk := by
    intro c
    simp only [mem_map, mem_insertionSort, mem_filter, decide_eq_true_eq,
      mem_chunksOfFile]
    constructor
    · rintro ⟨row, ⟨hrow, hf⟩, rfl⟩
      obtain ⟨z, hz, hscan⟩ := h.record (mem_values.mp hrow)
      obtain ⟨hid, hfile, -⟩ := row_place hscan
      exact ⟨z, ⟨hid ▸ hz, hfile.symm.trans hf⟩, hscan.symm⟩
    · rintro ⟨z, ⟨hz, hf⟩, rfl⟩
      obtain ⟨row, hrow, hscan⟩ := h.row hz
      exact ⟨row, ⟨(lookup_eq_some.mp hrow).1, (row_place hscan).2.1.trans hf⟩, hscan⟩
  have hnodup : (((d.chunks.values.filter (·.fileID = f)).insertionSort
      (·.chunkIndex ≤ ·.chunkIndex)).map scanChunk).Nodup := by
    refine List.Nodup.of_map ChunkMetadata.id ?_
    rw [map_map]
    refine ((perm_insertionSort _ _).map _).nodup_iff.mpr ?_
    exact d.chunks.nodup.sublist (filter_sublist.map ChunkRow.id)
  have hnodup' : ((chunksOfFile s f).map bareChunk).Nodup := by
    refine List.Nodup.of_map ChunkMetadata.id ?_
    rw [map_map]
    exact nodup_chunksOfFile f
  have hsorted : (((d.chunks.values.filter (·.fileID = f)).insertionSort
      (·.chunkIndex ≤ ·.chunkIndex)).map scanChunk).Pairwise (·.index ≤ ·.index) :=
    pairwise_map.mpr (pairwise_insertionSort _ _)
  have hsorted' : ((chunksOfFile s f).map bareChunk).Pairwise (·.index ≤ ·.index) :=
    pairwise_map.mpr (sorted_chunksOfFile s f)
  refine List.Perm.eq_of_pairwise ?_ hsorted hsorted'
    ((perm_ext_iff_of_nodup hnodup hnodup').mpr hmem)
  -- no two chunks of the file share an index
  intro a b ha hb hab hba
  obtain ⟨z, hz, rfl⟩ := mem_map.mp ((hmem a).mp ha)
  obtain ⟨w, hw, rfl⟩ := mem_map.mp hb
  obtain ⟨hz, hzf⟩ := mem_chunksOfFile.mp hz
  obtain ⟨hw, hwf⟩ := mem_chunksOfFile.mp hw
  have hid := h.index _ _ z w hz hw (hzf.trans hwf.symm) (Int64.le_antisymm hab hba)
  rw [hid, hw] at hz
  rw [Option.some.inj hz]

theorem sameAnswers : SameAnswers s d := by
  constructor
  · intro selector hclear
    rcases h.select hclear with ⟨z, hfind, hz, hget⟩ | ⟨hfind, hget⟩
    · exact .of_yields (yields_getChunk_selector.mpr ⟨hfind, rfl⟩) hget (h.sameChunk hz)
    · have hmiss : Store.getChunk selector s = .error (.error ⟨.notFound, "chunk", []⟩) s := by
        change expect (findChunk s selector) _ _ _ s = _
        rw [hfind]
        rfl
      exact .of_errors hmiss hget rfl
  · intro f htext
    have hmemory : Yields (Store.listChunksByFile f) s (chunksOfFile s f) s := rfl
    have hpostgres : Yields (Postgres.listChunksByFile f) d
        ((chunksOfFile s f).map fun z => loadChunkReplicas d (bareChunk z)) d := by
      have hlisted := congrArg (map (loadChunkReplicas d)) (h.listed f)
      rw [map_map, map_map] at hlisted
      exact (yields_sendTexts (forall_mem_singleton.mpr htext)).bind_iff.mpr
        (yields_pure.mpr ⟨hlisted.symm, rfl⟩)
    refine .of_yields hmemory hpostgres ?_
    rw [forall₂_map_right_iff, forall₂_same]
    intro z hz
    exact h.sameChunk (mem_chunksOfFile.mp hz).1

end

end Represents

/-! ### Writing -/

namespace Represents

section

variable (h : Represents owner s d)
include h

lemma put {row : ChunkRow} (hfiles : d'.files = d.files) (hnodes : d'.nodes = d.nodes)
    (hchunks : d'.chunks.lookup = Function.update d.chunks.lookup z.id (some row))
    (hrow : scanChunk row = bareChunk z)
    (hreplicas : ∀ k n, d'.replicas.lookup (k, n) =
      if k = z.id then replicaOn z.replicas n else d.replicas.lookup (k, n))
    (hexact : ExactChunk z)
    (hindex : ∀ k w, s.chunks.lookup k = some w → k ≠ z.id → w.fileID = z.fileID → w.index ≠ z.index)
    (howned : ∀ n r, replicaOn z.replicas n = some r → owner r.id = (z.id, n)) :
    Represents owner { s with chunks := s.chunks.put z } d' := by
  constructor
  · rw [hfiles]
    exact h.file
  · rw [hnodes]
    exact h.node
  · intro k
    rw [hchunks, lookup_put]
    by_cases hk : k = z.id
    · rw [hk, update_self, update_self, Option.map_some, Option.map_some, hrow]
    · rw [update_of_ne hk, update_of_ne hk]
      exact h.chunk k
  · intro k n
    rw [hreplicas, lookup_put]
    by_cases hk : k = z.id
    · rw [if_pos hk, hk, update_self]
      rfl
    · rw [if_neg hk, update_of_ne hk]
      exact h.replica k n
  · intro k w hw
    rw [lookup_put, update_some_eq_some] at hw
    rcases hw with ⟨-, rfl⟩ | ⟨-, hw⟩
    · exact hexact
    · exact h.exact k w hw
  · intro k l x w hx hw hf hi
    rw [lookup_put, update_some_eq_some] at hx hw
    rcases hx with ⟨rfl, rfl⟩ | ⟨hk, hx⟩
    · rcases hw with ⟨rfl, -⟩ | ⟨hl, hw⟩
      · rfl
      · exact absurd hi.symm (hindex l w hw hl hf.symm)
    · rcases hw with ⟨rfl, rfl⟩ | ⟨hl, hw⟩
      · exact absurd hi (hindex k x hx hk hf)
      · exact h.index k l x w hx hw hf hi
  · rintro ⟨k, n⟩ r hr
    rw [hreplicas] at hr
    by_cases hk : k = z.id
    · rw [if_pos hk] at hr
      rw [hk]
      exact howned n r hr
    · rw [if_neg hk] at hr
      exact h.owned (k, n) r hr

lemma update {row : ChunkRow} (hz : s.chunks.lookup z.id = some z) (hid : w.id = z.id)
    (hfile : w.fileID = z.fileID) (hat : w.index = z.index) (hfiles : d'.files = d.files)
    (hnodes : d'.nodes = d.nodes) (hchunks : d'.chunks = d.chunks.put row)
    (hrow : scanChunk row = bareChunk w)
    (hreplicas : ∀ k n, d'.replicas.lookup (k, n) =
      if k = z.id then replicaOn w.replicas n else d.replicas.lookup (k, n))
    (hexact : ExactChunk w)
    (howned : ∀ n r, replicaOn w.replicas n = some r → owner r.id = (z.id, n)) :
    Represents owner { s with chunks := s.chunks.put w } d' := by
  refine h.put hfiles hnodes ?_ hrow ?_ hexact ?_ ?_
  · rw [hchunks, lookup_put, (row_place hrow).1]
  · rw [hid]
    exact hreplicas
  · intro k x hx hk hf hi
    rw [hid] at hk
    exact hk (h.index k z.id x z hx hz (hf.trans hfile) (hi.trans hat))
  · rw [hid]
    exact howned

section

variable (hz : s.chunks.lookup k = some z)
include hz

lemma owned_replicaOn (hr : replicaOn z.replicas n = some r) : owner r.id = (k, n) := by
  refine h.owned (k, n) r ?_
  rw [h.replica, hz]
  exact hr

lemma replica_of_stored (l : ChunkID) (n : NodeID) :
    d.replicas.lookup (l, n) =
      if l = k then replicaOn z.replicas n else d.replicas.lookup (l, n) := by
  by_cases hl : l = k
  · rw [if_pos hl, hl, h.replica, hz]
    rfl
  · rw [if_neg hl]

lemma replica_erased (hreplicas : z.replicas = some replicas) (l : ChunkID) (m : NodeID) :
    (d.replicas.erase (k, n)).lookup (l, m) =
      if l = k then (replicas.erase n).lookup m else d.replicas.lookup (l, m) := by
  rw [lookup_erase]
  by_cases hl : l = k
  · subst hl
    rw [if_pos rfl]
    by_cases hm : m = n
    · rw [hm, update_self, AList.lookup_erase]
    · have hne : (l, m) ≠ (l, n) := fun heq => hm (congrArg Prod.snd heq)
      rw [update_of_ne hne, AList.lookup_erase_ne hm, h.replica, hz]
      change replicaOn z.replicas m = _
      rw [hreplicas]
      rfl
  · have hne : (l, m) ≠ (k, n) := fun heq => hl (congrArg Prod.fst heq)
    rw [if_neg hl, update_of_ne hne]

end

lemma erase (k : ChunkID) : Represents owner { s with chunks := s.chunks.erase k }
      { d with
        chunks := d.chunks.erase k
        replicas := d.replicas.filter (·.chunkID ≠ k) } := by
  have hreplicas : ∀ l n, (d.replicas.filter (·.chunkID ≠ k)).lookup (l, n) =
      if l = k then none else d.replicas.lookup (l, n) := by
    intro l n
    rw [lookup_filter]
    cases hr : d.replicas.lookup (l, n) with
    | none => simp
    | some r =>
      have hkey := key_of_lookup hr
      simp only [replicaKey, Prod.mk.injEq] at hkey
      by_cases hl : l = k
      · simp [Option.filter, hkey.1, hl]
      · simp [Option.filter, hkey.1, hl]
  constructor
  · exact h.file
  · exact h.node
  · intro l
    rw [lookup_erase, lookup_erase]
    by_cases hl : l = k
    · rw [hl, update_self, update_self]
      rfl
    · rw [update_of_ne hl, update_of_ne hl]
      exact h.chunk l
  · intro l n
    rw [hreplicas, lookup_erase]
    by_cases hl : l = k
    · rw [if_pos hl, hl, update_self]
      rfl
    · rw [if_neg hl, update_of_ne hl]
      exact h.replica l n
  · intro l w hw
    rw [lookup_erase, update_none_eq_some] at hw
    exact h.exact l w hw.2
  · intro l m x w hx hw
    rw [lookup_erase, update_none_eq_some] at hx hw
    exact h.index l m x w hx.2 hw.2
  · rintro ⟨l, n⟩ r hr
    rw [hreplicas] at hr
    by_cases hl : l = k
    · rw [if_pos hl] at hr
      cases hr
    · rw [if_neg hl] at hr
      exact h.owned (l, n) r hr

end

end Represents

/-! ### Calls that both repositories take alike -/

lemma mem_entries : ⟨n, r⟩ ∈ (replicas.getD ∅).entries ↔ replicaOn replicas n = some r := by
  rw [← lookup_replicas]
  exact AList.mem_lookup_iff.symm

def Known (owner : String → ChunkID × NodeID) (s : MemoryState) (k : ChunkID)
    (replicas : ReplicaSet) : Prop :=
  ∀ e ∈ (replicas.getD ∅).entries, owner e.2.id = (k, e.1) ∧ (s.nodes.lookup e.1).isSome

instance (k : ChunkID) (replicas : ReplicaSet) : Decidable (Known owner s k replicas) :=
  inferInstanceAs (Decidable (∀ e ∈ (replicas.getD ∅).entries, _ ∧ _))

def KnownReplicas (owner : String → ChunkID × NodeID) (s : MemoryState) : ChunkCall → Prop
  | .upsertChunks chunks => ∀ z ∈ chunks, Known owner s z.id z.replicas
  | .updateChunkReplicas patch =>
    ∀ z ∈ findChunk s patch.selector, Known owner s z.id patch.upserts
  | _ => True

instance : (call : ChunkCall) → Decidable (KnownReplicas owner s call)
  | .upsertChunks chunks =>
    inferInstanceAs (Decidable (∀ z ∈ chunks, Known owner s z.id z.replicas))
  | .updateChunkStatus _ => isTrue trivial
  | .updateChunkReplicas patch =>
    inferInstanceAs (Decidable (∀ z ∈ findChunk s patch.selector, Known owner s z.id patch.upserts))
  | .removeChunkReplica .. => isTrue trivial
  | .deleteChunk _ => isTrue trivial

@[mk_iff] structure Replaces (s : MemoryState) (z : ChunkMetadata) : Prop where
  exact : ExactChunk z
  replicas : ∀ e ∈ (z.replicas.getD ∅).entries, ExactReplica z.id e.1 e.2
  counted : z.replicaCount = 0 → Table.size (z.replicas.getD ∅) = 0
  covers : ∀ w ∈ s.chunks.lookup z.id, ∀ e ∈ (w.replicas.getD ∅).entries,
    (replicaOn z.replicas e.1).isSome

instance (z : ChunkMetadata) : Decidable (Replaces s z) :=
  decidable_of_iff _ (replaces_iff s z).symm

@[mk_iff] structure Patches (patch : ChunkReplicaPatch) (z : ChunkMetadata) : Prop where
  replicas : ∀ e ∈ (patch.upserts.getD ∅).entries, ExactReplica z.id e.1 e.2
  counts : FitsColumns (patch.replicaPolicy.getD z.replicaPolicy) (patch.replicaCount.getD 0)
  few : patch.replicaCount = none →
    Table.size (z.replicas.getD ∅) + Table.size (patch.upserts.getD ∅) ≤ 2147483647

instance (patch : ChunkReplicaPatch) (z : ChunkMetadata) : Decidable (Patches patch z) :=
  decidable_of_iff _ (patches_iff patch z).symm

lemma Patches.fits (h : Patches patch z) : FitsColumns (patch.replicaPolicy.getD z.replicaPolicy)
      (patch.replicaCount.getD (Table.size ((patch.apply z).replicas.getD ∅))) := by
  obtain ⟨hdesired, hminimum, hcurrent, hcount⟩ := h.counts
  refine ⟨hdesired, hminimum, hcurrent, ?_⟩
  cases hc : patch.replicaCount with
  | some count => rwa [hc] at hcount
  | none =>
    have hsize : size ((patch.apply z).replicas.getD ∅) ≤
        size (z.replicas.getD ∅) + size (patch.upserts.getD ∅) := by
      refine size_le_add fun n hn => ?_
      rw [lookup_replicas, replicaOn_apply] at hn
      rw [lookup_replicas, lookup_replicas]
      by_cases hremoved : n ∈ patch.removeNodeIDs
      · rw [if_pos hremoved] at hn
        cases hn
      · rw [if_neg hremoved, Option.isSome_or, Bool.or_eq_true] at hn
        exact hn.symm
    have hfew := h.few hc
    rw [Option.getD_none]
    constructor <;> omega

def Portable (s : MemoryState) : ChunkCall → Prop
  | .upsertChunks chunks => ∀ z ∈ chunks, Replaces s z
  | .updateChunkStatus patch => Clear s patch.selector ∧
    (∀ text ∈ patch.lastErrorCode :: statusTexts patch.status (patch.checksum.getD {}),
      IsText text) ∧ OnMicrosecond patch.updatedAt ∧
    (∀ t ∈ patch.verifiedAt, OnMicrosecond t) ∧ ∀ checksum ∈ patch.checksum, ExactChecksum checksum
  | .updateChunkReplicas patch => Clear s patch.selector ∧
    (∀ n ∈ patch.removeNodeIDs, IsText n) ∧ OnMicrosecond patch.updatedAt ∧
    ∀ z ∈ findChunk s patch.selector, Patches patch z
  | .removeChunkReplica selector n updatedAt => Clear s selector ∧ IsText n ∧
    OnMicrosecond updatedAt ∧
    ∀ z ∈ findChunk s selector, (replicaOn z.replicas n).isSome →
      z.replicaPolicy.currentReplicaCount + 1 = Table.size (z.replicas.getD ∅)
  | .deleteChunk selector => Clear s selector

instance : (call : ChunkCall) → Decidable (Portable s call)
  | .upsertChunks chunks => inferInstanceAs (Decidable (∀ z ∈ chunks, Replaces s z))
  | .updateChunkStatus patch => inferInstanceAs (Decidable (_ ∧ _ ∧ _ ∧
    (∀ t ∈ patch.verifiedAt, OnMicrosecond t) ∧ ∀ checksum ∈ patch.checksum, ExactChecksum checksum))
  | .updateChunkReplicas patch =>
    inferInstanceAs (Decidable (_ ∧ _ ∧ _ ∧ ∀ z ∈ findChunk s patch.selector, Patches patch z))
  | .removeChunkReplica selector n _ => inferInstanceAs (Decidable (_ ∧ _ ∧ _ ∧
    ∀ z ∈ findChunk s selector, (replicaOn z.replicas n).isSome →
      z.replicaPolicy.currentReplicaCount + 1 = Table.size (z.replicas.getD ∅)))
  | .deleteChunk selector => inferInstanceAs (Decidable (Clear s selector))

def Follows (owner : String → ChunkID × NodeID) (x : StoreM Unit) (s : MemoryState)
    (y : Postgres.ChunkM Unit) (d : ChunkTables) : Prop :=
  Lockstep (fun e s' e' d' => SameKind e e' ∧ Represents owner s' d')
    (fun _ s' _ d' => Represents owner s' d') x s y d

lemma Represents.follows_missing {f : ChunkMetadata → StoreM Unit} (h : Represents owner s d)
    (hfind : findChunk s selector = none)
    (hget : Postgres.getChunk selector d = .error (.store ⟨.notFound, "chunk", []⟩) d) :
    Follows owner (do f (← expect (findChunk (← get) selector) .notFound "chunk")) s
      (Postgres.getChunk selector >>= g) d := by
  have hmemory : (do f (← expect (findChunk (← get) selector) .notFound "chunk") : StoreM Unit) s =
      .error (.error ⟨.notFound, "chunk", []⟩) s := by
    change EStateM.bind (expect (findChunk s selector) _ _ _) f s = _
    rw [hfind]
    rfl
  have hpostgres : (Postgres.getChunk selector >>= g) d =
      .error (.store ⟨.notFound, "chunk", []⟩) d := bind_of_error hget
  exact .of_errors hmemory hpostgres ⟨rfl, h⟩

lemma patchedTexts (hz : ∀ text ∈ (chunkRow z).texts, IsText text)
    (htexts : ∀ text ∈ patch.lastErrorCode ::
      statusTexts patch.status (patch.checksum.getD {}), IsText text) :
    (∀ text ∈ (chunkRow (patchChunk patch z)).texts, IsText text) ∧
      ∀ text ∈ patch.lastErrorCode ::
        statusTexts patch.status (patch.checksum.getD z.checksum), IsText text := by
  have hsent : ∀ text ∈ patch.lastErrorCode ::
      statusTexts patch.status (patch.checksum.getD z.checksum), IsText text := by
    simp only [Postgres.ChunkRow.texts, statusTexts, forall_mem_cons] at hz htexts ⊢
    cases hchecksum : patch.checksum with
    | none => exact ⟨htexts.1, hz.2.2.2.1, hz.2.2.2.2.1, htexts.2.2.2⟩
    | some checksum => rwa [hchecksum] at htexts
  exact ⟨forall_mem_cons.mpr ⟨hz _ mem_cons_self, forall_mem_cons.mpr
    ⟨hz _ (mem_cons_of_mem _ mem_cons_self), hsent⟩⟩, hsent⟩

lemma scanChunk_patchChunk (hscan : scanChunk row = bareChunk z)
    (hchecksum : ExactChecksum (patch.checksum.getD z.checksum))
    (hverified : ∀ t ∈ (patch.verifiedAt <|> z.verifiedAt), OnMicrosecond t)
    (hupdated : OnMicrosecond patch.updatedAt) :
    scanChunk { row with
      status := patch.status
      checksum := storedChecksum (patch.checksum.getD z.checksum)
      lastErrorCode := patch.lastErrorCode
      verifiedAt := (patch.verifiedAt <|> z.verifiedAt).map timestamptz
      updatedAt := timestamptz patch.updatedAt } = bareChunk (patchChunk patch z) := by
  rw [storedChecksum_eq_self hchecksum, map_timestamptz_eq_self hverified,
    timestamptz_eq_self hupdated]
  exact congrArg (fun c : ChunkMetadata => { c with
    status := patch.status
    checksum := patch.checksum.getD z.checksum
    lastErrorCode := patch.lastErrorCode
    verifiedAt := patch.verifiedAt <|> z.verifiedAt
    updatedAt := patch.updatedAt }) hscan

namespace Represents

section

variable (h : Represents owner s d)
include h

lemma deleteChunk (hclear : Clear s selector) :
    Follows owner (Store.deleteChunk selector) s (Postgres.deleteChunk selector) d := by
  rcases h.select hclear with ⟨z, hfind, hz, hget⟩ | ⟨hfind, hget⟩
  · have hmemory : Yields (Store.deleteChunk selector) s ⟨⟩
        { s with chunks := s.chunks.erase z.id } := by
      simp only [Store.deleteChunk, yields_get_bind, yields_expect_bind, yields_modify]
      exact ⟨z, hfind, rfl⟩
    exact .of_yields hmemory (hget.bind_iff.mpr rfl) (h.erase z.id)
  · exact h.follows_missing hfind hget

lemma updateChunkStatus (hclear : Clear s patch.selector)
    (htexts : ∀ text ∈ patch.lastErrorCode ::
      statusTexts patch.status (patch.checksum.getD {}), IsText text)
    (hupdated : OnMicrosecond patch.updatedAt)
    (hverified : ∀ t ∈ patch.verifiedAt, OnMicrosecond t)
    (hchecksum : ∀ checksum ∈ patch.checksum, ExactChecksum checksum) :
    Follows owner (Store.updateChunkStatus patch) s (Postgres.updateChunkStatus patch) d := by
  rcases h.select hclear with ⟨z, hfind, hz, hget⟩ | ⟨hfind, hget⟩
  · have hexact := h.exact z.id z hz
    have hchecksum' : ExactChecksum (patch.checksum.getD z.checksum) := by
      cases hc : patch.checksum with
      | none => exact hexact.checksum
      | some checksum => exact hchecksum checksum hc
    have hverified' : ∀ t ∈ (patch.verifiedAt <|> z.verifiedAt), OnMicrosecond t := by
      cases hv : patch.verifiedAt with
      | none => exact hexact.verifiedAt
      | some t => exact fun x hx => hverified x (hv ▸ hx)
    have hmemory : Yields (Store.updateChunkStatus patch) s ⟨⟩
        { s with chunks := s.chunks.put (patchChunk patch z) } := by
      simp only [Store.updateChunkStatus, yields_get_bind, yields_expect_bind, yields_putChunk]
      exact ⟨z, hfind, rfl⟩
    obtain ⟨row, hrow, hscan⟩ := h.row hz
    have htexts' := patchedTexts hexact.texts htexts
    refine .of_yields hmemory (hget.bind_iff.mpr ((yields_sendTexts htexts'.2).bind_iff.mpr
      (yields_updateChunkRow hrow))) ?_
    have hreplicas := h.replica_of_stored hz
    refine h.update hz rfl rfl rfl rfl rfl rfl ?_ hreplicas ?_ (fun n r hr => h.owned_replicaOn hz hr)
    · exact scanChunk_patchChunk hscan hchecksum' hverified' hupdated
    · exact ⟨htexts'.1, hexact.counts, hchecksum', hexact.createdAt, hupdated, hverified'⟩
  · exact h.follows_missing hfind hget

lemma updateChunkReplicas (hclear : Clear s patch.selector)
    (hremoved : ∀ n ∈ patch.removeNodeIDs, IsText n)
    (hupdated : OnMicrosecond patch.updatedAt)
    (hpatches : ∀ z ∈ findChunk s patch.selector, Patches patch z)
    (hknown : ∀ z ∈ findChunk s patch.selector, Known owner s z.id patch.upserts) :
    Follows owner (Store.updateChunkReplicas patch) s (Postgres.updateChunkReplicas patch) d := by
  rcases h.select hclear with ⟨z, hfind, hz, hget⟩ | ⟨hfind, hget⟩
  · have hexact := h.exact z.id z hz
    have hpatch := hpatches z hfind
    have hupserts := hknown z hfind
    obtain ⟨row, hrow, hscan⟩ := h.row hz
    have hreplicas : ∀ n, ((patch.apply z).replicas.getD ∅).lookup n =
        if n ∈ patch.removeNodeIDs then none
        else (replicaOn patch.upserts n).or (d.replicas.lookup (z.id, n)) := by
      intro n
      rw [lookup_replicas, replicaOn_apply, h.replica, hz]
      rfl
    have hcounts := hpatch.fits
    have hmemory : Yields (Store.updateChunkReplicas patch) s ⟨⟩
        { s with chunks := s.chunks.put (patch.apply z) } :=
      yields_updateChunkReplicas.mpr ⟨z, hfind, rfl⟩
    obtain ⟨rows, hpostgres, hrows⟩ := yields_updateReplicas patch _ hget hrow
      (fun e he => h.node e.1 (hupserts e he).2) hpatch.replicas hremoved
      (fun e he => (hupserts e he).1) h.owned hreplicas hcounts
    refine .of_yields hmemory hpostgres (h.update hz rfl rfl rfl rfl rfl rfl ?_ ?_ ?_ ?_)
    · rw [timestamptz_eq_self hupdated]
      exact congrArg (fun c : ChunkMetadata => { c with
        replicaCount := patch.replicaCount.getD (size ((patch.apply z).replicas.getD ∅))
        replicaPolicy := patch.replicaPolicy.getD z.replicaPolicy
        updatedAt := patch.updatedAt }) hscan
    · intro l n
      exact hrows l n
    · exact ⟨hexact.texts, hcounts, hexact.checksum, hexact.createdAt, hupdated,
        hexact.verifiedAt⟩
    · intro n r hr
      rw [replicaOn_apply] at hr
      by_cases hn : n ∈ patch.removeNodeIDs
      · rw [if_pos hn] at hr
        cases hr
      · rw [if_neg hn, Option.or_eq_some_iff] at hr
        rcases hr with hr | ⟨-, hr⟩
        · exact (hupserts _ (mem_entries.mpr hr)).1
        · exact h.owned_replicaOn hz hr
  · exact h.follows_missing hfind hget

lemma removeChunkReplica_missing (hfind : findChunk s selector = some z)
    (hget : Yields (Postgres.getChunk selector) d w d) (hsame : SameChunk z w)
    (hn : replicaOn z.replicas n = none) :
    Follows owner (Store.removeChunkReplica selector n updatedAt) s
      (Postgres.removeChunkReplica selector n updatedAt) d := by
  have hmemory : Store.removeChunkReplica selector n updatedAt s =
      .error (.error ⟨.notFound, "replica on node %q", [.text n]⟩) s := by
    change EStateM.bind (expect (findChunk s selector) _ _ _) _ s = _
    rw [hfind]
    change EStateM.bind (expect z.replicas _ _ _) _ s = _
    cases hreplicas : z.replicas with
    | none => rfl
    | some replicas =>
      have hlookup : replicas.lookup n = none := by
        rw [hreplicas] at hn
        exact hn
      change EStateM.bind (reject ((replicas.lookup n).isNone) _ _ _) _ s = _
      rw [hlookup]
      rfl
  have hpostgres : Postgres.removeChunkReplica selector n updatedAt d =
      .error (.store ⟨.notFound, "replica on node %q", [.text n]⟩) d := by
    refine (bind_of_ok hget).trans ?_
    change EStateM.bind (Postgres.rejectCall ((replicaOn w.replicas n).isNone) _ _ _) _ d = _
    rw [← hsame.replicas, hn]
    rfl
  exact .of_errors hmemory hpostgres ⟨rfl, h⟩

lemma removeChunkReplica (hclear : Clear s selector) (htext : IsText n)
    (hupdated : OnMicrosecond updatedAt)
    (hcurrent : ∀ z ∈ findChunk s selector, (replicaOn z.replicas n).isSome →
      z.replicaPolicy.currentReplicaCount + 1 = Table.size (z.replicas.getD ∅)) :
    Follows owner (Store.removeChunkReplica selector n updatedAt) s
      (Postgres.removeChunkReplica selector n updatedAt) d := by
  rcases h.select hclear with ⟨z, hfind, hz, hget⟩ | ⟨hfind, hget⟩
  · cases hn : replicaOn z.replicas n with
    | none => exact h.removeChunkReplica_missing hfind hget (h.sameChunk hz) hn
    | some r =>
      have hexact := h.exact z.id z hz
      obtain ⟨replicas, hreplicas, hr⟩ := Option.bind_eq_some_iff.mp hn
      obtain ⟨row, hrow, hscan⟩ := h.row hz
      have hlookup := h.replica_erased (n := n) hz hreplicas
      -- one replica fewer is what the policy says already
      have hcount : (size (replicas.erase n) : Int) = z.replicaPolicy.currentReplicaCount := by
        have hsize := hcurrent z hfind (by rw [hn]; rfl)
        rw [hreplicas, Option.getD_some, size_erase hr] at hsize
        omega
      have hlength := length_replicaRows (d := { d with replicas := d.replicas.erase (z.id, n) })
        (replicas.erase n) (fun m => by rw [hlookup, if_pos rfl])
      have hmemory : Yields (Store.removeChunkReplica selector n updatedAt) s ⟨⟩
          { s with chunks := s.chunks.put (withoutReplica z replicas n updatedAt) } :=
        yields_removeChunkReplica.mpr ⟨z, replicas, hfind, hreplicas, by rw [hr]; rfl, rfl⟩
      have hpostgres : Yields (Postgres.removeChunkReplica selector n updatedAt) d ⟨⟩
          { d with
            replicas := d.replicas.erase (z.id, n)
            chunks := d.chunks.put { row with
              replicaCount := z.replicaPolicy.currentReplicaCount
              replicaPolicy := { row.replicaPolicy with
                currentReplicaCount := z.replicaPolicy.currentReplicaCount }
              updatedAt := timestamptz updatedAt } } := by
        have hcounted : Yields (Postgres.countReplicas z.id)
            { d with replicas := d.replicas.erase (z.id, n) } z.replicaPolicy.currentReplicaCount
            { d with replicas := d.replicas.erase (z.id, n) } := by
          rw [← hcount, ← hlength]
          rfl
        have hdeleted : Yields (Postgres.deleteReplica z.id n) d ⟨⟩
            { d with replicas := d.replicas.erase (z.id, n) } := yields_deleteReplica htext
        refine hget.bind_iff.mpr ((yields_rejectCall ?_).bind_iff.mpr (hdeleted.bind_iff.mpr
          (hcounted.bind_iff.mpr ((yields_failWith (not_not_intro hexact.counts.2.2.1)).bind_iff.mpr
            (yields_updateChunkRow hrow)))))
        rw [← (h.sameChunk hz).replicas, hn]
        exact Bool.false_ne_true
      refine .of_yields hmemory hpostgres (h.update hz rfl rfl rfl rfl rfl rfl ?_ hlookup ?_ ?_)
      · rw [timestamptz_eq_self hupdated, withoutReplica, hcount]
        have hpolicy : row.replicaPolicy = z.replicaPolicy :=
          (congrArg ChunkMetadata.replicaPolicy hscan :)
        rw [hpolicy]
        exact congrArg (fun c : ChunkMetadata => { c with
          replicaCount := z.replicaPolicy.currentReplicaCount
          replicaPolicy := z.replicaPolicy
          updatedAt := updatedAt }) hscan
      · obtain ⟨hdesired, hminimum, hfits, -⟩ := hexact.counts
        refine ⟨hexact.texts, ⟨hdesired, hminimum, hfits, ?_⟩, hexact.checksum, hexact.createdAt, hupdated,
          hexact.verifiedAt⟩
        rw [withoutReplica, hcount]
        exact hfits
      · intro m r' hr'
        refine h.owned_replicaOn hz ?_
        rw [hreplicas]
        exact lookup_of_erase hr'
  · exact h.follows_missing hfind hget

end

end Represents

section Checks

variable {kind : ErrorKind} {format : String}

def FaultOf (kind : ErrorKind) (e : Fault) : Prop := ∃ e', e = .error e' ∧ e'.kind = kind

def TxErrorOf (kind : ErrorKind) (e : Postgres.TxError) : Prop := ∃ e', e = .store e' ∧ e'.kind = kind

lemma sameKind_of (he : FaultOf kind e) (he' : TxErrorOf kind e') : SameKind e e' := by
  obtain ⟨x, rfl, hx⟩ := he
  obtain ⟨y, rfl, hy⟩ := he'
  exact hx.trans hy.symm

lemma guards_reject [Decidable c] : Guards (FaultOf kind) (¬c) (reject c kind format args) s :=
  Guards.of_not ⟨_, rfl, rfl⟩

lemma guards_rejectCall [Decidable c] :
    Guards (TxErrorOf kind) (¬c) (Postgres.rejectCall c kind format args) d :=
  Guards.of_not ⟨_, rfl, rfl⟩

lemma Represents.reject {α β : Type} {Q : α → MemoryState → β → ChunkTables → Prop} [Decidable c]
    [Decidable c'] {f : Unit → StoreM α} {g : Unit → Postgres.ChunkM β}
    (h : Represents owner s d) (hc : c ↔ c')
    (hrest : Lockstep (fun e s' e' d' => SameKind e e' ∧ Represents owner s' d') Q (f ()) s (g ()) d) :
    Lockstep (fun e s' e' d' => SameKind e e' ∧ Represents owner s' d') Q
      (reject c kind format args >>= f) s (Postgres.rejectCall c' kind format' args' >>= g) d :=
  guards_reject.lockstep_bind guards_rejectCall (not_congr hc)
    (fun _ _ he he' => ⟨sameKind_of he he', h⟩) hrest

def Taken (z w : ChunkMetadata) : Prop :=
  w.fileID = z.fileID ∧ w.id ≠ z.id ∧ (w.index = z.index ∨ w.offset = z.offset)

lemma guards_position {ε σ : Type} {F : ε → Prop} {x y : EStateM ε σ PUnit} {t : σ}
    (hx : Guards F (¬w.index = z.index) x t) (hy : Guards F (¬w.offset = z.offset) y t) :
    Guards F (¬Taken z w)
      (if w.fileID ≠ z.fileID ∨ w.id = z.id then pure ⟨⟩ else x >>= fun _ => y) t := by
  by_cases hskip : w.fileID ≠ z.fileID ∨ w.id = z.id
  · rw [if_pos hskip]
    refine Guards.skip ?_
    rintro ⟨hf, hid, -⟩
    exact hskip.elim (fun hne => hne hf) hid
  · rw [if_neg hskip]
    refine (hx.andThen hy).congr ?_
    unfold Taken
    tauto

lemma Represents.free_iff (h : Represents owner s d) :
    (∀ w ∈ s.chunks.values, ¬Taken z w) ↔
      (¬∃ row ∈ d.chunks.values, row.fileID = z.fileID ∧ row.chunkIndex = z.index ∧ row.id ≠ z.id) ∧
      ¬∃ row ∈ d.chunks.values, row.fileID = z.fileID ∧ row.chunkOffset = z.offset ∧
        row.id ≠ z.id := by
  constructor
  · intro hfree
    constructor
    all_goals
      rintro ⟨row, hrow, hf, hat, hid⟩
      obtain ⟨w, hw, hscan⟩ := h.record (mem_values.mp hrow)
      obtain ⟨hidw, hfw, hiw, how⟩ := row_place hscan
      refine hfree w (lookup_eq_some.mp hw).1 ⟨hfw ▸ hf, hidw ▸ hid, ?_⟩
    · exact .inl (hiw ▸ hat)
    · exact .inr (how ▸ hat)
  · rintro ⟨hindex, hoffset⟩ w hw ⟨hf, hid, hat⟩
    obtain ⟨row, hrow, hscan⟩ := h.row (mem_values.mp hw)
    obtain ⟨hidw, hfw, hiw, how⟩ := row_place hscan
    have hmem := (lookup_eq_some.mp hrow).1
    rcases hat with hat | hat
    · exact hindex ⟨row, hmem, hfw.trans hf, hiw.trans hat, hidw ▸ hid⟩
    · exact hoffset ⟨row, hmem, hfw.trans hf, how.trans hat, hidw ▸ hid⟩

lemma Represents.pendingChunks (h : Represents owner s d)
    (htexts : ∀ z ∈ chunks, IsText z.id ∧ IsText z.fileID)
    (pending : Records ChunkMetadata.id) :
    Lockstep (fun e s' e' d' => SameKind e e' ∧ Represents owner s' d')
      (fun a s' b d' => (b = a ∧ s' = s) ∧ d' = d)
      (Store.pendingChunks chunks pending) s (Postgres.pendingChunks chunks pending) d := by
  induction chunks generalizing pending with
  | nil => exact ⟨⟨rfl, rfl⟩, rfl⟩
  | cons z chunks ih =>
    have hfile : ((s.files.lookup z.fileID).isNone = true) ↔ ((d.files.lookup z.fileID).isNone = true) := by
      have hf := h.file z.fileID
      rw [← Option.not_isSome, ← Option.not_isSome, hf]
    rw [forall_mem_cons] at htexts
    refine h.reject Iff.rfl ?_
    refine Lockstep.left rfl (Lockstep.right (yields_sendTexts (forall_mem_singleton.mpr
      htexts.1.2)) (Lockstep.right rfl ?_))
    refine h.reject hfile (h.reject Iff.rfl (h.reject Iff.rfl (h.reject Iff.rfl ?_)))
    -- the stored and the pending chunks are looked at in different orders
    have hmemory (records : Records ChunkMetadata.id) : Guards (FaultOf .alreadyExists)
        (∀ w ∈ records.values, ¬Taken z w) (records.values.forM (rejectTakenPosition z)) s :=
      Guards.forM fun w _ => guards_position guards_reject guards_reject
    have hpending : Guards (TxErrorOf .alreadyExists) (∀ w ∈ pending.values, ¬Taken z w)
        (pending.values.forM (Postgres.rejectPendingPosition z)) d :=
      Guards.forM fun w _ => guards_position guards_rejectCall guards_rejectCall
    have hsent : Guards (TxErrorOf .alreadyExists) True (Postgres.sendTexts [z.fileID, z.id]) d :=
      .inl ⟨trivial, yields_sendTexts (forall_mem_cons.mpr
        ⟨htexts.1.2, forall_mem_singleton.mpr htexts.1.1⟩)⟩
    have hunique : Guards (TxErrorOf .alreadyExists) _ (Postgres.ensureChunkUniqueness z) d :=
      hsent.andThen (Guards.andThen guards_rejectCall guards_rejectCall)
    rw [← bind_assoc, ← bind_assoc]
    exact ((hmemory s.chunks).andThen (hmemory pending)).lockstep_bind (hpending.andThen hunique)
      (by rw [h.free_iff, true_and, and_comm]) (fun _ _ he he' => ⟨sameKind_of he he', h⟩)
      (ih htexts.2 (pending.put z))

end Checks

/-! ### Upserts: the writes -/

structure Writable (owner : String → ChunkID × NodeID) (s : MemoryState) (z : ChunkMetadata) :
    Prop where
  named : z.id ≠ ""
  file : (s.files.lookup z.fileID).isSome
  free : ∀ k w, s.chunks.lookup k = some w → k ≠ z.id → w.fileID = z.fileID → w.index ≠ z.index
  replaces : Replaces s z
  known : Known owner s z.id z.replicas

lemma Represents.covered (h : Represents owner s d) (hz : Replaces s z) (n : NodeID) :
    (replicaOn z.replicas n).or (d.replicas.lookup (z.id, n)) = replicaOn z.replicas n := by
  cases hn : replicaOn z.replicas n with
  | some r => rfl
  | none =>
    rw [h.replica]
    cases hw : s.chunks.lookup z.id with
    | none => rfl
    | some w =>
      change replicaOn w.replicas n = none
      cases hr : replicaOn w.replicas n with
      | none => rfl
      | some r =>
        have hcovers := hz.covers w hw _ (mem_entries.mpr hr)
        rw [hn] at hcovers
        cases hcovers

lemma Represents.insertChunk (h : Represents owner s d) (hz : Writable owner s z) :
    Yields (Postgres.insertChunk (chunkRow z)) d ⟨⟩
      { d with chunks := d.chunks.put (chunkRow z) } := by
  refine yields_insertChunk hz.replaces.exact.texts hz.replaces.exact.counts ?_ ?_
  · have hfile := h.file z.fileID
    rw [hz.file] at hfile
    exact hfile
  · intro other hother hid hf hi
    obtain ⟨w, hw, hscan⟩ := h.record (mem_values.mp hother)
    obtain ⟨-, hfw, hiw, -⟩ := row_place hscan
    exact hz.free other.id w hw hid (hfw.symm.trans hf) (hiw.symm.trans hi)

lemma Represents.upsertChunk (h : Represents owner s d) (hz : Writable owner s z) :
    ∃ d', Yields (Postgres.upsertChunk z) d ⟨⟩ d' ∧
      Represents owner { s with chunks := s.chunks.put z } d' := by
  have hexact := hz.replaces.exact
  have hscan := scanChunk_chunkRow hexact
  have howned : ∀ n r, replicaOn z.replicas n = some r → owner r.id = (z.id, n) :=
    fun n r hr => (hz.known _ (mem_entries.mpr hr)).1
  have hinsert := h.insertChunk hz
  have hput : (d.chunks.put (chunkRow z)).lookup =
      Function.update d.chunks.lookup z.id (some (chunkRow z)) := lookup_put _ _
  by_cases hsize : size (z.replicas.getD ∅) > 0
  · have hcount : (if z.replicaCount = 0 then (size (z.replicas.getD ∅) : Int)
        else z.replicaCount) = z.replicaCount := by
      rw [if_neg fun hzero => absurd (hz.replaces.counted hzero) (Nat.ne_of_gt hsize)]
    have hrow : (d.chunks.put (chunkRow z)).lookup z.id = some (chunkRow z) := by
      rw [hput, update_self]
    obtain ⟨rows, hupdate, hrows⟩ := yields_updateReplicas
      (d := { d with chunks := d.chunks.put (chunkRow z) })
      { selector := { id := z.id }, upserts := z.replicas, replicaCount := some z.replicaCount
        replicaPolicy := some z.replicaPolicy, updatedAt := z.updatedAt }
      (z.replicas.getD ∅) (yields_getChunk_id hz.named (hexact.texts _ mem_cons_self) hrow) hrow
      (fun e he => h.node e.1 (hz.known e he).2) hz.replaces.replicas (by simp)
      (fun e he => (hz.known e he).1) h.owned
      (fun n => by
        rw [lookup_replicas]
        exact (h.covered hz.replaces n).symm)
      hexact.counts
    have hwrite : Yields (Postgres.upsertChunk z) d ⟨⟩
        { d with replicas := rows, chunks := (d.chunks.put (chunkRow z)).put (chunkRow z) } := by
      refine hinsert.bind_iff.mpr ?_
      rw [if_pos hsize, hcount]
      exact hupdate
    refine ⟨_, hwrite, h.put rfl rfl ?_ hscan (fun k n => ?_) hexact hz.free howned⟩
    · refine (lookup_put _ _).trans ?_
      rw [hput]
      exact update_idem _ _ _
    · rw [← lookup_replicas]
      exact hrows k n
  · have hnone : ∀ n, replicaOn z.replicas n = none := by
      intro n
      cases hr : replicaOn z.replicas n with
      | none => rfl
      | some r => exact absurd (length_pos_of_mem (mem_entries.mpr hr)) hsize
    have hskip : Yields (Postgres.upsertChunk z) d ⟨⟩
        { d with chunks := d.chunks.put (chunkRow z) } := by
      refine hinsert.bind_iff.mpr ?_
      rw [if_neg hsize]
      rfl
    refine ⟨_, hskip, h.put rfl rfl hput hscan (fun k n => ?_) hexact hz.free howned⟩
    by_cases hk : k = z.id
    · have hcovered := h.covered hz.replaces n
      rw [hnone, Option.none_or] at hcovered
      rw [if_pos hk, hk, hnone, hcovered]
    · rw [if_neg hk]

def SetApart (z w : ChunkMetadata) : Prop :=
  z.id ≠ w.id ∧ (z.fileID = w.fileID → z.index ≠ w.index)

lemma Writable.put (hw : Writable owner s w) (hapart : SetApart z w) :
    Writable owner { s with chunks := s.chunks.put z } w := by
  refine ⟨hw.named, hw.file, ?_, ⟨hw.replaces.exact, hw.replaces.replicas, hw.replaces.counted, ?_⟩,
    hw.known⟩
  · intro k x hx hk hf
    rw [lookup_put, update_some_eq_some] at hx
    rcases hx with ⟨-, rfl⟩ | ⟨-, hx⟩
    · exact hapart.2 hf
    · exact hw.free k x hx hk hf
  · intro x hx
    rw [lookup_put, update_of_ne (Ne.symm hapart.1)] at hx
    exact hw.replaces.covers x hx

lemma Represents.writeChunks {pending : List ChunkMetadata} (h : Represents owner s d)
    (hapart : pending.Pairwise SetApart) (hpending : ∀ z ∈ pending, Writable owner s z) :
    Follows owner (pending.forM putChunk) s (pending.forM Postgres.upsertChunk) d := by
  have hloop := Lockstep.forM (E := fun e s' e' d' => SameKind e e' ∧ Represents owner s' d')
    (fun rest s d => Represents owner s d ∧ rest.Pairwise SetApart ∧ ∀ z ∈ rest, Writable owner s z)
    (by
      rintro z rest s d ⟨h, hapart, hrest⟩
      rw [pairwise_cons] at hapart
      rw [forall_mem_cons] at hrest
      obtain ⟨d', hpostgres, h'⟩ := h.upsertChunk hrest.1
      have hmemory : Yields (putChunk z) s ⟨⟩ { s with chunks := s.chunks.put z } := rfl
      exact .of_yields hmemory hpostgres
        ⟨h', hapart.2, fun w hw => (hrest.2 w hw).put (hapart.1 w hw)⟩)
    ⟨h, hapart, hpending⟩
  exact hloop.mono fun _ _ _ _ h' => h'.1

lemma mem_of_lastOf (h : lastOf chunks k = some z) : z ∈ chunks :=
  mem_of_mem_filter (mem_of_getLast? h)

lemma pendingChunks_checked {pending after : Records ChunkMetadata.id}
    (h : Yields (Store.pendingChunks chunks pending) s after t) :
    ∀ z ∈ chunks, z.id ≠ "" ∧ (s.files.lookup z.fileID).isSome := by
  induction chunks generalizing pending with
  | nil => exact fun z hz => absurd hz not_mem_nil
  | cons w chunks ih =>
    simp only [Store.pendingChunks, yields_reject_bind, yields_get_bind, forM_eq_forM] at h
    obtain ⟨hids, hfile, -, -, -, h⟩ := h
    obtain ⟨⟨⟩, r, hloop, hrest⟩ := yields_bind.mp h
    obtain ⟨-, rfl⟩ := yields_rejectTakenPositions.mp hloop
    obtain ⟨⟨⟩, r', hloop', hrest'⟩ := yields_bind.mp hrest
    obtain ⟨-, rfl⟩ := yields_rejectTakenPositions.mp hloop'
    rw [forall_mem_cons]
    refine ⟨⟨fun hid => hids (.inl hid), ?_⟩, ih hrest'⟩
    simpa [Option.isSome_iff_ne_none] using hfile

lemma Represents.upsertChunks (h : Represents owner s d) (hreplaces : ∀ z ∈ chunks, Replaces s z)
    (hknown : ∀ z ∈ chunks, Known owner s z.id z.replicas) :
    Follows owner (Store.upsertChunks chunks) s (Postgres.upsertChunks chunks) d := by
  have htexts (z) (hz : z ∈ chunks) : IsText z.id ∧ IsText z.fileID :=
    have h := (hreplaces z hz).exact.texts
    ⟨h _ mem_cons_self, h _ (mem_cons_of_mem _ mem_cons_self)⟩
  refine (h.pendingChunks htexts ∅).and_yields.bind ?_
  rintro _ _ pending _ ⟨⟨⟨rfl, rfl⟩, rfl⟩, hyields⟩
  obtain ⟨-, hpending, hlast⟩ := pendingChunks_spec .empty hyields
  have hmem : ∀ z ∈ pending.values, z ∈ chunks := by
    intro z hz
    have hlookup := mem_values.mp hz
    rw [hlast, lookup_empty, Option.or_none] at hlookup
    exact mem_of_lastOf hlookup
  refine h.writeChunks ?_ fun z hz => ?_
  · have hids : pending.values.Pairwise (fun z w => z.id ≠ w.id) := pairwise_map.mp pending.nodup
    refine hids.imp_of_mem fun {z w} hz hw hid => ⟨hid, fun hf => ?_⟩
    exact (hpending.among z.id w.id z w (mem_values.mp hz) (mem_values.mp hw) hid hf).1
  · obtain ⟨hid, hfile⟩ := pendingChunks_checked hyields z (hmem z hz)
    refine ⟨hid, hfile, ?_, hreplaces z (hmem z hz), hknown z (hmem z hz)⟩
    intro k w hw hk hf
    exact (hpending.stored z.id k z w (mem_values.mp hz) hw (Ne.symm hk) hf.symm).1.symm

/-! ### Runs of calls -/

lemma Represents.follows (h : Represents owner s d) (hknown : KnownReplicas owner s call)
    (hportable : Portable s call) : Follows owner call.onMemory s call.onPostgres d := by
  cases call with
  | upsertChunks chunks => exact h.upsertChunks hportable hknown
  | updateChunkStatus patch =>
    obtain ⟨hclear, htexts, hupdated, hverified, hchecksum⟩ := hportable
    exact h.updateChunkStatus hclear htexts hupdated hverified hchecksum
  | updateChunkReplicas patch =>
    obtain ⟨hclear, hremoved, hupdated, hpatches⟩ := hportable
    exact h.updateChunkReplicas hclear hremoved hupdated hpatches hknown
  | removeChunkReplica selector n updatedAt =>
    obtain ⟨hclear, htext, hupdated, hcurrent⟩ := hportable
    exact h.removeChunkReplica hclear htext hupdated hcurrent
  | deleteChunk selector => exact h.deleteChunk hportable

theorem sameChunks_of_portable {calls : List ChunkCall} (h : Represents owner s d)
    (hcalls : Throughout ChunkCall.onMemory
      (fun s call => KnownReplicas owner s call ∧ Portable s call) calls s) :
    RunsAlike ChunkCall.onMemory ChunkCall.onPostgres SameKind SameAnswers calls s d :=
  RunsAlike.of_lockstep (fun _ _ h => h.sameAnswers)
    (fun _ _ _ h hcall => h.follows hcall.1 hcall.2) h hcalls

def noChunks : MemoryState where
  files := Records.put ∅ { id := "f" }
  nodes := Records.put (Records.put ∅ { id := "n1" }) { id := "n2" }

def noChunkRows : ChunkTables where
  files := Records.put ∅ { id := "f" }
  nodes := Records.put (Records.put ∅ { id := "n1" }) { id := "n2" }

lemma represents_noChunks : Represents owner noChunks noChunkRows where
  file _ := rfl
  node _ h := h
  chunk _ := rfl
  replica _ _ := rfl
  exact _ _ h := by cases h
  index _ _ _ _ h := by cases h
  owned _ _ h := by cases h

/-- Replicas `r1` and `r2` of chunk `a`. -/
def ownerOfTwo (id : String) : ChunkID × NodeID := ("a", if id = "r1" then "n1" else "n2")

def replicaOne : ReplicaMetadata := { id := "r1", fileID := "f", chunkID := "a", nodeID := "n1" }

def replicaTwo : ReplicaMetadata := { id := "r2", fileID := "f", chunkID := "a", nodeID := "n2" }

def shortLife : List ChunkCall :=
  [.upsertChunks [{ id := "a", fileID := "f", size := 4, replicaCount := 1
                    replicas := some (AList.singleton "n1" replicaOne) }],
    .updateChunkStatus { selector := { id := "a" }, status := .available, updatedAt := 1000 },
    .updateChunkReplicas { selector := { id := "a" }
                           upserts := some (AList.singleton "n2" replicaTwo)
                           replicaPolicy := some { currentReplicaCount := 1 }, updatedAt := 2000 },
    .removeChunkReplica { fileID := "f", index := some 0 } "n2" 3000,
    .deleteChunk { id := "a" }]

theorem sameChunks_shortLife :
    RunsAlike ChunkCall.onMemory ChunkCall.onPostgres SameKind SameAnswers shortLife noChunks
      noChunkRows :=
  sameChunks_of_portable (represents_noChunks : Represents ownerOfTwo noChunks noChunkRows)
    (by decide +kernel)

def movedReplica : List ChunkCall :=
  [.upsertChunks [{ id := "a", fileID := "f", size := 4, replicaCount := 1
                    replicas := some (AList.singleton "n1" replicaOne) }],
    .upsertChunks [{ id := "a", fileID := "f", size := 4, replicaCount := 1
                     replicas := some (AList.singleton "n2" replicaTwo) }]]

def hasReplicaOn {ε σ : Type} (n : NodeID) : EStateM.Result ε σ ChunkMetadata → Bool
  | .ok z _ => (replicaOn z.replicas n).isSome
  | .error _ _ => false

theorem not_sameChunks_movedReplica :
    Represents ownerOfTwo noChunks noChunkRows ∧
      Throughout ChunkCall.onMemory (KnownReplicas ownerOfTwo) movedReplica noChunks ∧
      ¬RunsAlike ChunkCall.onMemory ChunkCall.onPostgres SameKind SameAnswers movedReplica noChunks
        noChunkRows := by
  refine ⟨represents_noChunks, by decide +kernel, ?_⟩
  rintro ⟨-, -, -, -, hanswers⟩
  have hget := hanswers.getChunk { id := "a" } (by decide +kernel)
  rcases hget.outcomes with ⟨z, s', w, d', hx, hy, hsame⟩ | ⟨e, s', e', d', hx, -, -⟩
  · have hmemory : (replicaOn z.replicas "n1").isSome = false :=
      (congrArg (hasReplicaOn "n1") hx).symm.trans (by decide +kernel)
    have hpostgres : (replicaOn w.replicas "n1").isSome = true :=
      (congrArg (hasReplicaOn "n1") hy).symm.trans (by decide +kernel)
    rw [hsame.replicas, hpostgres] at hmemory
    cases hmemory
  · have hfound : (false : Bool) = true :=
      (congrArg (hasReplicaOn "n2") hx).symm.trans (by decide +kernel)
    cases hfound

end AstraStorage.Proofs
