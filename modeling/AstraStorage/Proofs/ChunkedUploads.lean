import Mathlib.Algebra.BigOperators.Group.List.Basic
import AstraStorage.Model.Gateway
import AstraStorage.Proofs.StoredSizes

/-!
# Uploads chunk by chunk

What one commit keeps is an invariant over the requests made so far, in whatever order: the stored
chunks are those of the requests, up to status and times.
-/

namespace AstraStorage.Proofs
open Lib Store Service Function List

variable {t : MemoryState} {replica : ReplicaMetadata} {acc : Table NodeID ReplicaMetadata}
  {z : ChunkMetadata} {req : CommitChunkRequest}

/-! ### Replicas of a request -/

def fillReplica (f : FileID) (k : ChunkID) (nodeID : NodeID) (replica : ReplicaMetadata) :
    ReplicaMetadata :=
  { replica with
    nodeID := nodeID
    fileID := f
    chunkID := k
    id := if replica.id = "" then k ++ "@" ++ nodeID else replica.id }

def fillReplicas (f : FileID) (k : ChunkID)
    (entries : List (Sigma fun _ : NodeID => ReplicaMetadata)) (acc : Table NodeID ReplicaMetadata) :
    Table NodeID ReplicaMetadata :=
  entries.foldl (fun table e => table.insert e.1 (fillReplica f k e.1 e.2)) acc

def filledReplicas (f : FileID) (k : ChunkID) (replicas : ReplicaSet) : ReplicaSet :=
  replicas.map fun table => fillReplicas f k table.entries ∅

section Replicas

variable {f : FileID} {k : ChunkID}

lemma normalizeReplica_eq (h : Yields (normalizeReplica f k nodeID replica) s a t) :
    a = fillReplica f k nodeID replica := by
  simp only [normalizeReplica, yields_reject_bind, yields_pure, ne_eq, not_not] at h
  obtain ⟨_, hnode, hfile, hchunk, rfl, _⟩ := h
  simp only [hnode, hfile, hchunk, fillReplica]

lemma normalizeReplicas_eq (h : Yields (normalizeReplicas f k entries acc) s a t) :
    a = fillReplicas f k entries acc := by
  induction entries generalizing acc s with
  | nil => exact (yields_pure.mp h).1
  | cons e entries ih =>
    obtain ⟨replica', r, hone, hrest⟩ := yields_bind.mp h
    rw [normalizeReplica_eq hone] at hrest
    exact ih hrest

lemma normalizeChunkReplicas_eq (h : Yields (normalizeChunkReplicas replicas f k) s a t) :
    a = filledReplicas f k replicas := by
  cases replicas with
  | none => exact (yields_pure.mp h).1
  | some table =>
    obtain ⟨normalized, r, hall, hpure⟩ := yields_bind.mp h
    rw [(yields_pure.mp hpure).1, normalizeReplicas_eq hall]
    rfl

lemma replicaOn_filledReplicas (replicas : ReplicaSet) (nodeID : NodeID) :
    Allocator.replicaOn (filledReplicas f k replicas) nodeID =
      (Allocator.replicaOn replicas nodeID).map (fillReplica f k nodeID) := by
  cases replicas with
  | none => rfl
  | some table =>
    refine (Table.lookup_foldl_insert_map (fillReplica f k) table ∅ nodeID).trans ?_
    rw [AList.lookup_empty, Option.or_none]
    rfl

lemma entry_of_buildChunkReplicas {results : List Gateway.ReplicaWriteResult}
    (h : (Gateway.buildChunkReplicas now f k primary targets results checksum size).lookup n =
      some replica) :
    ∃ role state, replica = Gateway.chunkReplica now f k checksum size n role state ∧
      (role = .primary ∧ state = .ready ∧ primary.nodeID = n ∨
        ∃ target ∈ targets, state = Gateway.secondaryState results target.nodeID ∧
          target.nodeID = n) := by
  rcases Table.of_lookup_foldl_insert_of _ _ h with ⟨target, htarget, rfl, rfl⟩ | hprimary
  · exact ⟨_, _, rfl, .inr ⟨target, htarget, rfl, rfl⟩⟩
  · by_cases hn : n = primary.nodeID
    · subst hn
      rw [AList.lookup_insert] at hprimary
      exact ⟨_, _, (Option.some.inj hprimary).symm, .inl ⟨rfl, rfl, rfl⟩⟩
    · rw [AList.lookup_insert_ne hn] at hprimary
      cases hprimary

lemma countP_fillReplicas (hnodup : entries.NodupKeys) (hnew : ∀ e ∈ entries, e.1 ∉ acc) :
    (fillReplicas f k entries acc).values.countP (·.state = .ready) =
      (entries.map Sigma.snd).countP (·.state = .ready) + acc.values.countP (·.state = .ready) := by
  induction entries generalizing acc with
  | nil => simp [fillReplicas]
  | cons e entries ih =>
    obtain ⟨hkey, hnodup⟩ := nodupKeys_cons.mp hnodup
    obtain ⟨hnew, hrest⟩ := forall_mem_cons.mp hnew
    have hvalues : Table.values (acc.insert e.1 (fillReplica f k e.1 e.2)) =
        fillReplica f k e.1 e.2 :: acc.values := by
      rw [Table.values, AList.entries_insert_of_notMem hnew]
      rfl
    have hnew' : ∀ e' ∈ entries, e'.1 ∉ acc.insert e.1 (fillReplica f k e.1 e.2) := by
      intro e' he' hmem
      rcases (AList.mem_insert _).mp hmem with heq | hmem
      · exact hkey (heq ▸ mem_keys_of_mem he')
      · exact hrest e' he' hmem
    have hround := ih hnodup hnew'
    rw [hvalues, countP_cons] at hround
    rw [map_cons, countP_cons]
    have hstate : (fillReplica f k e.1 e.2).state = e.2.state := rfl
    rw [hstate] at hround
    refine hround.trans ?_
    omega

lemma healthyReplicaCount_filledReplicas (replicas : ReplicaSet) :
    healthyReplicaCount (filledReplicas f k replicas) = healthyReplicaCount replicas := by
  cases replicas with
  | none => rfl
  | some table =>
    have hcount : (fillReplicas f k table.entries ∅).values.countP (·.state = .ready) =
        (table.entries.map Sigma.snd).countP (·.state = .ready) + 0 :=
      countP_fillReplicas table.nodupKeys fun _ _ => AList.notMem_empty _
    simp only [healthyReplicaCount, filledReplicas, Option.map_some, Option.elim_some]
    rw [hcount]
    rfl

end Replicas

/-! ### The chunks of a content -/

def place (req : CommitChunkRequest) : Int × Int × Int :=
  (req.index.toInt, req.offset.toInt, req.size.toInt)

def chunkPlace (n : Int) (i : Nat) : Int × Int × Int :=
  (i, i * 4194304, min 4194304 (n - i * 4194304))

def chunkPlaces (n : Int) : List (Int × Int × Int) :=
  (List.range ((n + 4194303) / 4194304).toNat).map (chunkPlace n)

section Places

variable {n : Int} {p : Int × Int × Int}

lemma mem_chunkPlaces : p ∈ chunkPlaces n ↔ ∃ i : Nat, i * 4194304 < n ∧ chunkPlace n i = p := by
  have hcount (i : Nat) : i < ((n + 4194303) / 4194304).toNat ↔ i * 4194304 < n := by omega
  simp only [chunkPlaces, mem_map, mem_range, hcount]

lemma nodup_chunkPlaces (n : Int) : ((chunkPlaces n).map Prod.fst).Nodup := by
  rw [chunkPlaces, map_map]
  refine List.Nodup.map ?_ nodup_range
  intro i j hij
  exact Int.ofNat.inj hij

lemma sum_sizes_range (hn : 0 < n) (m : Nat) (hm : ∀ i < m, i * 4194304 < n) :
    ((List.range m).map fun i => (chunkPlace n i).2.2).sum = min (m * 4194304 : Int) n := by
  induction m with
  | zero => exact (min_eq_left hn.le).symm
  | succ m ih =>
    have hlast := hm m (Nat.lt_succ_self m)
    rw [range_succ, map_append, sum_append, ih fun i hi => hm i (Nat.lt_succ_of_lt hi)]
    simp only [map_cons, map_nil, sum_cons, sum_nil, chunkPlace]
    omega

lemma sum_chunkPlaces (hn : 0 < n) : ((chunkPlaces n).map (·.2.2)).sum = n := by
  rw [chunkPlaces, map_map]
  refine (sum_sizes_range hn _ ?_).trans ?_
  · intro i hi
    omega
  · omega

end Places

lemma completeSet_of_places (hn : 0 < n)
    (hplaces : (chunks.map fun z => (z.index.toInt, z.offset.toInt, z.size.toInt)).Perm
      (chunkPlaces n)) (hreadable : ∀ z ∈ chunks, Readable z) :
    CompleteSet chunks n ∧ ∀ z ∈ chunks, Aligned z := by
  have hlength : chunks.length = ((n + 4194303) / 4194304).toNat := by
    have := hplaces.length_eq
    simpa [chunkPlaces] using this
  have hmem : ∀ z ∈ chunks, ∃ i : Nat, i * 4194304 < n ∧
      chunkPlace n i = (z.index.toInt, z.offset.toInt, z.size.toInt) := by
    intro z hz
    exact mem_chunkPlaces.mp (hplaces.mem_iff.mp (mem_map_of_mem hz))
  refine ⟨⟨?_, ?_, ?_, hreadable, ?_⟩, ?_⟩
  · rw [← length_pos_iff]
    omega
  · intro j
    constructor
    · rintro ⟨z, hz, rfl⟩
      obtain ⟨i, hi, hplace⟩ := hmem z hz
      obtain ⟨hindex, -⟩ := Prod.mk.inj hplace
      omega
    · rintro ⟨hj, hlt⟩
      have hplace : chunkPlace n j.toNat ∈ chunkPlaces n := mem_chunkPlaces.mpr ⟨_, by omega, rfl⟩
      obtain ⟨z, hz, heq⟩ := mem_map.mp (hplaces.mem_iff.mpr hplace)
      obtain ⟨hindex, -⟩ := Prod.mk.inj heq
      exact ⟨z, hz, by omega⟩
  · intro z hz hlast
    obtain ⟨i, hi, hplace⟩ := hmem z hz
    simp only [chunkPlace, Prod.mk.injEq] at hplace
    rw [← Int64.toInt_inj]
    change _ = (4194304 : Int)
    omega
  · have hsizes := (hplaces.map (·.2.2)).sum_eq
    rw [map_map, sum_chunkPlaces hn] at hsizes
    exact hsizes
  · intro z hz
    obtain ⟨i, hi, hplace⟩ := hmem z hz
    simp only [chunkPlace, Prod.mk.injEq] at hplace
    exact ⟨by omega, by omega, by omega⟩

/-! ### Commits in any order -/

def chunkCore (z : ChunkMetadata) : ChunkMetadata :=
  { z with
    status := .persisted, createdAt := 0, updatedAt := 0, verifiedAt := none, lastErrorCode := "" }

def requestedChunk (f : FileID) (policy : ReplicaPolicy) (req : CommitChunkRequest) :
    ChunkMetadata where
  id := req.chunkID
  fileID := f
  index := req.index
  offset := req.offset
  size := req.size
  status := .persisted
  checksum := req.checksum.getD {}
  replicaPolicy := req.replicaPolicy.getD policy
  replicaCount := ((filledReplicas f req.chunkID req.replicas).elim 0 Table.size : Nat)
  replicas := filledReplicas f req.chunkID req.replicas

structure SoundCommit (u : UploadSessionID) (f : FileID) (required : Int)
    (req : CommitChunkRequest) : Prop where
  session : req.sessionID = u
  chunkID_ne : req.chunkID ≠ ""
  checksum : ∃ c, req.checksum = some c ∧ checksumReady c = true
  replicas : ReplicasFit req.replicas f req.chunkID
  ready : required ≤ healthyReplicaCount req.replicas
  status : req.status ≠ .failed ∧ req.status ≠ .corrupted

structure Uploading (t : MemoryState) (u : UploadSessionID) (y : UploadSession)
    (file : FileMetadata) (done : List CommitChunkRequest) : Prop where
  wellFormed : WellFormed (catalog t)
  chunkTable : ChunkTable (catalog t)
  named : u ≠ ""
  uploads : Uploads (catalog t) u y file
  unfinished : y.status ≠ .completed
  latest : file.latestUploadSessionID = u
  expected : 0 < y.expectedSize
  progress : ProgressFits y
  placed : ∀ req ∈ done, place req ∈ chunkPlaces y.expectedSize.toInt
  chunks : ((chunksOfFile t y.fileID).map chunkCore).Perm
    (done.map (requestedChunk y.fileID file.replicaPolicy))
  readable : ∀ z ∈ chunksOfFile t y.fileID, Readable z

lemma step_of_yields (h : Yields (call.run now) s () t) : Step s (.call now call) t := by
  rw [← exec_of_yields h]
  exact .call now call

lemma chunksOfFile_commit (hchunk : (catalog t).chunk = update (catalog s).chunk z.id (some z))
    (hnew : ∀ w ∈ chunksOfFile s z.fileID, w.id ≠ z.id) :
    (chunksOfFile t z.fileID).Perm (z :: chunksOfFile s z.fileID) := by
  have hnot : z ∉ chunksOfFile s z.fileID := fun hz => hnew z hz rfl
  refine (perm_ext_iff_of_nodup (nodup_chunksOfFile _).of_map
    ((nodup_chunksOfFile _).of_map.cons hnot)).mpr fun w => ?_
  rw [mem_cons, mem_chunksOfFile, hchunk, update_some_eq_some]
  constructor
  · rintro ⟨⟨_, rfl⟩ | ⟨_, hw⟩, hwf⟩
    · exact .inl rfl
    · exact .inr (mem_chunksOfFile.mpr ⟨hw, hwf⟩)
  · rintro (rfl | hw)
    · exact ⟨.inl ⟨rfl, rfl⟩, rfl⟩
    · obtain ⟨hstored, hwf⟩ := mem_chunksOfFile.mp hw
      exact ⟨.inr ⟨hnew w hw, hstored⟩, hwf⟩

section Uploading

variable {u : UploadSessionID} {y : UploadSession} {file : FileMetadata}
  {done : List CommitChunkRequest}

lemma Uploading.request (h : Uploading t u y file done) (hz : z ∈ chunksOfFile t y.fileID) :
    ∃ req ∈ done, chunkCore z = requestedChunk y.fileID file.replicaPolicy req := by
  have hcore := h.chunks.mem_iff.mp (mem_map_of_mem hz)
  obtain ⟨req, hreq, heq⟩ := mem_map.mp hcore
  exact ⟨req, hreq, heq.symm⟩

lemma offsetsFit_of_progressFits (hexpected : 0 < y.expectedSize) (h : ProgressFits y) :
    OffsetsFit s y y.confirmedOffset y.nextOffset := by
  have hsize : uploadExpectedSize s y = y.expectedSize := by
    rw [uploadExpectedSize, if_pos hexpected]
  refine ⟨h.confirmed, Int64.le_trans h.confirmed h.next, h.next, fun hpos => ?_⟩
  rw [hsize] at hpos ⊢
  exact h.expected hpos

def Separate (req req' : CommitChunkRequest) : Prop :=
  req.chunkID ≠ req'.chunkID ∧ req.index ≠ req'.index

structure Next (y : UploadSession) (done : List CommitChunkRequest) (req : CommitChunkRequest) :
    Prop where
  place : place req ∈ chunkPlaces y.expectedSize.toInt
  free : ∀ req' ∈ done, Separate req' req

lemma Uploading.accepts (h : Uploading t u y file done) (hnext : Next y done req)
    (hreq : SoundCommit u y.fileID (requiredReplicas file) req) : CommitAccepted t req y file := by
  obtain ⟨i, hi, hplace⟩ := mem_chunkPlaces.mp hnext.place
  simp only [chunkPlace, place, Prod.mk.injEq] at hplace
  obtain ⟨hindex, hoffset, hsize⟩ := hplace
  have hmax := Int64.toInt_lt y.expectedSize
  have hend : (req.offset + req.size).toInt = req.offset.toInt + req.size.toInt :=
    toInt_add_of_le (by omega) (by omega) (by omega : _ ≤ y.expectedSize.toInt)
  have hexpected : uploadExpectedSize t y = y.expectedSize := by
    rw [uploadExpectedSize, if_pos h.expected]
  have hbytes : fixedChunkSizeBytes.toInt = 4194304 := rfl
  constructor
  · rw [hreq.session]
    exact h.named
  · exact hreq.chunkID_ne
  · exact ⟨toInt_nonneg.mp (by omega), toInt_nonneg.mp (by omega), toInt_nonneg.mp (by omega)⟩
  · intro c hc _
    obtain ⟨c', hc', hready⟩ := hreq.checksum
    obtain rfl : c = c' := Option.mem_unique hc hc'
    rw [checksumReady, Bool.and_eq_true] at hready
    exact Option.isSome_iff_ne_none.mp hready.2
  · rw [hreq.session]
    exact h.uploads
  · exact h.unfinished
  · exact .inr (h.latest.trans hreq.session.symm)
  · exact hreq.replicas
  · rw [Int64.le_iff_toInt_le]
    omega
  · rw [← Int64.toInt_inj, toInt_mul_of_fits (toInt_nonneg.mp (by omega)) (by omega)]
    omega
  · intro k w hw hwf _
    obtain rfl := chunk_id hw
    obtain ⟨req', hreq', hcore⟩ := h.request (mem_chunksOfFile.mpr ⟨hw, hwf⟩)
    have hwindex : w.index = req'.index := congrArg ChunkMetadata.index hcore
    have hwoffset : w.offset = req'.offset := congrArg ChunkMetadata.offset hcore
    have hne : w.index ≠ req.index := by
      rw [hwindex]
      exact (hnext.free req' hreq').2
    -- Both lie at the offsets of their indexes.
    obtain ⟨j, _, hplace'⟩ := mem_chunkPlaces.mp (h.placed req' hreq')
    simp only [chunkPlace, place, Prod.mk.injEq] at hplace'
    refine ⟨hne, fun heq => hne ?_⟩
    rw [← Int64.toInt_inj, hwindex]
    rw [← Int64.toInt_inj, hwoffset] at heq
    omega
  · refine ⟨toInt_nonneg.mp (by omega), toInt_nonneg.mp (by omega), Int64.le_refl _, fun _ => ?_⟩
    rw [hexpected, Int64.le_iff_toInt_le]
    omega

/-- A sound request at a free place is accepted and keeps the upload under way. -/
theorem Uploading.commit (now : Time) (h : Uploading t u y file done) (hnext : Next y done req)
    (hreq : SoundCommit u y.fileID (requiredReplicas file) req) :
    ∃ t' stored, Yields ((Call.commitChunk req).run now) t () t' ∧
      Uploading t' u (committedSession (requestTime now req.committedAt) req y)
        (reopenedFile (requestTime now req.committedAt) stored file) (req :: done) := by
  have haccepted := h.accepts hnext hreq
  obtain ⟨a, t', hyields⟩ : Returns (commitChunk now req) t := haccepted.returns h.wellFormed
  have hrun : Yields ((Call.commitChunk req).run now) t () t' := yields_map.mpr ⟨a, hyields, rfl⟩
  have hstep := step_of_yields hrun
  obtain ⟨y1, file1, replicas, haccepted1, ht', hreplicas, _⟩ := commitChunk_spec h.wellFormed hyields
  obtain ⟨rfl, rfl⟩ := haccepted.uploads.unique haccepted1.uploads
  have hfilled : replicas = filledReplicas y.fileID req.chunkID req.replicas :=
    normalizeChunkReplicas_eq hreplicas
  have hchunk : (catalog t').chunk = update (catalog t).chunk req.chunkID
      (some (committedChunk (requestTime now req.committedAt) req y file replicas)) :=
    congrArg Catalog.chunk ht'
  have hperm : (chunksOfFile t' y.fileID).Perm
      (committedChunk (requestTime now req.committedAt) req y file replicas ::
        chunksOfFile t y.fileID) := by
    refine chunksOfFile_commit (z := committedChunk _ req y file replicas) hchunk ?_
    intro w hw heq
    obtain ⟨req', hreq', hcore⟩ := h.request hw
    have hid : w.id = req'.chunkID := congrArg ChunkMetadata.id hcore
    exact (hnext.free req' hreq').1 (hid.symm.trans heq)
  refine ⟨t', maxChunkEnd (chunksOfFile t' y.fileID), hrun, h.wellFormed.step hstep, ?_, h.named,
    ?_, ?_, h.latest, h.expected, progressFits_of_offsetsFit haccepted.offsets rfl, ?_, ?_, ?_⟩
  · exact h.chunkTable.effect (effect_of_step h.wellFormed hstep)
  · constructor
    · rw [ht', hreq.session]
      exact update_self u _ _
    · rw [ht']
      exact update_self y.fileID _ _
  · exact UploadStatus.noConfusion
  · exact forall_mem_cons.mpr ⟨hnext.place, h.placed⟩
  · refine (hperm.map chunkCore).trans ?_
    rw [map_cons, hfilled]
    exact h.chunks.cons _
  · intro z hz
    rcases mem_cons.mp (hperm.mem_iff.mp hz) with rfl | hz
    · change (if req.status = .other "" then ChunkStatus.persisted else req.status) ≠ .failed ∧
        (if req.status = .other "" then ChunkStatus.persisted else req.status) ≠ .corrupted
      split_ifs
      · exact ⟨ChunkStatus.noConfusion, ChunkStatus.noConfusion⟩
      · exact hreq.status
    · exact h.readable z hz

def sessionCore (y : UploadSession) : UploadSession :=
  { y with
    status := .pending, confirmedOffset := 0, nextOffset := 0, lastPersistedChunk := ""
    retry := {}, updatedAt := 0 }

def fileCore (file : FileMetadata) : FileMetadata :=
  { file with status := .pending, storedSize := 0, checksum := {}, updatedAt := 0 }

lemma sessionCore_eq (h : sessionCore y' = sessionCore y) :
    y'.fileID = y.fileID ∧ y'.expectedSize = y.expectedSize ∧
      y'.verifiedChecksum = y.verifiedChecksum :=
  ⟨(congrArg UploadSession.fileID h :), (congrArg UploadSession.expectedSize h :),
    (congrArg UploadSession.verifiedChecksum h :)⟩

lemma fileCore_policy (h : fileCore file' = fileCore file) :
    file'.replicaPolicy = file.replicaPolicy :=
  (congrArg FileMetadata.replicaPolicy h :)

def runCalls (calls : List (Time × Call)) : StoreM Unit :=
  forM calls fun p => p.2.run p.1

def commitCalls (commits : List (Time × CommitChunkRequest)) : List (Time × Call) :=
  commits.map fun p => (p.1, .commitChunk p.2)

/-- All commits succeed, in any order, and the progress is the end of the last one. -/
theorem Uploading.commits {commits : List (Time × CommitChunkRequest)}
    (h : Uploading t u y file done)
    (hsound : ∀ p ∈ commits, SoundCommit u y.fileID (requiredReplicas file) p.2)
    (hplaced : ∀ p ∈ commits, place p.2 ∈ chunkPlaces y.expectedSize.toInt)
    (hpair : (commits.map Prod.snd).Pairwise Separate)
    (hnew : ∀ p ∈ commits, ∀ req ∈ done, Separate req p.2) :
    ∃ t' y' file', Yields (runCalls (commitCalls commits)) t () t' ∧
      Uploading t' u y' file' ((commits.map Prod.snd).reverse ++ done) ∧
      sessionCore y' = sessionCore y ∧ fileCore file' = fileCore file ∧
      (∀ p ∈ commits.getLast?, y'.confirmedOffset = p.2.offset + p.2.size ∧
        y'.nextOffset = p.2.offset + p.2.size ∧ file'.status = .uploading) ∧
      (commits = [] → y' = y ∧ file' = file) := by
  induction commits generalizing t y file done with
  | nil => exact ⟨t, y, file, yields_forM_nil.mpr rfl, h, rfl, rfl, by simp, fun _ => ⟨rfl, rfl⟩⟩
  | cons p rest ih =>
    obtain ⟨hp, hsound⟩ := forall_mem_cons.mp hsound
    obtain ⟨hplace, hplaced⟩ := forall_mem_cons.mp hplaced
    obtain ⟨hfree, hnew⟩ := forall_mem_cons.mp hnew
    rw [map_cons, pairwise_cons, forall_mem_map] at hpair
    obtain ⟨t1, stored, hrun, h1⟩ := h.commit p.1 ⟨hplace, hfree⟩ hp
    obtain ⟨t', y', file', hrest, h', hsession, hfile, hlast, hnil⟩ :=
      ih h1 hsound hplaced hpair.2 fun q hq =>
        forall_mem_cons.mpr ⟨hpair.1 q hq, hnew q hq⟩
    refine ⟨t', y', file', yields_forM_cons.mpr ⟨t1, hrun, hrest⟩, ?_, hsession, hfile, ?_, by simp⟩
    · rwa [map_cons, reverse_cons, append_assoc, singleton_append]
    · cases rest with
      | nil =>
        obtain ⟨rfl, rfl⟩ := hnil rfl
        rintro q ⟨⟩
        exact ⟨rfl, rfl, rfl⟩
      | cons q rest =>
        exact hlast

/-! ### Complete and verify -/

structure SoundComplete (u : UploadSessionID) (req : CompleteUploadRequest) : Prop where
  session : req.sessionID = u
  shape : ∀ c ∈ req.finalChecksum, c.verified = true → c.verifiedAt ≠ none
  status : req.expectedStatuses = [] ∨ .uploading ∈ req.expectedStatuses

structure SoundVerify (u : UploadSessionID) (complete : CompleteUploadRequest)
    (req : VerifyUploadRequest) : Prop where
  session : req.sessionID = u
  ready : ∀ c ∈ req.verifiedChecksum, checksumReady c = true
  status : req.expectedStatuses = [] ∨ .verifying ∈ req.expectedStatuses
  reported : req.verifiedChecksum.isSome ∨ ∃ c ∈ complete.finalChecksum, checksumReady c = true

def Whole (y : UploadSession) (done : List CommitChunkRequest) : Prop :=
  (done.map place).Perm (chunkPlaces y.expectedSize.toInt)

lemma sorted_of_chunkTable (h : ChunkTable (catalog t)) (f : FileID) :
    (chunksOfFile t f).Pairwise (·.index.toInt < ·.index.toInt) :=
  strictlySorted_chunksOfFile fun k l z w hz hw hzf hwf =>
    h.index k l z w hz hw (hzf.trans hwf.symm)

lemma Uploading.verifiable (h : Uploading t u y file done) (hwhole : Whole y done) :
    Verifiable t file y (maxChunkEnd (chunksOfFile t y.fileID)) ∧
      expectedFileSize file y = y.expectedSize := by
  have hexpected : expectedFileSize file y = y.expectedSize := if_pos h.expected
  have hid : file.id = y.fileID := file_id h.uploads.stored
  have hplaces : ((chunksOfFile t y.fileID).map
      fun z => (z.index.toInt, z.offset.toInt, z.size.toInt)).Perm
      (chunkPlaces y.expectedSize.toInt) := by
    have hcore := h.chunks.map fun z => (z.index.toInt, z.offset.toInt, z.size.toInt)
    rw [map_map, map_map] at hcore
    exact hcore.trans hwhole
  have hpos : 0 < y.expectedSize.toInt := Int64.lt_iff_toInt_lt.mp h.expected
  obtain ⟨hset, haligned⟩ := completeSet_of_places hpos hplaces h.readable
  have hsorted := sorted_of_chunkTable h.chunkTable y.fileID
  refine ⟨?_, hexpected⟩
  rw [← hid] at haligned hsorted hset ⊢
  exact (verifiable_iff_completeSet haligned hsorted).mpr (hexpected ▸ hset)

/-- Completing a whole upload succeeds and leaves it under way. -/
theorem Uploading.complete {req : CompleteUploadRequest} (now : Time)
    (h : Uploading t u y file done) (hwhole : Whole y done) (hstatus : file.status = .uploading)
    (hreq : SoundComplete u req) :
    ∃ t', Yields ((Call.completeUpload req).run now) t () t' ∧
      Uploading t' u (verifyingSession (requestTime now req.completedAt) req y)
        (verifyingFile (requestTime now req.completedAt) req y y.expectedSize file) done := by
  obtain ⟨hverifiable, hexpected⟩ := h.verifiable hwhole
  have haccepted : CompleteAccepted t req y file := by
    refine ⟨?_, hreq.shape, ?_, ?_, hverifiable, h.unfinished,
      offsetsFit_of_progressFits h.expected h.progress⟩
    · rw [hreq.session]
      exact h.named
    · rw [hreq.session]
      exact h.uploads
    · rw [hstatus]
      exact hreq.status
  obtain ⟨a, t', hyields⟩ : Returns (completeUpload now req) t := haccepted.returns h.wellFormed
  have hrun : Yields ((Call.completeUpload req).run now) t () t' :=
    yields_map.mpr ⟨a, hyields, rfl⟩
  have hstep := step_of_yields hrun
  have hc : ChunkTable (catalog t') :=
    h.chunkTable.effect (effect_of_step h.wellFormed hstep)
  obtain ⟨y1, file1, haccepted1, ht', _⟩ := completeUpload_spec h.wellFormed hyields
  obtain ⟨rfl, rfl⟩ := haccepted.uploads.unique haccepted1.uploads
  rw [hverifiable.stored, hexpected] at ht'
  have hchunks := chunksOfFile_withUpload hc (fun z => samePlace_stampChunk z) ht'
  refine ⟨t', hrun, h.wellFormed.step hstep, hc, h.named, ?_, UploadStatus.noConfusion, h.latest,
    h.expected, ⟨h.progress.confirmed, h.progress.next, h.progress.expected⟩, h.placed, ?_, ?_⟩
  · constructor
    · rw [ht', hreq.session]
      exact update_self u _ _
    · rw [ht']
      exact update_self y.fileID _ _
  · change ((chunksOfFile t' y.fileID).map chunkCore).Perm _
    rw [hchunks, map_map]
    exact h.chunks
  · change ∀ z ∈ chunksOfFile t' y.fileID, Readable z
    rw [hchunks, forall_mem_map]
    exact fun _ _ => ⟨ChunkStatus.noConfusion, ChunkStatus.noConfusion⟩

def availableChunk (f : FileID) (policy : ReplicaPolicy) (req : CommitChunkRequest) :
    ChunkMetadata :=
  { requestedChunk f policy req with status := .available }

def untimedChunk (z : ChunkMetadata) : ChunkMetadata :=
  { z with createdAt := 0, updatedAt := 0, verifiedAt := none }

def untimedFile (file : FileMetadata) : FileMetadata :=
  { file with createdAt := 0, updatedAt := 0, completedAt := none }

def verifiedFile (size : Int64) (checksum : Checksum) (file : FileMetadata) : FileMetadata :=
  untimedFile { file with
    status := .available, size := size, storedSize := size, checksum := checksum }

lemma verifiedFile_fileCore :
    verifiedFile size checksum (fileCore file) = verifiedFile size checksum file := rfl

structure Uploaded (t : MemoryState) (f : FileID) (file : FileMetadata) (size : Int64)
    (checksum : Checksum) (done : List CommitChunkRequest) : Prop where
  record : ((catalog t).file f).map untimedFile = some (verifiedFile size checksum file)
  sorted : (chunksOfFile t f).Pairwise (·.index.toInt < ·.index.toInt)
  chunks : ((chunksOfFile t f).map untimedChunk).Perm
    (done.map (availableChunk f file.replicaPolicy))

lemma Uploading.servable (h : Uploading t u y file done)
    (hsound : ∀ req ∈ done, SoundCommit u y.fileID (requiredReplicas file) req) :
    ∀ z ∈ chunksOfFile t y.fileID, Servable file z := by
  intro z hz
  obtain ⟨req, hreq, hcore⟩ := h.request hz
  obtain ⟨c, hc, hready⟩ := (hsound req hreq).checksum
  have hchecksum : z.checksum = req.checksum.getD {} := congrArg ChunkMetadata.checksum hcore
  have hreplicas : z.replicas = filledReplicas y.fileID req.chunkID req.replicas :=
    congrArg ChunkMetadata.replicas hcore
  constructor
  · rw [hchecksum, hc]
    exact hready
  · rw [hreplicas, healthyReplicaCount_filledReplicas]
    exact (hsound req hreq).ready

/-- Verifying a whole upload succeeds exactly when the last commit ended the content. -/
theorem Uploading.verify {req : VerifyUploadRequest} (now : Time)
    (h : Uploading t u y file done) (hwhole : Whole y done)
    (hsound : ∀ req ∈ done, SoundCommit u y.fileID (requiredReplicas file) req)
    (hstatus : file.status = .verifying) (hu : req.sessionID = u)
    (hready : ∀ c ∈ req.verifiedChecksum, checksumReady c = true)
    (hreq : req.expectedStatuses = [] ∨ .verifying ∈ req.expectedStatuses)
    (hselected : selectVerifiedFileChecksum req.verifiedChecksum y = some checksum) :
    (Returns ((Call.verifyUpload req).run now) t ↔ y.confirmedOffset = y.expectedSize) ∧
      ∀ t', Yields ((Call.verifyUpload req).run now) t () t' →
        Uploaded t' y.fileID file y.expectedSize checksum done ∧
          (catalog t').session u =
            some (availableSession (requestTime now req.verifiedAt) req y) := by
  have hsize : uploadExpectedSize t y = y.expectedSize := by
    rw [uploadExpectedSize, if_pos h.expected]
  have huploads : Uploads (catalog t) req.sessionID y file := by
    rw [hu]
    exact h.uploads
  obtain ⟨hverifiable, hexpected⟩ := h.verifiable hwhole
  refine ⟨⟨?_, fun hconfirmed => ?_⟩, ?_⟩
  · rintro ⟨⟨⟩, t', hrun⟩
    obtain ⟨a, hyields, -⟩ := yields_map.mp hrun
    obtain ⟨y1, file1, _, haccepted, _⟩ := verifyUpload_spec h.wellFormed hyields
    obtain ⟨rfl, rfl⟩ := huploads.unique haccepted.uploads
    have hconfirmed := haccepted.confirmed
    rw [hsize] at hconfirmed
    exact hconfirmed h.expected
  · have haccepted : VerifyAccepted t req y file checksum := by
      refine ⟨?_, hready, huploads, ?_, hverifiable, h.servable hsound, hselected, fun _ =>
        ⟨h.unfinished, offsetsFit_of_progressFits h.expected h.progress⟩, fun _ => ?_⟩
      · rw [hu]
        exact h.named
      · rw [hstatus]
        exact hreq
      · rw [hsize]
        exact hconfirmed
    obtain ⟨a, t', hyields⟩ : Returns (verifyUpload now req) t := haccepted.returns h.wellFormed
    exact ⟨(), t', yields_map.mpr ⟨a, hyields, rfl⟩⟩
  · intro t' hrun
    have hstep := step_of_yields hrun
    have hc : ChunkTable (catalog t') :=
      h.chunkTable.effect (effect_of_step h.wellFormed hstep)
    obtain ⟨a, hyields, -⟩ := yields_map.mp hrun
    obtain ⟨y1, file1, checksum1, haccepted, ht', _⟩ := verifyUpload_spec h.wellFormed hyields
    obtain ⟨rfl, rfl⟩ := huploads.unique haccepted.uploads
    obtain rfl : checksum = checksum1 := Option.mem_unique hselected haccepted.selected
    rw [hverifiable.stored] at ht'
    have hchunks := chunksOfFile_withUpload hc (fun z => samePlace_stampChunk z) ht'
    refine ⟨⟨?_, sorted_of_chunkTable hc _, ?_⟩, ?_⟩
    · rw [ht', file_withUpload, update_self, availableFile, hexpected]
      rfl
    · rw [hchunks, map_map]
      have hstamped := h.chunks.map fun z => { z with status := ChunkStatus.available }
      rw [map_map, map_map] at hstamped
      exact hstamped
    · rw [ht', hu]
      exact update_self u _ _

def uploadChecksum (complete : CompleteUploadRequest) (verify : VerifyUploadRequest)
    (y : UploadSession) : Option Checksum :=
  verify.verifiedChecksum.filter checksumReady <|>
    (complete.finalChecksum.filter checksumReady <|> y.verifiedChecksum).filter checksumReady

lemma SoundVerify.checksum (h : SoundVerify u complete verify) (y : UploadSession) :
    ∃ checksum, uploadChecksum complete verify y = some checksum := by
  unfold uploadChecksum
  cases hv : verify.verifiedChecksum with
  | some c => exact ⟨c, by simp [Option.filter_some, h.ready c hv]⟩
  | none =>
    have hreported := h.reported
    rw [hv] at hreported
    obtain ⟨c, hc, hready⟩ := hreported.resolve_left (by simp)
    rw [Option.mem_def] at hc
    exact ⟨c, by simp [hc, hready]⟩

def uploadCalls (commits : List (Time × CommitChunkRequest))
    (complete : Time × CompleteUploadRequest) (verify : Time × VerifyUploadRequest) :
    List (Time × Call) :=
  commitCalls commits ++
    [(complete.1, .completeUpload complete.2), (verify.1, .verifyUpload verify.2)]

lemma Separate.symm (h : Separate req req') : Separate req' req :=
  ⟨h.1.symm, h.2.symm⟩

lemma separate_of_nodup (hids : (done.map (·.chunkID)).Nodup)
    (hplaces : ((done.map place).map Prod.fst).Nodup) : done.Pairwise Separate := by
  have hindexes : (done.map (·.index)).Nodup := by
    refine List.Nodup.of_map Int64.toInt ?_
    rwa [map_map] at hplaces ⊢
  exact (pairwise_map.mp hids).and (pairwise_map.mp hindexes)

lemma Whole.separate (h : Whole y done) (hids : (done.map (·.chunkID)).Nodup) :
    done.Pairwise Separate :=
  separate_of_nodup hids ((h.map Prod.fst).nodup_iff.mpr (nodup_chunkPlaces _))

def closingCalls (complete : Time × CompleteUploadRequest) (verify : Time × VerifyUploadRequest) :
    List (Time × Call) :=
  [(complete.1, .completeUpload complete.2), (verify.1, .verifyUpload verify.2)]

/-- Closing a whole upload succeeds exactly when the last commit ended the content. -/
theorem Uploading.finishes {complete : Time × CompleteUploadRequest}
    {verify : Time × VerifyUploadRequest} (h : Uploading s u y file done)
    (hwhole : Whole y done)
    (hsound : ∀ req ∈ done, SoundCommit u y.fileID (requiredReplicas file) req)
    (hstatus : file.status = .uploading)
    (hcomplete : SoundComplete u complete.2) (hverify : SoundVerify u complete.2 verify.2)
    (hchecksum : uploadChecksum complete.2 verify.2 y = some checksum) :
    (Returns (runCalls (closingCalls complete verify)) s ↔ y.confirmedOffset = y.expectedSize) ∧
    ∀ t, Yields (runCalls (closingCalls complete verify)) s () t →
      Uploaded t y.fileID file y.expectedSize checksum done ∧
      (catalog t).session u = some (availableSession (requestTime verify.1 verify.2.verifiedAt)
        verify.2 (verifyingSession (requestTime complete.1 complete.2.completedAt) complete.2 y)) := by
  obtain ⟨t1, hrun1, h1⟩ := h.complete complete.1 hwhole hstatus hcomplete
  have hselected : selectVerifiedFileChecksum verify.2.verifiedChecksum
      (verifyingSession (requestTime complete.1 complete.2.completedAt) complete.2 y) =
        some checksum := hchecksum
  obtain ⟨hreturns, hresult⟩ := h1.verify verify.1 hwhole hsound rfl hverify.session hverify.ready
    hverify.status hselected
  have hcalls : ∀ t, Yields (runCalls (closingCalls complete verify)) s () t ↔
      Yields ((Call.verifyUpload verify.2).run verify.1) t1 () t := by
    intro t
    rw [runCalls, closingCalls]
    simp only [yields_forM_cons, yields_forM_nil]
    constructor
    · rintro ⟨r1, hr1, r2, hr2, rfl⟩
      obtain ⟨-, rfl⟩ := hrun1.unique hr1
      exact hr2
    · intro hr2
      exact ⟨t1, hrun1, t, hr2, rfl⟩
  refine ⟨Iff.trans ⟨?_, ?_⟩ hreturns, fun t ht => ?_⟩
  · rintro ⟨⟨⟩, t, ht⟩
    exact ⟨(), t, (hcalls t).mp ht⟩
  · rintro ⟨⟨⟩, t, ht⟩
    exact ⟨(), t, (hcalls t).mpr ht⟩
  · obtain ⟨⟨hrecord, hsorted, hchunks⟩, hsession⟩ := hresult t ((hcalls t).mp ht)
    exact ⟨⟨hrecord, hsorted, hchunks⟩, hsession⟩

theorem Uploading.closes {commits : List (Time × CommitChunkRequest)}
    {complete : Time × CompleteUploadRequest} {verify : Time × VerifyUploadRequest}
    (h : Uploading s u y file done) (hne : commits ≠ [])
    (hsound : ∀ req ∈ (commits.map Prod.snd).reverse ++ done,
      SoundCommit u y.fileID (requiredReplicas file) req)
    (hwhole : Whole y ((commits.map Prod.snd).reverse ++ done))
    (hids : (((commits.map Prod.snd).reverse ++ done).map (·.chunkID)).Nodup)
    (hcomplete : SoundComplete u complete.2) (hverify : SoundVerify u complete.2 verify.2)
    (hchecksum : uploadChecksum complete.2 verify.2 y = some checksum) :
    (Returns (runCalls (uploadCalls commits complete verify)) s ↔
      ∃ p ∈ commits.getLast?, p.2.offset + p.2.size = y.expectedSize) ∧
    ∀ t, Yields (runCalls (uploadCalls commits complete verify)) s () t →
      Uploaded t y.fileID file y.expectedSize checksum ((commits.map Prod.snd).reverse ++ done) ∧
      ∃ y' when when', (catalog t).session u =
          some (availableSession when verify.2 (verifyingSession when' complete.2 y')) ∧
        sessionCore y' = sessionCore y ∧ y'.confirmedOffset = y.expectedSize ∧
        y'.nextOffset = y.expectedSize := by
  have hpair := hwhole.separate hids
  rw [pairwise_append, pairwise_reverse] at hpair
  obtain ⟨hcommits, _, hcross⟩ := hpair
  have hmem : ∀ p ∈ commits, p.2 ∈ (commits.map Prod.snd).reverse := fun p hp =>
    mem_reverse.mpr (mem_map_of_mem hp)
  have hplaced : ∀ p ∈ commits, place p.2 ∈ chunkPlaces y.expectedSize.toInt := fun p hp =>
    hwhole.mem_iff.mp (mem_map_of_mem (mem_append_left _ (hmem p hp)))
  obtain ⟨t1, y1, file1, hrun1, h1, hsession1, hfile1, hlast, _⟩ :=
    h.commits (fun p hp => hsound _ (mem_append_left _ (hmem p hp))) hplaced
      (hcommits.imp Separate.symm) fun p hp req hreq => (hcross _ (hmem p hp) req hreq).symm
  obtain ⟨hfileID, hsize, hverified⟩ := sessionCore_eq hsession1
  have hpolicy := fileCore_policy hfile1
  obtain ⟨p, hp⟩ : ∃ p, commits.getLast? = some p :=
    Option.isSome_iff_exists.mp (getLast?_isSome.mpr hne)
  obtain ⟨hconfirmed, hnext, hstatus⟩ := hlast p hp
  have hwhole1 : Whole y1 ((commits.map Prod.snd).reverse ++ done) := by
    rw [Whole, hsize]
    exact hwhole
  have hrequired : requiredReplicas file1 = requiredReplicas file := by
    rw [requiredReplicas, requiredReplicas, hpolicy]
  have hsound1 : ∀ req ∈ (commits.map Prod.snd).reverse ++ done,
      SoundCommit u y1.fileID (requiredReplicas file1) req := by
    rw [hfileID, hrequired]
    exact hsound
  have hchecksum1 : uploadChecksum complete.2 verify.2 y1 = some checksum := by
    rw [← hchecksum, uploadChecksum, uploadChecksum, hverified]
  obtain ⟨hreturns, hresult⟩ :=
    h1.finishes hwhole1 hsound1 hstatus hcomplete hverify hchecksum1
  have hcalls : ∀ t, Yields (runCalls (uploadCalls commits complete verify)) s () t ↔
      Yields (runCalls (closingCalls complete verify)) t1 () t := by
    intro t
    rw [runCalls, uploadCalls, yields_forM_append]
    constructor
    · rintro ⟨r1, hr1, hr2⟩
      obtain ⟨-, rfl⟩ := hrun1.unique hr1
      exact hr2
    · intro hr2
      exact ⟨t1, hrun1, hr2⟩
  have hlastEnd : y1.confirmedOffset = y1.expectedSize ↔
      ∃ p ∈ commits.getLast?, p.2.offset + p.2.size = y.expectedSize := by
    rw [hconfirmed, hsize, hp]
    simp
  have hiff : Returns (runCalls (uploadCalls commits complete verify)) s ↔
      y1.confirmedOffset = y1.expectedSize := by
    refine Iff.trans ?_ hreturns
    constructor
    · rintro ⟨⟨⟩, t, ht⟩
      exact ⟨(), t, (hcalls t).mp ht⟩
    · rintro ⟨⟨⟩, t, ht⟩
      exact ⟨(), t, (hcalls t).mpr ht⟩
  refine ⟨hiff.trans hlastEnd, fun t ht => ?_⟩
  obtain ⟨⟨hrecord, hsorted, hchunks⟩, hsession⟩ := hresult t ((hcalls t).mp ht)
  have hend : y1.confirmedOffset = y1.expectedSize := hiff.mp ⟨(), t, ht⟩
  refine ⟨⟨?_, hfileID ▸ hsorted, ?_⟩, y1, _, _, hsession, hsession1, hend.trans hsize, ?_⟩
  · rw [← verifiedFile_fileCore, ← hfile1, ← hfileID, ← hsize]
    exact hrecord
  · rw [← hfileID, ← hpolicy]
    exact hchunks
  · rw [hnext, ← hconfirmed, hend, hsize]

end Uploading

end AstraStorage.Proofs
