import AstraStorage.Proofs.ControllerSteps
import AstraStorage.Proofs.Placement

/-!
# What the failover planner does with a chunk

A run visits the chunks of each unavailable node in turn, as long as its budget lasts. A visited
chunk either stays as it is, or a plan and a pending replica are written for it.
-/

namespace AstraStorage.Proofs
open Lib Prog Store Coordinator Allocator Function List

variable {nodes : List NodeInfo} {chunks : List ChunkMetadata} {nodeID : NodeID}
  {role : ReplicaRole} {plan p : ReplicaPlan} {now : Time} {u : Unit} {k : ReplicaPlanID}
  {s t : MemoryState} {sem : Semantics coordinatorSteps World}

section Listings

def allNodes (s : MemoryState) : List NodeInfo := s.nodes.values.insertionSort (·.id ≤ ·.id)

lemma yields_listNodes : Yields (listNodes {}) s nodes t ↔ nodes = allNodes s ∧ t = s := by
  have hlabels (labels : StringMap) : hasLabels labels none = true := rfl
  simp only [listNodes, yields_get_bind, yields_pure, applyListWindow_all, allNodes, hlabels,
    isEmpty_nil, Bool.true_or, Bool.not_false, decide_true, Bool.and_self, filter_true]

lemma mem_allNodes : node ∈ allNodes s ↔ (catalog s).node node.id = some node := by
  rw [allNodes, mem_insertionSort, Records.mem_values]
  rfl

lemma mem_of_listNodes {filter : NodeFilter} (h : Yields (listNodes filter) s nodes t)
    (hnode : node ∈ nodes) : (catalog s).node node.id = some node := by
  obtain ⟨rfl, -⟩ := h
  have hmem := mem_of_mem_applyListWindow hnode
  rw [mem_insertionSort, mem_filter] at hmem
  exact Records.mem_values.mp hmem.1

lemma allNodes_sorted : (allNodes s).Pairwise fun a b => a.id < b.id := by
  let le : NodeInfo → NodeInfo → Prop := fun a b => a.id ≤ b.id
  have hsorted : (allNodes s).Pairwise le := pairwise_insertionSort le _
  have hdistinct : (allNodes s).Pairwise fun a b => a.id ≠ b.id := by
    have hnodup := s.nodes.nodup
    rw [List.Nodup, pairwise_map] at hnodup
    exact (perm_insertionSort _ _).symm.pairwise hnodup fun h => Ne.symm h
  exact (hsorted.and hdistinct).imp fun h => lt_of_le_of_ne h.1 h.2

abbrev chunkOrder (a b : ChunkMetadata) : Prop :=
  a.fileID < b.fileID ∨ (a.fileID = b.fileID ∧ a.index ≤ b.index)

instance : Std.Total chunkOrder where
  total a b := by
    rcases lt_trichotomy a.fileID b.fileID with h | h | h
    · exact .inl (.inl h)
    · exact (Int64.le_total a.index b.index).imp (fun hle => .inr ⟨h, hle⟩)
        fun hle => .inr ⟨h.symm, hle⟩
    · exact .inr (.inl h)

instance : IsTrans ChunkMetadata chunkOrder where
  trans a b c := by
    rintro (hab | ⟨hab, hab'⟩) (hbc | ⟨hbc, hbc'⟩)
    · exact .inl (hab.trans hbc)
    · exact .inl (hbc ▸ hab)
    · exact .inl (hab ▸ hbc)
    · exact .inr ⟨hab.trans hbc, Int64.le_trans hab' hbc'⟩

def chunksOn (s : MemoryState) (nodeID : NodeID) : List ChunkMetadata :=
  (s.chunks.values.filter fun chunk =>
    chunk.replicas.any fun replicas => (replicas.lookup nodeID).isSome).insertionSort fun a b =>
      a.fileID < b.fileID ∨ (a.fileID = b.fileID ∧ a.index ≤ b.index)

lemma yields_listChunksByNode :
    Yields (listChunksByNode nodeID) s chunks t ↔ chunks = chunksOn s nodeID ∧ t = s := by
  simp only [listChunksByNode, yields_get_bind, yields_pure, chunksOn, eq_comm]

lemma mem_chunksOn :
    z ∈ chunksOn s nodeID ↔
      (catalog s).chunk z.id = some z ∧ (replicaOn z.replicas nodeID).isSome :=
  (listChunksByNode_spec (yields_listChunksByNode.mpr ⟨rfl, rfl⟩)).2 z

lemma chunksOn_sorted (nodeID : NodeID) : (chunksOn s nodeID).Pairwise chunkOrder :=
  pairwise_insertionSort chunkOrder _

lemma yields_getFile_selector :
    Yields (getFile selector) s file t ↔ findFile s selector = some file ∧ t = s := by
  simp only [getFile, yields_get_bind, yields_expect]

lemma yields_listReplicaPlans {filter : ReplicaPlanFilter} (hlimit : filter.limit = 0)
    (hoffset : filter.offset = 0)
    (h : Yields (listReplicaPlans filter) s plans t) (p : ReplicaPlan) :
    p ∈ plans ↔ (catalog s).plan p.id = some p ∧ filter.matches p = true := by
  simp only [listReplicaPlans, yields_get_bind, yields_pure, hlimit, hoffset,
    applyListWindow_all] at h
  obtain ⟨rfl, rfl⟩ := h
  rw [mem_insertionSort, mem_filter, Records.mem_values]
  rfl

end Listings

section Chunk

variable {chunk : ChunkMetadata}

def ActivelyPlanned (s : MemoryState) (chunk : ChunkMetadata) : Prop :=
  ∃ k p, (catalog s).plan k = some p ∧ (FailoverPlanner.activePlans chunk).matches p = true

structure Wanted (s : MemoryState) (chunk : ChunkMetadata) (file : FileMetadata) : Prop where
  short : countEffectiveReadyReplicas chunk (allNodes s) <
    FailoverPlanner.desiredReplicaCount chunk file
  unplanned : ¬ActivelyPlanned s chunk
  placed : selectPlacementTargets (FailoverPlanner.placementRequest chunk (allNodes s)) ≠ []

lemma yields_pendingReplicaWrites :
    Yields (RepositoryCall.inTx (pendingReplicaWrites role plan chunk now)).run s u t ↔
      PlanAccepted s plan ∧ ∃ z, findChunk s { id := chunk.id } = some z ∧
        t = { s with
          replicaPlans := s.replicaPlans.put plan
          chunks := s.chunks.put ((pendingPatch role plan chunk now).apply z) } := by
  change Yields (inTx (forM (pendingReplicaWrites role plan chunk now) Write.run)) s u t ↔ _
  simp only [pendingReplicaWrites, yields_inTx, yields_forM_cons, yields_forM_nil, Write.run,
    yields_createReplicaPlan, yields_updateChunkReplicas]
  constructor
  · rintro ⟨r, ⟨hplan, rfl⟩, r', ⟨z, hz, rfl⟩, rfl⟩
    exact ⟨hplan, z, hz, rfl⟩
  · rintro ⟨hplan, z, hz, rfl⟩
    exact ⟨_, ⟨hplan, rfl⟩, _, ⟨z, hz, rfl⟩, rfl⟩

def failoverRole (chunk : ChunkMetadata) : ReplicaRole :=
  if replicaLen chunk = 0 then .primary else .secondary

def FailoverPlanned (s t : MemoryState) (chunk : ChunkMetadata) (nodeID : NodeID) (now : Time) :
    Prop :=
  ∃ target rest,
    selectPlacementTargets (FailoverPlanner.placementRequest chunk (allNodes s)) = target :: rest ∧
    Yields (RepositoryCall.inTx (pendingReplicaWrites (failoverRole chunk)
      (FailoverPlanner.newPlan chunk nodeID target now) chunk now)).run s () t

structure PlanAdded (s t : MemoryState) (plan : ReplicaPlan) : Prop where
  accepted : PlanAccepted s plan
  nodes : t.nodes = s.nodes
  files : t.files = s.files
  plans : (catalog t).plan = update (catalog s).plan plan.id (some plan)
  chunks : ∃ z, (catalog t).chunk = update (catalog s).chunk plan.chunkID (some z)

lemma planAdded_of_writes (hchunk : plan.chunkID = chunk.id)
    (h : Yields (RepositoryCall.inTx (pendingReplicaWrites role plan chunk now)).run s u t) :
    PlanAdded s t plan := by
  obtain ⟨hacc, z, hz, rfl⟩ := yields_pendingReplicaWrites.mp h
  have hne : chunk.id ≠ "" := hchunk ▸ hacc.chunk_ne
  rw [findChunk_id hne] at hz
  have hid : ((pendingPatch role plan chunk now).apply z).id = plan.chunkID :=
    (chunk_id hz).trans hchunk.symm
  refine ⟨hacc, rfl, rfl, ?_, (pendingPatch role plan chunk now).apply z, ?_⟩
  · rw [catalog_putChunk (s := { s with replicaPlans := s.replicaPlans.put plan }),
      catalog_putReplicaPlan]
  · rw [catalog_putChunk (s := { s with replicaPlans := s.replicaPlans.put plan }), hid,
      catalog_putReplicaPlan]

section PlanAdded

variable (h : PlanAdded s t plan)
include h

lemma PlanAdded.plan_kept (hp : (catalog s).plan k = some p) : (catalog t).plan k = some p := by
  rw [h.plans]
  exact update_of_new h.accepted.fresh hp

lemma PlanAdded.plan_cases (hp : (catalog t).plan k = some p) :
    p = plan ∨ (catalog s).plan k = some p := by
  rw [h.plans, update_some_eq_some] at hp
  rcases hp with ⟨-, rfl⟩ | ⟨-, hp⟩
  · exact .inl rfl
  · exact .inr hp

lemma PlanAdded.stored : (catalog t).plan plan.id = some plan := by
  rw [h.plans]
  exact update_self ..

lemma PlanAdded.chunk_of_ne (hj : j ≠ plan.chunkID) :
    (catalog t).chunk j = (catalog s).chunk j := by
  obtain ⟨z, hz⟩ := h.chunks
  rw [hz, update_of_ne hj]

end PlanAdded

variable (hsem : ∀ {o w r w'}, sem o w r w' → coordinatorSemantics o w r w')
include hsem

lemma ensures_announce (f : FailoverPlanner) (plan : ReplicaPlan) (now : Time) :
    Ensures sem w (f.announce plan chunk now)
      (fun planned w' => planned = true ∧ w'.store = w.store) (fun _ => True) := by
  refine ensures_ite (fun _ => ?_) fun _ => ensures_pure ⟨rfl, rfl⟩
  have hpublish : Ensures sem w (publish (.failover (newFailoverTask plan)))
      (fun _ w' => w'.store = w.store) (fun _ => True) :=
    ensures_publish hsem rfl fun _ _ => trivial
  refine hpublish.attempt.bind fun published w' hpublished => ?_
  cases published with
  | ok _ => exact ensures_pure ⟨rfl, hpublished⟩
  | error err =>
    refine ensures_any.bind fun rolledBack w'' _ => ?_
    cases rolledBack with
    | ok _ | error _ => exact ensures_throw trivial

/-- A visit without an error: the chunk is planned exactly if it is wanted. -/
theorem ensures_planChunkFailover (f : FailoverPlanner) (nodeID : NodeID) (now : Time) :
    Ensures sem w (f.planChunkFailover chunk nodeID now)
      (fun planned w' => ∃ file, findFile w.store { id := chunk.fileID } = some file ∧
        (planned = true ∧ Wanted w.store chunk file ∧
          FailoverPlanned w.store w'.store chunk nodeID now ∨
        planned = false ∧ ¬Wanted w.store chunk file ∧ w'.store = w.store))
      (fun _ => True) := by
  refine ensures_read_bind hsem rfl (fun file hfile => ?_) trivial
  replace hfile := (yields_getFile_selector.mp hfile).1
  refine ensures_read_bind hsem rfl (fun nodes hnodes => ?_) trivial
  obtain rfl := (yields_listNodes.mp hnodes).1
  refine ensures_ite (fun henough => ?_) fun hshort => ?_
  · exact ensures_pure
      ⟨file, hfile, .inr ⟨rfl, fun h => absurd h.short (not_lt.mpr henough), rfl⟩⟩
  refine ensures_read_bind hsem rfl (fun active hactive => ?_) trivial
  have hmem := yields_listReplicaPlans rfl rfl hactive
  refine ensures_ite (fun hsome => ?_) fun hnone => ?_
  · obtain ⟨p, hp⟩ := exists_mem_of_length_pos hsome
    have hplanned : ActivelyPlanned w.store chunk := ⟨p.id, p, (hmem p).mp hp⟩
    exact ensures_pure ⟨file, hfile, .inr ⟨rfl, fun h => h.unplanned hplanned, rfl⟩⟩
  have hunplanned : ¬ActivelyPlanned w.store chunk := by
    rintro ⟨k, p, hp, hmatches⟩
    have hlisted := (hmem p).mpr ⟨(plan_id hp).symm ▸ hp, hmatches⟩
    exact hnone (length_pos_of_mem hlisted)
  cases hselect : selectPlacementTargets
      (FailoverPlanner.placementRequest chunk (allNodes w.store)) with
  | nil => exact ensures_pure ⟨file, hfile, .inr ⟨rfl, fun h => h.placed hselect, rfl⟩⟩
  | cons target rest =>
    have hwanted : Wanted w.store chunk file :=
      ⟨not_le.mp hshort, hunplanned, by rw [hselect]; exact cons_ne_nil _ _⟩
    have hwrites : Ensures sem w (FailoverPlanner.materializePendingReplica
        (FailoverPlanner.newPlan chunk nodeID target now) chunk now)
        (fun _ w' => FailoverPlanned w.store w'.store chunk nodeID now) (fun _ => True) :=
      ensures_call hsem (fun u s hrun => ⟨target, rest, hselect, hrun⟩) trivial
    refine hwrites.bind fun _ w1 hplanned => ?_
    refine (ensures_announce hsem f _ now).mono ?_ fun _ h => h
    rintro planned w2 ⟨rfl, hstore⟩
    rw [hstore]
    exact ⟨file, hfile, .inl ⟨rfl, hwanted, hplanned⟩⟩

end Chunk

section Loops

variable (f : FailoverPlanner) (now : Time)

lemma ensures_listUnavailableNodes
    (hsem : ∀ {o w r w'}, sem o w r w' → coordinatorSemantics o w r w') :
    Ensures sem w (f.listUnavailableNodes now)
      (fun nodes w' => nodes = (allNodes w.store).filter (f.isNodeUnavailable · now) ∧ w' = w)
      (fun _ => True) := by
  refine ensures_read_bind hsem rfl (fun nodes hnodes => ?_) trivial
  obtain rfl := (yields_listNodes.mp hnodes).1
  exact ensures_pure ⟨rfl, rfl⟩

lemma ensures_planChunks (nodeID : NodeID) {P : List ChunkMetadata → Int → World → Prop}
    (h : P [] remaining w)
    (hvisit : ∀ done chunk rest r w, chunks = done ++ chunk :: rest → r ≠ 0 → P done r w →
      Ensures sem w (f.planChunkFailover chunk nodeID now)
        (fun planned w' => P (done ++ [chunk]) (if planned then r - 1 else r) w') E) :
    Ensures sem w (f.planChunks nodeID now chunks remaining)
      (fun n w' => ∃ done rest, chunks = done ++ rest ∧ P done (remaining - n) w' ∧
        (rest = [] ∨ remaining - n = 0)) E := by
  suffices hloop : ∀ rest done r w, chunks = done ++ rest → P done r w →
      Ensures sem w (f.planChunks nodeID now rest r)
        (fun n w' => ∃ done rest, chunks = done ++ rest ∧ P done (r - n) w' ∧
          (rest = [] ∨ r - n = 0)) E from
    hloop chunks [] remaining w rfl h
  intro rest
  induction rest with
  | nil =>
    intro done r w hchunks hP
    exact ensures_pure ⟨done, [], hchunks, by rwa [Int.sub_zero], .inl rfl⟩
  | cons chunk rest ih =>
    intro done r w hchunks hP
    refine ensures_ite (fun hr => ?_) fun hr => ?_
    · exact ensures_pure ⟨done, chunk :: rest, hchunks, by rwa [Int.sub_zero],
        .inr (by rw [Int.sub_zero, hr])⟩
    refine (hvisit done chunk rest r w hchunks hr hP).bind fun planned w' hP' => ?_
    have hchunks' : chunks = (done ++ [chunk]) ++ rest := by
      rw [hchunks, append_assoc, singleton_append]
    cases planned with
    | false => exact ih (done ++ [chunk]) r w' hchunks' hP'
    | true =>
      refine (ih (done ++ [chunk]) (r - 1) w' hchunks' hP').bind fun n w'' hn => ?_
      obtain ⟨done', rest', heq, hP'', hend⟩ := hn
      have hbudget : r - 1 - n = r - (n + 1) := by omega
      rw [hbudget] at hP'' hend
      exact ensures_pure ⟨done', rest', heq, hP'', hend⟩

lemma ensures_planNodes_visits {P : List NodeInfo → Int → World → Prop} (h : P [] remaining w)
    (hvisit : ∀ done node rest r w, nodes = done ++ node :: rest → r ≠ 0 → P done r w →
      Ensures sem w (f.planNodeFailover node now r)
        (fun n w' => P (done ++ [node]) (r - n) w') E) :
    Ensures sem w (f.planNodes now nodes remaining)
      (fun _ w' => ∃ done rest r, nodes = done ++ rest ∧ P done r w' ∧ (rest = [] ∨ r = 0)) E := by
  suffices hloop : ∀ rest done r w, nodes = done ++ rest → P done r w →
      Ensures sem w (f.planNodes now rest r)
        (fun _ w' => ∃ done rest r, nodes = done ++ rest ∧ P done r w' ∧ (rest = [] ∨ r = 0)) E from
    hloop nodes [] remaining w rfl h
  intro rest
  induction rest with
  | nil =>
    intro done r w hnodes hP
    exact ensures_pure ⟨done, [], r, hnodes, hP, .inl rfl⟩
  | cons node rest ih =>
    intro done r w hnodes hP
    refine ensures_ite (fun hr => ?_) fun hr => ?_
    · exact ensures_pure ⟨done, node :: rest, r, hnodes, hP, .inr hr⟩
    refine (hvisit done node rest r w hnodes hr hP).bind fun n w' hP' => ?_
    refine ih (done ++ [node]) (r - n) w' ?_ hP'
    rw [hnodes, append_assoc, singleton_append]

end Loops

structure Movable (s : MemoryState) (source : NodeInfo) (targets : List NodeInfo)
    (move : RebalanceMove) : Prop where
  leaves : move.source = source
  listed : move.chunk ∈ chunksOn s source.id
  unplanned : ∀ k p, (catalog s).plan k = some p →
    (RebalancePlanner.activePlans move.chunk).matches p = false
  enough : RebalancePlanner.desiredReplicaCount move.chunk ≤
    countEffectiveReadyReplicas move.chunk (allNodes s)
  placed : move.target ∈
    selectPlacementTargets (RebalancePlanner.placementRequest move.chunk targets)

section Rebalancing

variable (hsem : ∀ {o w r w'}, sem o w r w' → coordinatorSemantics o w r w')
include hsem

lemma ensures_movable (source : NodeInfo) (targets : List NodeInfo)
    (hchunks : chunks ⊆ chunksOn w.store source.id) :
    Ensures sem w (RebalancePlanner.selectMove source targets (allNodes w.store) chunks)
      (fun found w' => w' = w ∧ ∀ move ∈ found, Movable w.store source targets move) (· = w) := by
  induction chunks with
  | nil =>
    exact ensures_pure ⟨rfl, fun move hmove => (Option.not_mem_none move hmove).elim⟩
  | cons chunk chunks ih =>
    obtain ⟨hchunk, hrest⟩ := cons_subset.mp hchunks
    refine ensures_read_bind hsem rfl (fun active hactive => ?_) rfl
    have hmem := yields_listReplicaPlans rfl rfl hactive
    refine ensures_ite (fun _ => ih hrest) fun hnone => ?_
    refine ensures_ite (fun _ => ih hrest) fun henough => ?_
    cases hselect : selectPlacementTargets (RebalancePlanner.placementRequest chunk targets) with
    | nil => exact ih hrest
    | cons target rest =>
      refine ensures_pure ⟨rfl, ?_⟩
      rintro move ⟨⟩
      refine ⟨rfl, hchunk, fun k p hp => ?_, not_lt.mp henough, ?_⟩
      · by_contra hmatches
        rw [Bool.not_eq_false] at hmatches
        have hlisted := (hmem p).mpr ⟨(plan_id hp).symm ▸ hp, hmatches⟩
        exact hnone (length_pos_of_mem hlisted)
      · rw [hselect]
        exact mem_cons_self

/-- The planner looks at the source and leaves everything as it is. -/
theorem ensures_selectReplicaToMove_movable (source : NodeInfo) (targets : List NodeInfo) :
    Ensures sem w (RebalancePlanner.selectReplicaToMove source targets)
      (fun found w' => w' = w ∧ ∀ move ∈ found, Movable w.store source targets move) (· = w) := by
  refine ensures_read_bind hsem rfl (fun chunks hchunks => ?_) rfl
  obtain rfl := (yields_listChunksByNode.mp hchunks).1
  refine ensures_read_bind hsem rfl (fun nodes hnodes => ?_) rfl
  obtain rfl := (yields_listNodes.mp hnodes).1
  exact ensures_movable hsem source targets fun _ h => h

end Rebalancing

end AstraStorage.Proofs
