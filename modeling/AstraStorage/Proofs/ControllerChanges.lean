import AstraStorage.Proofs.PlannerSpec
import AstraStorage.Proofs.RepairSpec

/-!
# What a run of a controller changes

However long a run is, it changes the repository in steps of few kinds. Each kind is given with
what the controller knows at that moment, so an invariant of all runs is one lemma for each kind.
-/

namespace AstraStorage.Proofs
open Lib Prog Store Coordinator Allocator Function List Relation FailoverPlanner

variable {kind : ReplicaPlanType} {producer : Bool} {nodeID : NodeID} {s t : MemoryState}
  {k : ChunkID} {w : World} {source : NodeInfo} {chunks : List ChunkMetadata}
  {z chunk : ChunkMetadata} {plans : List ReplicaPlan} {plan : ReplicaPlan}

/-! ### Copies of chunks -/

structure Current (s : MemoryState) (chunks : List ChunkMetadata) : Prop where
  stored : ∀ z ∈ chunks, (catalog s).chunk z.id = some z
  distinct : (chunks.map ChunkMetadata.id).Nodup

section Current

lemma current_chunksOn (nodeID : NodeID) : Current s (chunksOn s nodeID) where
  stored _ hz := (mem_chunksOn.mp hz).1
  distinct := by
    refine ((perm_insertionSort _ _).map _).nodup_iff.mpr ?_
    exact s.chunks.nodup.sublist (filter_sublist.map _)

lemma current_chunksOfFile (f : FileID) : Current s (chunksOfFile s f) where
  stored _ hz := (mem_chunksOfFile.mp hz).1
  distinct := nodup_chunksOfFile f

lemma Current.head (h : Current s (chunk :: chunks)) : (catalog s).chunk chunk.id = some chunk :=
  h.stored chunk mem_cons_self

lemma Current.tail (h : Current s (chunk :: chunks))
    (hothers : ∀ j, j ≠ chunk.id → (catalog t).chunk j = (catalog s).chunk j) :
    Current t chunks := by
  obtain ⟨hstored, hdistinct⟩ := h
  rw [map_cons, nodup_cons] at hdistinct
  refine ⟨fun z hz => ?_, hdistinct.2⟩
  have hne : z.id ≠ chunk.id := fun heq => hdistinct.1 (heq ▸ mem_map_of_mem hz)
  rw [hothers z.id hne]
  exact hstored z (mem_cons_of_mem _ hz)

end Current

/-! ### Plans -/

def MayHold (chunk : ChunkMetadata) (node : NodeInfo) : Prop :=
  (FailoverPlanner.placementRequest chunk [node]).admits node = true

structure PlanMade (s t : MemoryState) (plan : ReplicaPlan) (chunk : ChunkMetadata) (now : Time) :
    Prop where
  stored : (catalog s).chunk chunk.id = some chunk
  chunkID : plan.chunkID = chunk.id
  fileID : plan.fileID = chunk.fileID
  bytes : plan.requiredBytes = requiredPlacementBytes chunk
  state : plan.state = .materialized
  createdAt : plan.createdAt = now
  kind : plan.type = .failover ∨ plan.type = .rebalance
  held : (replicaOn chunk.replicas plan.sourceNodeID).isSome
  target : ∃ node, (catalog s).node plan.targetNodeID = some node ∧ MayHold chunk node
  preferred : plan.type = .failover → ∃ node rest, node.id = plan.targetNodeID ∧
    selectPlacementTargets (FailoverPlanner.placementRequest chunk (allNodes s)) = node :: rest
  unplanned : ∀ k p, (catalog s).plan k = some p → p.type = plan.type → p.chunkID = chunk.id →
    p.state ∉ activeReplicaPlanStates
  written : Yields (RepositoryCall.inTx (pendingReplicaWrites .secondary plan chunk now)).run s () t

structure PlanRevoked (s t : MemoryState) (plan : ReplicaPlan) (chunk : ChunkMetadata)
    (now : Time) : Prop where
  made : ∃ r, PlanMade s r plan chunk now ∧
    Yields (RepositoryCall.inTx (rollbackWrites plan.id chunk plan.targetNodeID now)).run r () t

inductive PlannerChange (kind : ReplicaPlanType) (producer : Bool) (now : Time)
    (chunk : ChunkMetadata) (s t : MemoryState) : Prop
  | made {plan : ReplicaPlan} (hkind : plan.type = kind) (h : PlanMade s t plan chunk now)
  | revoked {plan : ReplicaPlan} (hkind : plan.type = kind) (hproducer : producer = true)
      (h : PlanRevoked s t plan chunk now)

section Plans

variable {node : NodeInfo} {now : Time} {u : Unit}

lemma free_of_admits {req : PlacementRequest}
    (hexcluded : req.excluded = buildReplicaExclusionSet chunk) (h : req.admits node = true) :
    replicaOn chunk.replicas node.id = none := by
  have hout : node.id ∉ buildReplicaExclusionSet chunk := by
    simp only [PlacementRequest.admits, Bool.and_eq_true, Bool.not_eq_true', hexcluded] at h
    intro hmem
    rw [← contains_iff_mem, h.1.1.1.1.2] at hmem
    cases hmem
  cases hreplica : replicaOn chunk.replicas node.id with
  | none => rfl
  | some replica =>
    exact absurd (mem_map.mpr ⟨_, mem_replicaEntries.mpr hreplica, rfl⟩) hout

lemma MayHold.free (h : MayHold chunk node) : replicaOn chunk.replicas node.id = none :=
  free_of_admits rfl h

lemma MayHold.healthy (h : MayHold chunk node) : node.healthy = true := by
  unfold MayHold at h
  simp only [PlacementRequest.admits, Bool.and_eq_true] at h
  exact h.1.1.1.1.1.1

lemma MayHold.fits (h : MayHold chunk node) :
    requiredPlacementBytes chunk ≤ availableCapacity node := by
  unfold MayHold at h
  simp only [PlacementRequest.admits, Bool.and_eq_true, Bool.not_eq_true', decide_eq_false_iff_not]
    at h
  exact Int64.not_lt.mp h.2

section

variable (h : PlanMade s t plan chunk now)
include h

lemma PlanMade.accepted : PlanAccepted s plan :=
  (yields_pendingReplicaWrites.mp h.written).1

lemma PlanMade.id_ne : chunk.id ≠ "" :=
  h.chunkID ▸ h.accepted.chunk_ne

lemma PlanMade.free : replicaOn chunk.replicas plan.targetNodeID = none := by
  obtain ⟨node, hnode, hmay⟩ := h.target
  rw [← node_id hnode]
  exact hmay.free

lemma PlanMade.catalog_eq : catalog t = { catalog s with
      plan := update (catalog s).plan plan.id (some plan)
      chunk := update (catalog s).chunk chunk.id
        (some ((pendingPatch .secondary plan chunk now).apply chunk)) } := by
  obtain ⟨-, z, hz, rfl⟩ := yields_pendingReplicaWrites.mp h.written
  rw [findChunk_id h.id_ne] at hz
  obtain rfl : chunk = z := Option.mem_unique h.stored hz
  rw [catalog_putChunk (s := { s with replicaPlans := s.replicaPlans.put plan }),
    catalog_putReplicaPlan]
  rfl

end

lemma yields_rollbackWrites :
    Yields (RepositoryCall.inTx (rollbackWrites planID chunk target now)).run s u t ↔
      ((catalog s).plan planID).isSome ∧ ∃ z, findChunk s { id := chunk.id } = some z ∧
        t = { s with
          chunks := s.chunks.put ((rollbackPatch chunk target now).apply z)
          replicaPlans := s.replicaPlans.erase planID } := by
  change Yields (inTx (forM (rollbackWrites planID chunk target now) Write.run)) s u t ↔ _
  simp only [rollbackWrites, yields_inTx, yields_forM_cons, yields_forM_nil, Write.run,
    yields_updateChunkReplicas, yields_deleteReplicaPlan]
  constructor
  · rintro ⟨r, ⟨z, hz, rfl⟩, r', ⟨hplan, rfl⟩, rfl⟩
    exact ⟨hplan, z, hz, rfl⟩
  · rintro ⟨hplan, z, hz, rfl⟩
    exact ⟨_, ⟨z, hz, rfl⟩, _, ⟨hplan, rfl⟩, rfl⟩

lemma replicaOn_made (z : ChunkMetadata) (n : NodeID) :
    replicaOn ((pendingPatch .secondary plan chunk now).apply z).replicas n =
      if n = plan.targetNodeID then some (pendingReplica .secondary chunk n now)
      else replicaOn z.replicas n := by
  have hkept : n ∉ (pendingPatch .secondary plan chunk now).removeNodeIDs := not_mem_nil
  have hupsert : replicaOn (pendingPatch .secondary plan chunk now).upserts n =
      ((∅ : Table NodeID ReplicaMetadata).insert plan.targetNodeID
        (pendingReplica .secondary chunk plan.targetNodeID now)).lookup n := rfl
  rw [replicaOn_apply, if_neg hkept, hupsert]
  by_cases hn : n = plan.targetNodeID
  · rw [if_pos hn, hn, AList.lookup_insert, Option.some_or]
  · rw [if_neg hn, AList.lookup_insert_ne hn, AList.lookup_empty, Option.none_or]

lemma PlanMade.replicas_revoked (h : PlanMade s t plan chunk now) :
    ((rollbackPatch chunk plan.targetNodeID now).apply
      ((pendingPatch .secondary plan chunk now).apply chunk)).replicas = chunk.replicas := by
  have hheld := h.held
  have hfree := h.free
  cases hreplicas : chunk.replicas with
  | none =>
    rw [hreplicas] at hheld
    cases hheld
  | some replicas =>
    rw [hreplicas] at hfree
    have happly : ((rollbackPatch chunk plan.targetNodeID now).apply
        ((pendingPatch .secondary plan chunk now).apply chunk)).replicas =
        some (((chunk.replicas.getD ∅).insert plan.targetNodeID
          (pendingReplica .secondary chunk plan.targetNodeID now)).erase plan.targetNodeID) := rfl
    rw [happly, hreplicas, Option.getD_some, Table.erase_insert_of_lookup_eq_none hfree]

lemma PlanRevoked.catalog_eq (h : PlanRevoked s t plan chunk now) :
    catalog t = { catalog s with
      chunk := update (catalog s).chunk chunk.id
        (some ((rollbackPatch chunk plan.targetNodeID now).apply
          ((pendingPatch .secondary plan chunk now).apply chunk))) } := by
  obtain ⟨r, hmade, hrollback⟩ := h.made
  obtain ⟨-, z, hz, rfl⟩ := yields_rollbackWrites.mp hrollback
  have hpending : (catalog r).chunk chunk.id =
      some ((pendingPatch .secondary plan chunk now).apply chunk) := by
    rw [hmade.catalog_eq]
    exact update_self ..
  rw [findChunk_id hmade.id_ne, hpending] at hz
  obtain rfl := Option.some.inj hz
  have hplans : update (update (catalog s).plan plan.id (some plan)) plan.id
      none = (catalog s).plan := by
    rw [update_idem, ← hmade.accepted.fresh, update_eq_self]
  rw [catalog_putChunk (s := { r with replicaPlans := r.replicaPlans.erase plan.id }),
    catalog_eraseReplicaPlan, hmade.catalog_eq]
  have hid : ((rollbackPatch chunk plan.targetNodeID now).apply
      ((pendingPatch .secondary plan chunk now).apply chunk)).id = chunk.id := rfl
  rw [hplans, hid, update_idem]

lemma PlannerChange.others (h : PlannerChange kind producer now chunk s t) :
    ∀ j, j ≠ chunk.id → (catalog t).chunk j = (catalog s).chunk j := by
  intro j hj
  cases h with
  | made _ h | revoked _ _ h =>
    rw [h.catalog_eq]
    exact update_of_ne hj ..

lemma PlannerChange.node_eq (h : PlannerChange kind producer now chunk s t) :
    (catalog t).node = (catalog s).node := by
  cases h with
  | made _ h | revoked _ _ h => rw [h.catalog_eq]

lemma replicaLen_ne_zero (h : (replicaOn chunk.replicas nodeID).isSome) : replicaLen chunk ≠ 0 := by
  obtain ⟨replica, hreplica⟩ := Option.isSome_iff_exists.mp h
  have hpos := length_pos_of_mem (mem_replicaEntries.mpr hreplica)
  unfold replicaLen
  omega

lemma matches_active (htype : p.type ∈ types) (hchunk : p.chunkID = chunk.id)
    (hstate : p.state ∈ activeReplicaPlanStates) :
    ({ types := types, states := activeReplicaPlanStates, chunkID := chunk.id }
      : ReplicaPlanFilter).matches p = true := by
  simp [ReplicaPlanFilter.matches, htype, hchunk, hstate]

end Plans

section Planners

variable (now : Time)

abbrev Leads {α : Type} (R : MemoryState → MemoryState → Prop) (w : World)
    (program : CoordinatorM α) : Prop :=
  Ensures coordinatorSemantics w program (fun _ w' => R w.store w'.store)
    (fun w' => R w.store w'.store)

abbrev Plans {α : Type} (w : World) (kind : ReplicaPlanType) (producer : Bool) (now : Time)
    (chunk : ChunkMetadata) (program : CoordinatorM α) : Prop :=
  Ensures coordinatorSemantics w program
    (fun _ w' => Relation.ReflGen (PlannerChange kind producer now chunk) w.store w'.store)
    (fun w' => Relation.ReflGen (PlannerChange kind producer now chunk) w.store w'.store)

lemma ensures_attempt_publish (task : Task) :
    Ensures coordinatorSemantics w (attempt (publish task)) (fun _ w' => w'.store = w.store) E := by
  have hpublish : Leads Eq w (publish task) := ensures_publish id rfl fun _ _ => rfl
  refine hpublish.attempt.mono ?_ fun _ h => h
  rintro (_ | _) _ h
  · exact h.symm
  · exact h.symm

lemma ensures_rollback (hkind : plan.type = kind)
    (hmade : PlanMade w.store w1.store plan chunk now) :
    Ensures coordinatorSemantics w1
      (repo (.inTx (rollbackWrites plan.id chunk plan.targetNodeID now)))
      (fun _ w' => PlannerChange kind true now chunk w.store w'.store)
      (fun w' => PlannerChange kind true now chunk w.store w'.store) :=
  ensures_call id (fun _ _ hrun => .revoked hkind rfl ⟨_, hmade, hrun⟩) (.made hkind hmade)

lemma plans_announce (f : FailoverPlanner) (hkind : plan.type = kind)
    (hmade : PlanMade w.store w1.store plan chunk now) :
    Ensures coordinatorSemantics w1 (f.announce plan chunk now)
      (fun _ w' => PlannerChange kind f.taskProducer now chunk w.store w'.store)
      (fun w' => PlannerChange kind f.taskProducer now chunk w.store w'.store) := by
  refine ensures_ite (fun hproducer => ?_) fun _ => ensures_pure (.made hkind hmade)
  rw [hproducer]
  refine (ensures_attempt_publish _).bind fun published w2 hw2 => ?_
  rw [← hw2] at hmade
  cases published with
  | ok _ => exact ensures_pure (.made hkind hmade)
  | error err =>
    refine (ensures_rollback now hkind hmade).attempt.bind fun rolledBack w3 hw3 => ?_
    cases rolledBack with
    | ok _ | error _ => exact ensures_throw hw3

lemma planMade_failover (hz : (catalog s).chunk chunk.id = some chunk)
    (hheld : (replicaOn chunk.replicas nodeID).isSome)
    (hactive : Yields (listReplicaPlans (FailoverPlanner.activePlans chunk)) s active s)
    (hnone : ¬active.length > 0)
    (hselect : selectPlacementTargets (FailoverPlanner.placementRequest chunk (allNodes s)) =
      target :: rest) (hrun : Yields (RepositoryCall.inTx (pendingReplicaWrites
      (if replicaLen chunk = 0 then .primary else .secondary)
      (FailoverPlanner.newPlan chunk nodeID target now) chunk now)).run s () t) :
    PlanMade s t (FailoverPlanner.newPlan chunk nodeID target now) chunk now := by
  have hmem := yields_listReplicaPlans rfl rfl hactive
  obtain ⟨hlisted, hadmits⟩ := admitted_of_mem_select (hselect ▸ mem_cons_self)
  rw [if_neg (replicaLen_ne_zero hheld)] at hrun
  refine ⟨hz, rfl, rfl, rfl, rfl, rfl, .inl rfl, hheld, ⟨target, ?_, hadmits⟩,
    fun _ => ⟨target, rest, rfl, hselect⟩, ?_, hrun⟩
  · exact mem_allNodes.mp hlisted
  · intro k p hp htype hchunk hstate
    have hactive := (hmem p).mpr ⟨(plan_id hp).symm ▸ hp,
      matches_active (mem_singleton.mpr htype) hchunk hstate⟩
    exact hnone (length_pos_of_mem hactive)

lemma plans_planChunkFailover (f : FailoverPlanner)
    (hz : (catalog w.store).chunk chunk.id = some chunk)
    (hheld : (replicaOn chunk.replicas nodeID).isSome) :
    Plans w .failover f.taskProducer now chunk (f.planChunkFailover chunk nodeID now) := by
  refine ensures_read_bind id rfl (fun file _ => ?_) .refl
  refine ensures_read_bind id rfl (fun nodes hnodes => ?_) .refl
  obtain rfl := (yields_listNodes.mp hnodes).1
  refine ensures_ite (fun _ => ensures_pure .refl) fun _ => ?_
  refine ensures_read_bind id rfl (fun active hactive => ?_) .refl
  refine ensures_ite (fun _ => ensures_pure .refl) fun hnone => ?_
  cases hselect : selectPlacementTargets
      (placementRequest chunk (allNodes w.store)) with
  | nil => exact ensures_pure .refl
  | cons target rest =>
    have hwritten : Ensures coordinatorSemantics w (materializePendingReplica
        (newPlan chunk nodeID target now) chunk now)
        (fun _ w' => PlanMade w.store w'.store (newPlan chunk nodeID target now)
          chunk now)
        (fun w' => ReflGen (PlannerChange .failover f.taskProducer now chunk) w.store w'.store) :=
      ensures_call id (fun _ t hrun =>
        planMade_failover now hz hheld hactive hnone hselect hrun) .refl
    refine hwritten.bind fun _ w1 hmade => ?_
    exact (plans_announce now f rfl hmade).imp fun _ h => .single h

lemma planMade_move (hmove : Movable s source targets move)
    (htargets : ∀ node ∈ targets, (catalog s).node node.id = some node)
    (hrun : Yields (RepositoryCall.inTx (pendingReplicaWrites .secondary
      (RebalancePlanner.newPlan move now) move.chunk now)).run s () t) :
    PlanMade s t (RebalancePlanner.newPlan move now) move.chunk now := by
  obtain ⟨hlisted, hadmits⟩ := admitted_of_mem_select hmove.placed
  obtain ⟨hz, hheld⟩ := mem_chunksOn.mp hmove.listed
  rw [← hmove.leaves] at hheld
  refine ⟨hz, rfl, rfl, rfl, rfl, rfl, .inr rfl, hheld,
    ⟨move.target, htargets _ hlisted, hadmits⟩, nofun,
    fun k p hp htype hchunk hstate => ?_, hrun⟩
  have htypes : p.type ∈ [ReplicaPlanType.failover, .rebalance] :=
    mem_cons_of_mem _ (mem_singleton.mpr htype)
  exact Bool.false_ne_true
    ((hmove.unplanned k p hp).symm.trans (matches_active htypes hchunk hstate))

lemma plans_planReplicaMove (r : RebalancePlanner) (hmove : Movable w.store source targets move)
    (htargets : ∀ node ∈ targets, (catalog w.store).node node.id = some node) :
    Plans w .rebalance r.taskProducer now move.chunk (r.planReplicaMove move now) := by
  have hwritten : Ensures coordinatorSemantics w
      (repo (.inTx (pendingReplicaWrites .secondary (RebalancePlanner.newPlan move now) move.chunk
        now)))
      (fun _ w' => PlanMade w.store w'.store (RebalancePlanner.newPlan move now) move.chunk now)
      (fun w' => ReflGen (PlannerChange .rebalance r.taskProducer now move.chunk) w.store w'.store) :=
    ensures_call id (fun _ t hrun => planMade_move now hmove htargets hrun) .refl
  refine hwritten.bind fun _ w1 hmade => ?_
  refine ensures_ite (fun hproducer => ?_) fun _ =>
    ensures_pure (.single (.made rfl hmade))
  refine (ensures_attempt_publish _).bind fun published w2 hw2 => ?_
  rw [← hw2] at hmade
  cases published with
  | ok _ => exact ensures_pure (.single (.made rfl hmade))
  | error err =>
    rw [hproducer]
    exact (ensures_rollback now rfl hmade).imp fun _ h => .single h

abbrev PlannerRun (kind : ReplicaPlanType) (producer : Bool) (now : Time) :
    MemoryState → MemoryState → Prop :=
  ReflTransGen fun s t => ∃ chunk, PlannerChange kind producer now chunk s t

variable {now}

lemma PlannerRun.of_visit (h : ReflGen (PlannerChange kind producer now chunk) s t) :
    PlannerRun kind producer now s t := by
  cases h with
  | refl => exact .refl
  | single h => exact .single ⟨chunk, h⟩

lemma others_of_visit (h : ReflGen (PlannerChange kind producer now chunk) s t) :
    ∀ j, j ≠ chunk.id → (catalog t).chunk j = (catalog s).chunk j := by
  cases h with
  | refl => exact fun _ _ => rfl
  | single h => exact h.others

lemma node_of_plannerRun (h : PlannerRun kind producer now s t) :
    (catalog t).node = (catalog s).node := by
  induction h with
  | refl => rfl
  | tail _ hstep ih =>
    obtain ⟨chunk, hchange⟩ := hstep
    exact hchange.node_eq.trans ih

variable (now)

lemma runs_planChunks (f : FailoverPlanner) (nodeID : NodeID) (remaining : Int)
    (hchunks : Current w.store chunks) (hheld : ∀ z ∈ chunks, (replicaOn z.replicas nodeID).isSome) :
    Leads (PlannerRun .failover f.taskProducer now) w
      (f.planChunks nodeID now chunks remaining) := by
  induction chunks generalizing w remaining with
  | nil => exact ensures_pure .refl
  | cons chunk chunks ih =>
    obtain ⟨hchunk, hrest⟩ := forall_mem_cons.mp hheld
    refine ensures_ite (fun _ => ensures_pure .refl) fun _ => ?_
    have hvisit := (plans_planChunkFailover now f hchunks.head hchunk).mono
      (fun _ _ h => h) fun _ h => PlannerRun.of_visit h
    refine hvisit.bind fun planned w1 hw1 => ?_
    have hnext (remaining : Int) := (ih remaining (hchunks.tail (others_of_visit hw1)) hrest).imp
      fun _ h => (PlannerRun.of_visit hw1).trans h
    cases planned with
    | false => exact hnext remaining
    | true => exact (hnext (remaining - 1)).bind fun _ _ h => ensures_pure h

lemma runs_failover_at (f : FailoverPlanner) :
    Leads (PlannerRun .failover f.taskProducer now) w
      (f.listUnavailableNodes now >>= fun nodes => f.planNodes now nodes f.maxPlansPerRun) := by
  have hnodes : Ensures coordinatorSemantics w (f.listUnavailableNodes now)
      (fun _ w' => w' = w) (fun w' => PlannerRun .failover f.taskProducer now w.store w'.store) :=
    ensures_read_bind id rfl (fun _ _ => ensures_pure rfl) .refl
  refine hnodes.bind fun nodes w' hw' => ?_
  subst w'
  refine (ensures_planNodes_visits f now
    (P := fun _ _ w' => PlannerRun .failover f.taskProducer now w.store w'.store) .refl
    fun _ node _ r w1 _ _ hw1 => ?_).mono ?_ fun _ h => h
  · refine ensures_read_bind id rfl (fun chunks hchunks => ?_) hw1
    obtain rfl := (yields_listChunksByNode.mp hchunks).1
    refine (runs_planChunks now f node.id r (current_chunksOn node.id)
      fun z hz => (mem_chunksOn.mp hz).2).imp fun _ h => hw1.trans h
  · rintro _ w2 ⟨_, _, _, _, hw2, _⟩
    exact hw2

theorem runs_failover (f : FailoverPlanner) :
    Leads (fun s t => ∃ now, PlannerRun .failover f.taskProducer now s t) w f.planOnce :=
  ensures_timeNow_bind id fun now =>
    (runs_failover_at now f).imp fun _ h => ⟨now, h⟩

lemma runs_planSources (r : RebalancePlanner) (underfull overfull : List NodeInfo) (remaining : Int)
    (hunderfull : ∀ node ∈ underfull, (catalog w.store).node node.id = some node) :
    Leads (PlannerRun .rebalance r.taskProducer now) w
      (r.planSources underfull now overfull remaining) := by
  induction overfull generalizing w remaining with
  | nil => exact ensures_pure .refl
  | cons source overfull ih =>
    refine ensures_ite (fun _ => ensures_pure .refl) fun _ => ?_
    have hselect := (ensures_selectReplicaToMove_movable id source underfull).mono
      (fun _ _ h => h) fun w' (hw' : w' = w) =>
        (hw' ▸ .refl : PlannerRun .rebalance r.taskProducer now w.store w'.store)
    refine hselect.bind fun found w' hfound => ?_
    obtain ⟨hsame, hmovable⟩ := hfound
    subst w'
    cases found with
    | none => exact ih remaining hunderfull
    | some move =>
      have hvisit := (plans_planReplicaMove now r (hmovable move rfl) hunderfull).imp
        fun _ h => PlannerRun.of_visit h
      refine hvisit.bind fun _ w1 hw1 => ?_
      refine (ih (remaining - 1) fun node hnode => ?_).imp fun _ h => hw1.trans h
      rw [node_of_plannerRun hw1]
      exact hunderfull node hnode

theorem runs_rebalance (r : RebalancePlanner) :
    Leads (fun s t => ∃ now, PlannerRun .rebalance r.taskProducer now s t) w r.planOnce := by
  refine ensures_timeNow_bind id fun now =>
    ensures_read_bind id rfl (fun nodes hnodes => ?_) ⟨now, .refl⟩
  refine (runs_planSources now r _ _ _ fun node hnode => ?_).imp fun _ h => ⟨now, h⟩
  exact mem_of_listNodes hnodes (mem_filter.mp hnode).1

end Planners

/-! ### The repairer -/

inductive CopyEntry (chunk : ChunkMetadata) (now : Time) (nodeID : NodeID) : ReplicaMetadata → Prop
  | ready : CopyEntry chunk now nodeID { copiedReplica chunk now nodeID with
      state := .ready, storedSize := chunk.size, verifiedAt := some now }
  | pending : CopyEntry chunk now nodeID { copiedReplica chunk now nodeID with state := .pending }

structure Copied (s t : MemoryState) (chunk : ChunkMetadata) (nodeIDs : List NodeID) (now : Time) :
    Prop where
  stored : (catalog s).chunk chunk.id = some chunk
  recorded : ∃ served skipped results, served ⊆ nodeIDs ∧ skipped ⊆ nodeIDs ∧
    Recorded chunk now served skipped results s t

structure RepairChange (chunk : ChunkMetadata) (s t : MemoryState) : Prop where
  source : (selectRepairTargets chunk.replicas).1 ≠ ""
  copied : ∃ nodeIDs now, nodeIDs ⊆ (selectRepairTargets chunk.replicas).2 ∧
    Copied s t chunk nodeIDs now

section Repair

variable {nodeIDs : List NodeID} {now : Time}

lemma Copied.catalog_eq (h : Copied s t chunk nodeIDs now) (hid : chunk.id ≠ "") :
    ∃ z, z.id = chunk.id ∧ z.fileID = chunk.fileID ∧ z.replicaCount = replicaLen chunk ∧
      (∀ n, replicaOn z.replicas n = replicaOn chunk.replicas n ∨
        n ∈ nodeIDs ∧ ∃ replica, CopyEntry chunk now n replica ∧
          replicaOn z.replicas n = some replica) ∧
      catalog t = { catalog s with
        chunk := update (catalog s).chunk chunk.id (some z) } := by
  obtain ⟨served, skipped, results, hserved, hskipped, upserts, hupserts, hwrite⟩ := h.recorded
  obtain ⟨z, hfound, rfl⟩ := yields_updateChunkReplicas.mp hwrite
  replace hfound : findChunk s { id := chunk.id } = some z := hfound
  rw [findChunk_id hid] at hfound
  obtain rfl : chunk = z := Option.mem_unique h.stored hfound
  refine ⟨(copyPatch chunk now upserts).apply chunk, rfl, rfl, rfl, fun n => ?_, ?_⟩
  · have hkept : n ∉ (copyPatch chunk now upserts).removeNodeIDs := not_mem_nil
    have hupsert : replicaOn (copyPatch chunk now upserts).upserts n = upserts.lookup n := rfl
    rw [replicaOn_apply, hupsert, hupserts n]
    split_ifs with hskip hserve
    · exact .inr ⟨hskipped hskip, _, .pending, rfl⟩
    · refine .inr ⟨hserved hserve, servedReplica chunk now results n, ?_, rfl⟩
      unfold servedReplica
      split_ifs
      · exact .ready
      · exact .pending
    · exact .inl rfl
  · rw [catalog_putChunk]
    rfl

lemma Copied.others (h : Copied s t chunk nodeIDs now) (hid : chunk.id ≠ "") :
    ∀ j, j ≠ chunk.id → (catalog t).chunk j = (catalog s).chunk j := by
  intro j hj
  obtain ⟨z, -, -, -, -, heq⟩ := h.catalog_eq hid
  rw [heq]
  exact update_of_ne hj ..

lemma dueTargets_subset : dueTargets table k limit now nodeIDs ⊆ nodeIDs := by
  intro n hn
  unfold dueTargets at hn
  split at hn
  · exact (mem_filter.mp hn).1
  · exact (mem_filter.mp (mem_of_mem_take hn)).1

lemma mem_pending :
    n ∈ (selectRepairTargets replicas).2 ↔
      ∃ replica, replicaOn replicas n = some replica ∧ replica.state = .pending := by
  have hpending : (selectRepairTargets replicas).2 =
      (((replicaEntries replicas).filter (·.2.state = .pending)).map
        Prod.fst).insertionSort (· ≤ ·) := by
    unfold selectRepairTargets
    dsimp only
    split
    · rfl
    · rfl
  rw [hpending, mem_insertionSort, mem_map]
  constructor
  · rintro ⟨e, he, rfl⟩
    obtain ⟨hentry, hstate⟩ := mem_filter.mp he
    exact ⟨e.2, mem_replicaEntries.mp hentry, of_decide_eq_true hstate⟩
  · rintro ⟨replica, hreplica, hstate⟩
    refine ⟨(n, replica), mem_filter.mpr ⟨mem_replicaEntries.mpr hreplica, ?_⟩, rfl⟩
    exact decide_eq_true hstate

lemma ready_of_source (h : (selectRepairTargets replicas).1 ≠ "") :
    ∃ n replica, replicaOn replicas n = some replica ∧ replica.state = .ready := by
  have hprimary (l : List (NodeID × ReplicaMetadata)) (n : NodeID)
      (hl : ∀ e ∈ l, ¬e.2.state = .ready) :
      l.foldl (fun primary e =>
        if e.2.state = .ready ∧ e.2.role = .primary then e.1 else primary) n = n := by
    induction l generalizing n with
    | nil => rfl
    | cons e l ih =>
      obtain ⟨he, hl⟩ := forall_mem_cons.mp hl
      rw [foldl_cons, if_neg fun hready => he hready.1]
      exact ih n hl
  by_contra hnone
  have hentries : ∀ e ∈ replicaEntries replicas, ¬e.2.state = .ready :=
    fun e he hready => hnone ⟨e.1, e.2, mem_replicaEntries.mp he, hready⟩
  have hempty : (replicaEntries replicas).filter (·.2.state = .ready) = [] :=
    filter_eq_nil_iff.mpr fun e he => by simpa using hentries e he
  refine h ?_
  unfold selectRepairTargets
  simp only [hprimary _ "" hentries, hempty, ne_eq, not_true_eq_false, if_false]
  rfl

variable (r : PendingReplicaRepairer)

lemma copies_executeReplicaCopy (source : NodeID)
    (hz : (catalog w.store).chunk chunk.id = some chunk) :
    Ensures coordinatorSemantics w (r.executeReplicaCopy now chunk source nodeIDs)
      (fun _ w' => w'.store = w.store ∨ Copied w.store w'.store chunk nodeIDs now) E := by
  refine (ensures_executeReplicaCopy id r chunk now (fun _ => trivial) source nodeIDs).mono ?_
    fun _ h => h
  rintro _ w' ⟨-, hstore | hrecorded⟩
  · exact .inl hstore
  · exact .inr ⟨hz, hrecorded⟩

lemma ensures_publishRepairs (source : NodeID) (nodeIDs : List NodeID) (outcome : RepairOutcome) :
    Ensures coordinatorSemantics w (r.publishRepairs now chunk source nodeIDs outcome)
      (fun _ w' => w'.store = w.store) E := by
  induction nodeIDs generalizing w outcome with
  | nil => exact ensures_pure rfl
  | cons nodeID nodeIDs ih =>
    refine (ensures_attempt_publish _).bind fun published w1 hw1 => ?_
    cases published with
    | error err =>
      refine ensures_elsewhere_bind id rfl fun _ w2 hw2 => ensures_pure ?_
      exact hw2.trans hw1
    | ok _ =>
      refine ensures_elsewhere_bind id rfl fun _ w2 hw2 => (ih _).mono ?_ fun _ h => h
      exact fun _ w3 hw3 => hw3.trans (hw2.trans hw1)

lemma repairs_repairChunk (remaining : Int) (hz : (catalog w.store).chunk chunk.id = some chunk) :
    Ensures coordinatorSemantics w (r.repairChunk now chunk remaining)
      (fun _ w' => w'.store = w.store ∨ RepairChange chunk w.store w'.store) E := by
  refine ensures_ite (fun _ => ensures_pure (.inl rfl)) fun hsome => ?_
  have hdue : Ensures coordinatorSemantics w
      (step (.selectDueTargets chunk.id (selectRepairTargets chunk.replicas).2 remaining now))
      (fun (nodeIDs : List NodeID) w' => w' = w ∧
        nodeIDs ⊆ (selectRepairTargets chunk.replicas).2) E := by
    refine ensures_step ?_
    rintro nodeIDs w' ⟨env, ⟨⟩⟩
    exact ⟨rfl, dueTargets_subset⟩
  refine hdue.bind fun nodeIDs w' hnodes => ?_
  obtain ⟨hstore, hnodes⟩ := hnodes
  subst w'
  refine ensures_ite (fun _ => ensures_pure (.inl rfl)) fun _ => ?_
  refine ensures_ite (fun _ => ?_) fun _ => ?_
  · exact (ensures_publishRepairs r _ _ _).mono (fun _ w' hw' => .inl hw') fun _ h => h
  · refine (copies_executeReplicaCopy r _ hz).mono ?_ fun _ h => h
    rintro _ w' (hstore | hcopied)
    · exact .inl hstore
    · exact .inr ⟨fun hsource => hsome (.inl hsource), nodeIDs, now, hnodes, hcopied⟩

abbrev RepairRun : MemoryState → MemoryState → Prop :=
  ReflTransGen fun s t => ∃ chunk, RepairChange chunk s t

lemma stored_id_ne (hnamed : (catalog s).chunk "" = none) (hz : (catalog s).chunk k = some z) :
    k ≠ "" := by
  rintro rfl
  rw [hnamed] at hz
  cases hz

lemma RepairChange.others (h : RepairChange chunk s t) (hnamed : (catalog s).chunk "" = none) :
    ∀ j, j ≠ chunk.id → (catalog t).chunk j = (catalog s).chunk j := by
  obtain ⟨nodeIDs, now, -, hcopied⟩ := h.copied
  exact hcopied.others (stored_id_ne hnamed hcopied.stored)

lemma RepairChange.named (h : RepairChange chunk s t) (hnamed : (catalog s).chunk "" = none) :
    (catalog t).chunk "" = none := by
  obtain ⟨nodeIDs, now, -, hcopied⟩ := h.copied
  rw [h.others hnamed "" (stored_id_ne hnamed hcopied.stored).symm]
  exact hnamed

lemma RepairRun.named (h : RepairRun s t) (hnamed : (catalog s).chunk "" = none) :
    (catalog t).chunk "" = none := by
  induction h with
  | refl => exact hnamed
  | tail _ hstep ih =>
    obtain ⟨chunk, hchange⟩ := hstep
    exact hchange.named ih

lemma runs_repairChunks (remaining : Int) (firstErr : Option CoordinatorError)
    (hnamed : (catalog w.store).chunk "" = none) (hchunks : Current w.store chunks) :
    Ensures coordinatorSemantics w (r.repairChunks now chunks remaining firstErr)
      (fun _ w' => RepairRun w.store w'.store) E := by
  induction chunks generalizing w remaining firstErr with
  | nil => exact ensures_pure .refl
  | cons chunk chunks ih =>
    refine ensures_ite (fun _ => ensures_pure .refl) fun _ => ?_
    refine (repairs_repairChunk r remaining hchunks.head).bind fun out w1 hw1 => ?_
    have hrun : RepairRun w.store w1.store := by
      rcases hw1 with hstore | hchange
      · rw [hstore]
      · exact .single ⟨chunk, hchange⟩
    have hothers : ∀ j, j ≠ chunk.id → (catalog w1.store).chunk j = (catalog w.store).chunk j := by
      rcases hw1 with hstore | hchange
      · rw [hstore]
        exact fun _ _ => rfl
      · exact hchange.others hnamed
    exact (ih _ _ (hrun.named hnamed) (hchunks.tail hothers)).mono (fun _ _ h => hrun.trans h)
      fun _ h => h

lemma runs_repairFiles (files : List FileMetadata) (remaining : Int)
    (firstErr : Option CoordinatorError) (hnamed : (catalog w.store).chunk "" = none) :
    Ensures coordinatorSemantics w (r.repairFiles now files remaining firstErr)
      (fun _ w' => RepairRun w.store w'.store) E := by
  induction files generalizing w remaining firstErr with
  | nil => exact ensures_pure .refl
  | cons file files ih =>
    refine ensures_ite (fun _ => ensures_pure .refl) fun _ => ?_
    have hlist : Ensures coordinatorSemantics w (repo (.listChunksByFile file.id))
        (fun (chunks : List ChunkMetadata) w' => w' = w ∧ Current w.store chunks) (· = w) := by
      refine ensures_read id rfl (fun chunks hchunks => ⟨rfl, ?_⟩) rfl
      obtain rfl := (yields_listChunksByFile.mp hchunks).1
      exact current_chunksOfFile file.id
    refine hlist.attempt.bind fun listed w' hlisted => ?_
    cases listed with
    | error err =>
      subst w'
      exact ih _ _ hnamed
    | ok chunks =>
      obtain ⟨hsame, hcurrent⟩ := hlisted
      subst w'
      refine (runs_repairChunks r remaining firstErr hnamed hcurrent).bind fun left w1 hw1 => ?_
      exact (ih _ _ (hw1.named hnamed)).mono (fun _ _ h => hw1.trans h) fun _ h => h

theorem runs_repair (hnamed : (catalog w.store).chunk "" = none) :
    Leads RepairRun w r.repairOnce := by
  refine ensures_read_bind id rfl (fun files _ => ensures_timeNow_bind id fun now => ?_) .refl
  refine (runs_repairFiles r files _ none hnamed).bind fun firstErr w' hw' => ?_
  cases firstErr with
  | none => exact ensures_pure hw'
  | some err => exact ensures_throw hw'

end Repair

/-! ### Cleanup -/

structure PlanFinished (s t : MemoryState) (plan : ReplicaPlan) (now : Time) : Prop where
  stored : (catalog s).plan plan.id = some plan
  written : Yields (RepositoryCall.inTx (CleanupController.finishWrites plan now)).run s () t

structure PlanNoted (s t : MemoryState) (plan : ReplicaPlan) (states : List ReplicaPlanState) :
    Prop where
  stored : (catalog s).plan plan.id = some plan
  written : ∃ patch, patch.id = plan.id ∧ (∀ state ∈ patch.state, state ∈ states) ∧
    Yields (updateReplicaPlan patch) s () t

def HasReadyTarget (s : MemoryState) (plan : ReplicaPlan) : Prop :=
  ∃ z, findChunk s { id := plan.chunkID } = some z ∧
    (replicaOn z.replicas plan.targetNodeID).any (·.state = .ready) = true

structure Deletable (envs : Environment → Prop) (s : MemoryState) (p : ReplicaPlan) : Prop where
  node : ∃ node, (catalog s).node p.sourceNodeID = some node ∧ ∀ env, envs env →
    env.deleteReplica node p.chunkID = .ok 204 ∨ env.deleteReplica node p.chunkID = .ok 200
  replica : ∃ z, findChunk s { id := p.chunkID } = some z ∧
    (replicaOn z.replicas p.sourceNodeID).isSome

inductive CleanupChange (producer : Bool) (plan : ReplicaPlan) (s t : MemoryState) : Prop
  | finished {now} (hproducer : producer = false) (hready : HasReadyTarget s plan)
      (h : PlanFinished s t plan now)
  | noted (h : PlanNoted s t plan (if producer then [.cleanupReady] else []))

section Cleanup

variable {now : Time} {states : List ReplicaPlanState}

lemma PlanNoted.catalog_eq (h : PlanNoted s t plan states) :
    ∃ patch : ReplicaPlanPatch, (∀ state ∈ patch.state, state ∈ states) ∧
      catalog t = { catalog s with
        plan := update (catalog s).plan plan.id (some (patch.apply plan)) } := by
  obtain ⟨patch, hid, hstates, hwrite⟩ := h.written
  obtain ⟨p, hp, rfl⟩ := yields_updateReplicaPlan.mp hwrite
  rw [hid] at hp
  obtain rfl := Option.mem_unique h.stored hp
  exact ⟨patch, hstates, catalog_putReplicaPlan⟩

lemma PlanNoted.mono (h : PlanNoted s t plan states) (hstates : states ⊆ states') :
    PlanNoted s t plan states' := by
  obtain ⟨patch, hid, hstate, hwrite⟩ := h.written
  exact ⟨h.stored, patch, hid, fun state hmem => hstates (hstate state hmem), hwrite⟩

def donePlan (plan : ReplicaPlan) (now : Time) : ReplicaPlan :=
  { plan with state := .done, completedAt := some now, updatedAt := now }

lemma PlanFinished.catalog_eq (h : PlanFinished s t plan now) :
    ∃ z replicas, findChunk s { id := plan.chunkID } = some z ∧ z.replicas = some replicas ∧
      (replicas.lookup plan.sourceNodeID).isSome ∧
      catalog t = { catalog s with
        chunk := update (catalog s).chunk z.id
          (some (withoutReplica z replicas plan.sourceNodeID now))
        plan := update (catalog s).plan plan.id (some (donePlan plan now)) } := by
  obtain ⟨r, hremove, hupdate⟩ := yields_finishWrites.mp h.written
  obtain ⟨z, replicas, hz, hreplicas, hsource, rfl⟩ := yields_removeChunkReplica.mp hremove
  obtain ⟨p, hp, rfl⟩ := yields_updateReplicaPlan.mp hupdate
  obtain rfl := Option.mem_unique h.stored hp
  refine ⟨z, replicas, hz, hreplicas, hsource, ?_⟩
  rw [catalog_putReplicaPlan, catalog_putChunk]
  rfl

lemma replicaOn_withoutReplica {replicas : Table NodeID ReplicaMetadata}
    (hreplicas : z.replicas = some replicas) (nodeID n : NodeID) :
    replicaOn (withoutReplica z replicas nodeID now).replicas n =
      if n = nodeID then none else replicaOn z.replicas n := by
  have herase : replicaOn (withoutReplica z replicas nodeID now).replicas n =
      (replicas.erase nodeID).lookup n := rfl
  rw [herase, hreplicas]
  by_cases hn : n = nodeID
  · rw [if_pos hn, hn, AList.lookup_erase]
  · rw [if_neg hn, AList.lookup_erase_ne hn]
    rfl

lemma CleanupChange.other_plans (h : CleanupChange producer plan s t) :
    ∀ k, k ≠ plan.id → (catalog t).plan k = (catalog s).plan k := by
  intro k hk
  cases h with
  | finished _ _ h =>
    obtain ⟨z, replicas, -, -, -, heq⟩ := h.catalog_eq
    rw [heq]
    exact update_of_ne hk ..
  | noted h =>
    obtain ⟨patch, -, heq⟩ := h.catalog_eq
    rw [heq]
    exact update_of_ne hk ..

variable (c : CleanupController)

section Finish

variable {sem : Semantics coordinatorSteps World} {envs : Environment → Prop}
  (hsem : ∀ {o w r w'}, sem o w r w' → coordinatorSemantics o w r w')

include hsem in
lemma notes_failOrRetryPlan (err : CoordinatorError)
    (hstored : (catalog w.store).plan plan.id = some plan) :
    Ensures sem w (c.failOrRetryPlan plan err now)
      (fun _ w' => w'.tasks = w.tasks ∧ PlanNoted w.store w'.store plan []) E := by
  refine ensures_yields hsem (a := ()) (yields_updateReplicaPlan.mpr ⟨plan, hstored, rfl⟩)
    ⟨rfl, hstored, _, rfl, ?_, yields_updateReplicaPlan.mpr ⟨plan, hstored, rfl⟩⟩
  exact fun _ hstate => (Option.not_mem_none _ hstate).elim

include hsem in
lemma finishes_finishWrites (hstored : (catalog w.store).plan plan.id = some plan) :
    Ensures sem w (repo (.inTx (CleanupController.finishWrites plan now)))
      (fun _ w' => w'.tasks = w.tasks ∧ PlanFinished w.store w'.store plan now)
      (fun w' => w' = w ∧ ¬∃ z, findChunk w.store { id := plan.chunkID } = some z ∧
        (replicaOn z.replicas plan.sourceNodeID).isSome) := by
  by_cases hreplica : ∃ z, findChunk w.store { id := plan.chunkID } = some z ∧
      (replicaOn z.replicas plan.sourceNodeID).isSome
  · obtain ⟨t, ht⟩ := finishWrites_succeeds hstored hreplica
    exact ensures_yields hsem ht ⟨rfl, hstored, ht⟩
  · exact ensures_call hsem (fun _ _ hrun => ⟨rfl, hstored, hrun⟩) ⟨rfl, hreplica⟩

lemma ensures_deleteReplica (node : NodeInfo) (chunkID : ChunkID) :
    Ensures (semanticsIn envs) w (fallible (step (.deleteReplica node chunkID)) .outside)
      (fun status w' => w' = w ∧ ∃ env, envs env ∧ env.deleteReplica node chunkID = .ok status)
      (fun w' => w' = w ∧ ∃ env e, envs env ∧ env.deleteReplica node chunkID = .error e) := by
  rintro answer w' ⟨env, henv, ⟨⟩⟩
  cases hanswer : env.deleteReplica node chunkID with
  | error e => exact ⟨rfl, env, e, henv, hanswer⟩
  | ok status => exact ⟨rfl, env, henv, hanswer⟩

lemma finishes_deleteSourceReplica (hstored : (catalog w.store).plan plan.id = some plan) :
    Ensures (semanticsIn envs) w (CleanupController.deleteSourceReplica plan now)
      (fun _ w' => w'.tasks = w.tasks ∧ ((catalog w.store).node plan.sourceNodeID).isSome ∧
        PlanFinished w.store w'.store plan now)
      (fun w' => w' = w ∧ ¬Deletable envs w.store plan) := by
  cases hnode : (catalog w.store).node plan.sourceNodeID with
  | none =>
    refine ensures_read_bind semanticsIn_le rfl (fun node hget => ?_) ⟨rfl, fun h => ?_⟩
    · cases hnode.symm.trans (yields_getNode.mp hget).1
    · obtain ⟨node, hsome, -⟩ := h.node
      cases hnode.symm.trans hsome
  | some node =>
    have hdeletes (h : Deletable envs w.store plan) {env : Environment} (henv : envs env) :
        env.deleteReplica node plan.chunkID = .ok 204 ∨
          env.deleteReplica node plan.chunkID = .ok 200 := by
      obtain ⟨node', hnode', hanswer⟩ := h.node
      obtain rfl := Option.mem_unique hnode hnode'
      exact hanswer env henv
    refine ensures_yields_bind semanticsIn_le (yields_getNode.mpr ⟨hnode, rfl⟩) ?_
    refine ((ensures_deleteReplica node plan.chunkID).mono (fun _ _ h => h) ?_).bind ?_
    · rintro _ ⟨rfl, env, e, henv, hanswer⟩
      refine ⟨rfl, fun h => ?_⟩
      rcases hdeletes h henv with hok | hok <;> cases hanswer.symm.trans hok
    · rintro status _ ⟨rfl, env, henv, hanswer⟩
      refine ensures_ite (fun hbad => ensures_throw ⟨rfl, fun h => ?_⟩) fun _ => ?_
      · rcases hdeletes h henv with hok | hok <;> cases hanswer.symm.trans hok
        · exact hbad.1 rfl
        · exact hbad.2 rfl
      · exact (finishes_finishWrites semanticsIn_le hstored).mono
          (fun _ _ h => ⟨h.1, rfl, h.2⟩) fun _ h => ⟨h.1, fun hdel => h.2 hdel.replica⟩

lemma finishes_deleteOrRetry (hstored : (catalog w.store).plan plan.id = some plan) :
    Ensures (semanticsIn envs) w (c.deleteOrRetry plan now)
      (fun _ w' => w'.tasks = w.tasks ∧
        (((catalog w.store).node plan.sourceNodeID).isSome ∧
          PlanFinished w.store w'.store plan now ∨
        ¬Deletable envs w.store plan ∧ PlanNoted w.store w'.store plan [])) E := by
  refine (finishes_deleteSourceReplica hstored).attempt.bind fun deleted w1 hw1 => ?_
  cases deleted with
  | ok _ => exact ensures_pure ⟨hw1.1, .inl hw1.2⟩
  | error err =>
    obtain ⟨rfl, hnot⟩ := hw1
    exact (notes_failOrRetryPlan c semanticsIn_le err hstored).mono
      (fun _ _ h => ⟨h.1, .inr ⟨hnot, h.2⟩⟩) fun _ h => h

end Finish

lemma cleans_finalizeCompletedPlan (now : Time)
    (hstored : (catalog w.store).plan plan.id = some plan) :
    Ensures coordinatorSemantics w (c.finalizeCompletedPlan plan now)
      (fun _ w' => ReflGen (CleanupChange c.taskProducer plan) w.store w'.store)
      (fun w' => w'.store = w.store) := by
  refine ensures_read_bind id rfl (fun chunk hchunk => ?_) rfl
  refine ensures_ite (fun _ => ensures_pure .refl) fun hready => ?_
  replace hready : HasReadyTarget w.store plan := by
    refine ⟨chunk, (yields_getChunk_selector.mp hchunk).1, ?_⟩
    simpa using hready
  refine ensures_ite (fun hproducer => ?_) fun hproducer => ?_
  · have hnoted {s t : MemoryState} (h : PlanNoted s t plan [.cleanupReady]) :
        ReflGen (CleanupChange c.taskProducer plan) s t := by
      refine .single (.noted ?_)
      rwa [if_pos hproducer]
    refine ensures_ite (fun _ => ensures_pure .refl) fun _ => ?_
    refine (ensures_attempt_publish _).bind fun published w1 hw1 => ?_
    rw [← hw1] at hstored ⊢
    cases published with
    | error err =>
      refine (notes_failOrRetryPlan c id err hstored).mono (fun _ _ h => hnoted ?_) fun _ h => h
      exact h.2.mono (nil_subset _)
    | ok _ =>
      refine ensures_call id (fun _ _ hrun => hnoted ⟨hstored, _, rfl, ?_, hrun⟩) rfl
      intro state hstate
      obtain rfl := Option.mem_some.mp hstate
      exact mem_singleton_self _
  · rw [Bool.not_eq_true] at hproducer
    have hnoted {s t : MemoryState} (h : PlanNoted s t plan []) :
        ReflGen (CleanupChange c.taskProducer plan) s t :=
      .single (.noted (h.mono (nil_subset _)))
    split
    · refine (finishes_finishWrites id hstored).mono (fun _ _ h => ?_) fun _ h => h.1 ▸ rfl
      exact .single (.finished hproducer hready h.2)
    · refine ((finishes_deleteOrRetry c hstored).le le_semanticsIn).mono ?_ fun _ h => h
      rintro _ w' ⟨-, ⟨-, h⟩ | ⟨-, h⟩⟩
      · exact .single (.finished hproducer hready h)
      · exact hnoted h
    · exact ensures_pure .refl

abbrev CleanupRun (c : CleanupController) : MemoryState → MemoryState → Prop :=
  ReflTransGen fun s t =>
    ∃ plan, c.examined.matches plan = true ∧ CleanupChange c.taskProducer plan s t

lemma nodup_listReplicaPlans {filter : ReplicaPlanFilter}
    (h : Yields (listReplicaPlans filter) s plans t) : (plans.map ReplicaPlan.id).Nodup := by
  obtain ⟨rfl, -⟩ := h
  refine List.Nodup.sublist ((sublist_applyListWindow _ _ _).map _) ?_
  refine ((perm_insertionSort _ _).map _).nodup_iff.mpr ?_
  exact s.replicaPlans.nodup.sublist (filter_sublist.map _)

lemma runs_finalize (hstored : ∀ p ∈ plans, (catalog w.store).plan p.id = some p)
    (hmatches : ∀ p ∈ plans, c.examined.matches p = true)
    (hnodup : (plans.map ReplicaPlan.id).Nodup) :
    Leads (CleanupRun c) w (plans.forM fun plan => c.finalizeCompletedPlan plan now) := by
  induction plans generalizing w with
  | nil => exact ensures_pure .refl
  | cons plan plans ih =>
    obtain ⟨hplan, hrest⟩ := forall_mem_cons.mp hstored
    obtain ⟨hmatch, hmatches⟩ := forall_mem_cons.mp hmatches
    obtain ⟨hnew, hnodup⟩ := nodup_cons.mp hnodup
    have hvisit := (cleans_finalizeCompletedPlan c now hplan).mono (fun _ _ h => h)
      fun w' (hw' : w'.store = w.store) => (hw' ▸ .refl : CleanupRun c w.store w'.store)
    refine hvisit.bind fun _ w1 hw1 => ?_
    have hrun : CleanupRun c w.store w1.store := by
      rcases (reflGen_iff _ _ _).mp hw1 with hstore | h
      · rw [hstore]
      · exact .single ⟨plan, hmatch, h⟩
    have hothers : ∀ k, k ≠ plan.id → (catalog w1.store).plan k = (catalog w.store).plan k := by
      rcases (reflGen_iff _ _ _).mp hw1 with hstore | h
      · rw [hstore]
        exact fun _ _ => rfl
      · exact h.other_plans
    refine (ih (fun p hp => ?_) hmatches hnodup).imp fun _ h => hrun.trans h
    have hne : p.id ≠ plan.id := fun heq => hnew (heq ▸ mem_map_of_mem hp)
    rw [hothers p.id hne]
    exact hrest p hp

theorem runs_cleanup : Leads (CleanupRun c) w c.cleanupOnce := by
  refine ensures_timeNow_bind id fun now => ensures_read_bind id rfl (fun plans hplans => ?_) .refl
  have hlisted := (listReplicaPlans_spec hplans).2
  exact runs_finalize c (fun p hp => (hlisted p hp).1) (fun p hp => (hlisted p hp).2)
    (nodup_listReplicaPlans hplans)

end Cleanup

/-! ### All controllers and tasks -/

inductive ControllerChange (known : ChunkMetadata → NodeID → Prop) (s t : MemoryState) : Prop
  | made {plan chunk now} (h : PlanMade s t plan chunk now)
  | revoked {plan chunk now} (h : PlanRevoked s t plan chunk now)
  | copied {chunk nodeIDs now}
      (h : Copied s t chunk nodeIDs now) (hknown : ∀ n ∈ nodeIDs, known chunk n)
  | finished {plan now} (h : PlanFinished s t plan now)
  | noted {plan states} (h : PlanNoted s t plan states)

abbrev ControllerChanges (known : ChunkMetadata → NodeID → Prop) :
    MemoryState → MemoryState → Prop :=
  ReflTransGen (ControllerChange known)

def CopiesTo (s : MemoryState) (chunk : ChunkMetadata) (nodeID : NodeID) : Task → Prop
  | .replicaRepair task =>
    findChunk s { id := task.chunkID } = some chunk ∧ task.targetNodeID = nodeID
  | .rebalance task => ∃ p, (catalog s).plan task.planID = some p ∧
    findChunk s { id := p.chunkID } = some chunk ∧ p.targetNodeID = nodeID
  | .failover task => ∃ p, (catalog s).plan task.planID = some p ∧
    findChunk s { id := p.chunkID } = some chunk ∧ p.targetNodeID = nodeID
  | .cleanup _ => False

section Changes

variable {known : ChunkMetadata → NodeID → Prop}

inductive EntryFrom (known : ChunkMetadata → NodeID → Prop) (s : MemoryState) (z : ChunkMetadata)
    (n : NodeID) : ReplicaMetadata → Prop
  | kept {replica} (h : replicaOn z.replicas n = some replica) :
      EntryFrom known s z n replica
  | planned {now node} (hnode : (catalog s).node n = some node) :
      EntryFrom known s z n (pendingReplica .secondary z n now)
  | copied {now replica} (hknown : known z n)
      (h : CopyEntry z now n replica) : EntryFrom known s z n replica

section

variable (h : ControllerChange known s t) (hnamed : (catalog s).chunk "" = none)
include h hnamed

/-- A change makes no chunk, and it makes entries in two ways only. -/
theorem ControllerChange.entries {z' : ChunkMetadata} (hz' : (catalog t).chunk k = some z') :
    ∃ z, (catalog s).chunk k = some z ∧ z'.id = z.id ∧ z'.fileID = z.fileID ∧
      ∀ n replica, replicaOn z'.replicas n = some replica → EntryFrom known s z n replica := by
  have hsame (hz : (catalog s).chunk k = some z') :
      ∃ z, (catalog s).chunk k = some z ∧ z'.id = z.id ∧ z'.fileID = z.fileID ∧
        ∀ n replica, replicaOn z'.replicas n = some replica → EntryFrom known s z n replica :=
    ⟨z', hz, rfl, rfl, fun _ _ h => .kept h⟩
  cases h with
  | @made plan chunk now h =>
    rw [h.catalog_eq] at hz'
    rcases update_some_eq_some.mp hz' with ⟨rfl, rfl⟩ | ⟨-, hz⟩
    · refine ⟨chunk, h.stored, rfl, rfl, fun n replica hreplica => ?_⟩
      rw [replicaOn_made] at hreplica
      split_ifs at hreplica with hn
      · cases hreplica
        obtain ⟨node, hnode, -⟩ := h.target
        exact .planned (hn ▸ hnode)
      · exact .kept hreplica
    · exact hsame hz
  | @revoked plan chunk now h =>
    obtain ⟨r, hmade, -⟩ := h.made
    rw [h.catalog_eq] at hz'
    rcases update_some_eq_some.mp hz' with ⟨rfl, rfl⟩ | ⟨-, hz⟩
    · refine ⟨chunk, hmade.stored, rfl, rfl, fun n replica hreplica => ?_⟩
      rw [hmade.replicas_revoked] at hreplica
      exact .kept hreplica
    · exact hsame hz
  | @copied chunk nodeIDs now h hknown =>
    obtain ⟨z, hid, hfile, -, hentries, heq⟩ := h.catalog_eq (stored_id_ne hnamed h.stored)
    rw [heq] at hz'
    rcases update_some_eq_some.mp hz' with ⟨rfl, rfl⟩ | ⟨-, hz⟩
    · refine ⟨chunk, h.stored, hid, hfile, fun n replica hreplica => ?_⟩
      rcases hentries n with hkept | ⟨hn, copy, hcopy, hcopied⟩
      · exact .kept (hkept ▸ hreplica)
      · obtain rfl := Option.mem_unique hcopied hreplica
        exact .copied (hknown n hn) hcopy
    · exact hsame hz
  | @finished plan now h =>
    obtain ⟨z, replicas, hz, hreplicas, -, heq⟩ := h.catalog_eq
    rw [heq] at hz'
    rcases update_some_eq_some.mp hz' with ⟨rfl, rfl⟩ | ⟨-, hz⟩
    · refine ⟨z, findChunk_stored hz, rfl, rfl, fun n replica hreplica => ?_⟩
      rw [replicaOn_withoutReplica hreplicas] at hreplica
      split_ifs at hreplica
      exact .kept hreplica
    · exact hsame hz
  | noted h =>
    obtain ⟨patch, -, heq⟩ := h.catalog_eq
    rw [heq] at hz'
    exact hsame hz'

lemma ControllerChange.named : (catalog t).chunk "" = none := by
  cases ht : (catalog t).chunk "" with
  | none => rfl
  | some z' =>
    obtain ⟨z, hz, -⟩ := h.entries hnamed ht
    exact absurd rfl (stored_id_ne hnamed hz)

lemma ControllerChange.node_eq : (catalog t).node = (catalog s).node := by
  cases h with
  | made h | revoked h => rw [h.catalog_eq]
  | copied h _ =>
    obtain ⟨z, -, -, -, -, heq⟩ := h.catalog_eq (stored_id_ne hnamed h.stored)
    rw [heq]
  | finished h =>
    obtain ⟨z, replicas, -, -, -, heq⟩ := h.catalog_eq
    rw [heq]
  | noted h =>
    obtain ⟨patch, -, heq⟩ := h.catalog_eq
    rw [heq]

end

lemma ControllerChanges.named_and_node_eq (h : ControllerChanges known s t)
    (hnamed : (catalog s).chunk "" = none) :
    (catalog t).chunk "" = none ∧ (catalog t).node = (catalog s).node := by
  induction h with
  | refl => exact ⟨hnamed, rfl⟩
  | tail _ hstep ih =>
    obtain ⟨hnamed, hnode⟩ := ih
    exact ⟨hstep.named hnamed, (hstep.node_eq hnamed).trans hnode⟩

lemma PlannerChange.controllerChange (h : PlannerChange kind producer now chunk s t) :
    ControllerChange known s t := by
  cases h with
  | made _ h => exact .made h
  | revoked _ _ h => exact .revoked h

lemma CleanupChange.controllerChange (h : CleanupChange producer plan s t) :
    ControllerChange known s t := by
  cases h with
  | finished _ _ h => exact .finished h
  | noted h => exact .noted h

/-- A run of a controller only copies to nodes that the chunk has an entry for. -/
theorem changes_program (run : Controller) (hnamed : (catalog w.store).chunk "" = none) :
    Leads (ControllerChanges fun z n => (replicaOn z.replicas n).isSome) w run.program := by
  have hplanner {kind : ReplicaPlanType} {producer : Bool} {s t : MemoryState}
      (h : ∃ now, PlannerRun kind producer now s t) :
      ControllerChanges (fun z n => (replicaOn z.replicas n).isSome) s t := by
    obtain ⟨now, h⟩ := h
    refine ReflTransGen.mono ?_ _ _ h
    rintro s t ⟨chunk, hchange⟩
    exact hchange.controllerChange
  have hrepair {s t : MemoryState} (h : RepairRun s t) :
      ControllerChanges (fun z n => (replicaOn z.replicas n).isSome) s t := by
    refine ReflTransGen.mono ?_ _ _ h
    rintro s t ⟨chunk, hchange⟩
    obtain ⟨nodeIDs, now, hpending, hcopied⟩ := hchange.copied
    refine .copied hcopied fun n hn => ?_
    obtain ⟨replica, hreplica, -⟩ := mem_pending.mp (hpending hn)
    rw [hreplica]
    rfl
  have hcleanup {c : CleanupController} {s t : MemoryState} (h : CleanupRun c s t) :
      ControllerChanges (fun z n => (replicaOn z.replicas n).isSome) s t := by
    refine ReflTransGen.mono ?_ _ _ h
    rintro s t ⟨plan, -, hchange⟩
    exact hchange.controllerChange
  cases run with
  | failover f => exact (runs_failover f).imp fun _ h => hplanner h
  | rebalance r => exact (runs_rebalance r).imp fun _ h => hplanner h
  | repair r => exact (runs_repair r hnamed).imp fun _ h => hrepair h
  | cleanup c => exact (runs_cleanup c).imp fun _ h => hcleanup h

variable (r : PendingReplicaRepairer) (c : CleanupController)

lemma changes_executeCleanup (task : CleanupTask) :
    Leads (ControllerChanges known) w (c.executeCleanup task) := by
  refine ensures_read_bind id rfl (fun plan hplan => ensures_timeNow_bind id fun now => ?_) .refl
  have hget := (yields_getReplicaPlan.mp hplan).1
  have hstored : (catalog w.store).plan plan.id = some plan := (plan_id hget).symm ▸ hget
  split
  · exact (finishes_finishWrites id hstored).mono (fun _ _ h => .single (.finished h.2))
      fun _ h => h.1 ▸ .refl
  · refine ((finishes_deleteOrRetry c hstored).le le_semanticsIn).mono ?_ fun _ h => h
    rintro _ w' ⟨-, ⟨-, h⟩ | ⟨-, h⟩⟩
    · exact .single (.finished h)
    · exact .single (.noted h)
  · exact ensures_throw .refl

lemma changes_executeReplicaRepair (task : ReplicaRepairTask) :
    Leads (ControllerChanges fun z n => CopiesTo w.store z n (.replicaRepair task)) w
      (r.executeReplicaRepair task) := by
  refine ensures_read_bind id rfl (fun chunk hchunk => ensures_timeNow_bind id fun now => ?_) .refl
  have hfound := (yields_getChunk_selector.mp hchunk).1
  refine (copies_executeReplicaCopy r _ (findChunk_stored hfound)).bind fun out w1 hw1 => ?_
  have hchanges : ControllerChanges
      (fun z n => CopiesTo w.store z n (.replicaRepair task)) w.store w1.store := by
    rcases hw1 with hstore | hcopied
    · rw [hstore]
    · refine .single (.copied hcopied fun n hn => ⟨hfound, ?_⟩)
      exact (mem_singleton.mp hn).symm
  obtain ⟨_, _ | err⟩ := out
  · exact ensures_pure hchanges
  · exact ensures_throw hchanges

lemma ensures_selectReplicaCopySource (plan : ReplicaPlan) (chunk : ChunkMetadata)
    (nodes : List NodeInfo) :
    Ensures coordinatorSemantics w (selectReplicaCopySource plan chunk nodes)
      (fun _ w' => w' = w) (· = w) := by
  refine ensures_ite (fun _ => ensures_pure rfl) fun _ => ?_
  dsimp only
  split
  · exact ensures_throw rfl
  · exact ensures_pure rfl

lemma changes_executeReplicaPlanCopy (planID : ReplicaPlanID)
    (hknown : ∀ p z, (catalog w.store).plan planID = some p →
      findChunk w.store { id := p.chunkID } = some z → known z p.targetNodeID) :
    Leads (ControllerChanges known) w (r.executeReplicaPlanCopy planID) := by
  refine ensures_read_bind id rfl (fun plan hplan => ?_) .refl
  refine ensures_read_bind id rfl (fun chunk hchunk => ?_) .refl
  refine ensures_read_bind id rfl (fun nodes _ => ?_) .refl
  have hget := (yields_getReplicaPlan.mp hplan).1
  have hfound := (yields_getChunk_selector.mp hchunk).1
  have hsource := (ensures_selectReplicaCopySource plan chunk nodes).mono
    (fun _ _ h => h) fun w' (hw' : w' = w) =>
      (hw' ▸ .refl : ControllerChanges known w.store w'.store)
  refine hsource.bind fun source w' hsame => ?_
  subst w'
  refine ensures_timeNow_bind id fun now => ?_
  refine (copies_executeReplicaCopy r source (findChunk_stored hfound)).bind fun out w1 hw1 => ?_
  have hchanges : ControllerChanges known w.store w1.store ∧
      (catalog w1.store).plan = (catalog w.store).plan := by
    rcases hw1 with hstore | hcopied
    · rw [hstore]
      exact ⟨.refl, rfl⟩
    · refine ⟨.single (.copied hcopied fun n hn => ?_), ?_⟩
      · rw [mem_singleton.mp hn]
        exact hknown plan chunk hget hfound
      · obtain ⟨_, _, _, _, _, upserts, _, hwrite⟩ := hcopied.recorded
        obtain ⟨z, -, hw1⟩ := yields_updateChunkReplicas.mp hwrite
        rw [hw1]
        rfl
  obtain ⟨hchanges, hplans⟩ := hchanges
  obtain ⟨outcome, _ | err⟩ := out
  · refine ensures_ite (fun _ => ensures_throw hchanges) fun _ => ?_
    refine ensures_call id (fun _ t hrun => hchanges.tail ?_) hchanges
    have hstored : (catalog w1.store).plan plan.id = some plan := by
      rw [hplans, plan_id hget]
      exact hget
    have hnoted : PlanNoted w1.store t plan [.cleanupReady] := by
      refine ⟨hstored, _, rfl, fun state hstate => ?_, hrun⟩
      obtain rfl := Option.mem_some.mp hstate
      exact mem_singleton_self _
    exact .noted hnoted
  · exact ensures_throw hchanges

/-- A task copies a chunk to the node that it names, whatever the chunk looks like by then. -/
theorem changes_handle (task : Task) :
    Leads (ControllerChanges fun z n => CopiesTo w.store z n task) w (handle r c task) := by
  cases task with
  | replicaRepair task => exact changes_executeReplicaRepair r task
  | cleanup task => exact changes_executeCleanup c task
  | rebalance task | failover task =>
    exact changes_executeReplicaPlanCopy r task.planID fun p _ hp hz => ⟨p, hp, hz, rfl⟩

end Changes

end AstraStorage.Proofs
