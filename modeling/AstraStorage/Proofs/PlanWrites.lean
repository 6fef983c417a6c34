import AstraStorage.Model.Cleanup
import AstraStorage.Proofs.Effects

/-!
# What the repository does for the controllers

A repository call either fails and leaves the state it found, or it makes its writes one after
the other. For each write: when it succeeds, and the catalog it leaves.
-/

set_option mvcgen.warning false

namespace AstraStorage.Proofs
open Lib Store Coordinator List Records CleanupController

variable {k : ReplicaPlanID} {nodeID : NodeID} {call : RepositoryCall} {env : Environment}
  {z : ChunkMetadata} {T : Type} {s : MemoryState} {u : Unit} {plan : ReplicaPlan}

section Plans

lemma catalog_putReplicaPlan :
    catalog { s with replicaPlans := s.replicaPlans.put plan } =
      { catalog s with plan := Function.update (catalog s).plan plan.id (some plan) } := by
  simp [catalog, lookup_put]

lemma catalog_eraseReplicaPlan (k : ReplicaPlanID) :
    catalog { s with replicaPlans := s.replicaPlans.erase k } =
      { catalog s with plan := Function.update (catalog s).plan k none } := by
  simp [catalog, lookup_erase]

lemma plan_id (h : (catalog s).plan k = some plan) : plan.id = k :=
  key_of_lookup h

def AlreadyPlanned (s : MemoryState) (plan : ReplicaPlan) : Prop :=
  ∃ k p, (catalog s).plan k = some p ∧ p.type = plan.type ∧ p.chunkID = plan.chunkID ∧
    p.targetNodeID = plan.targetNodeID ∧ isTerminalReplicaPlanState p.state = false

structure PlanAccepted (s : MemoryState) (plan : ReplicaPlan) : Prop where
  id_ne : trimSpace plan.id ≠ ""
  type_ne : plan.type ≠ .other ""
  chunk_ne : plan.chunkID ≠ ""
  file_ne : plan.fileID ≠ ""
  source_ne : plan.sourceNodeID ≠ ""
  target_ne : plan.targetNodeID ≠ ""
  distinct : plan.sourceNodeID ≠ plan.targetNodeID
  bytes_nonneg : ¬plan.requiredBytes < 0
  state_ne : plan.state ≠ .other ""
  fresh : (catalog s).plan plan.id = none
  unplanned : ¬AlreadyPlanned s plan

lemma any_alreadyPlanned :
    (s.replicaPlans.values.any fun existing =>
      existing.type = plan.type && existing.chunkID = plan.chunkID &&
        existing.targetNodeID = plan.targetNodeID &&
        !isTerminalReplicaPlanState existing.state) = true ↔ AlreadyPlanned s plan := by
  simp only [any_eq_true, Bool.and_eq_true, decide_eq_true_eq, Bool.not_eq_true',
    AlreadyPlanned]
  constructor
  · rintro ⟨p, hp, ⟨⟨ht, hc⟩, hn⟩, hs⟩
    exact ⟨p.id, p, mem_values.mp hp, ht, hc, hn, hs⟩
  · rintro ⟨k, p, hp, ht, hc, hn, hs⟩
    exact ⟨p, mem_values_iff_exists.mpr ⟨k, hp⟩, ⟨⟨ht, hc⟩, hn⟩, hs⟩

lemma yields_createReplicaPlan :
    Yields (createReplicaPlan (some plan)) s u t ↔
      PlanAccepted s plan ∧ t = { s with replicaPlans := s.replicaPlans.put plan } := by
  simp only [createReplicaPlan, expect, pure_bind, yields_reject_bind, yields_get_bind,
    putReplicaPlan, yields_modify, any_alreadyPlanned, not_or, Option.isSome_iff_ne_none, not_not]
  constructor
  · rintro ⟨h1, h2, ⟨h3, h4⟩, ⟨h5, h6⟩, h7, h8, h9, h10, h11, ht⟩
    exact ⟨⟨h1, h2, h3, h4, h5, h6, h7, h8, h9, h10, h11⟩, ht⟩
  · rintro ⟨⟨h1, h2, h3, h4, h5, h6, h7, h8, h9, h10, h11⟩, ht⟩
    exact ⟨h1, h2, ⟨h3, h4⟩, ⟨h5, h6⟩, h7, h8, h9, h10, h11, ht⟩

lemma yields_getReplicaPlan :
    Yields (getReplicaPlan k) s plan t ↔ (catalog s).plan k = some plan ∧ t = s := by
  simp only [getReplicaPlan, yields_get_bind, yields_expect, catalog]

lemma yields_updateReplicaPlan :
    Yields (updateReplicaPlan patch) s u t ↔ ∃ p, (catalog s).plan patch.id = some p ∧
      t = { s with replicaPlans := s.replicaPlans.put (patch.apply p) } := by
  simp only [updateReplicaPlan, yields_get_bind, yields_expect_bind, putReplicaPlan,
    yields_modify, catalog]

lemma yields_deleteReplicaPlan :
    Yields (deleteReplicaPlan k) s u t ↔ ((catalog s).plan k).isSome ∧
      t = { s with replicaPlans := s.replicaPlans.erase k } := by
  simp only [deleteReplicaPlan, yields_get_bind, yields_reject_bind, yields_modify, catalog,
    Bool.not_eq_true, Option.isNone_eq_false_iff]

end Plans

section Replicas

lemma yields_updateChunkReplicas :
    Yields (updateChunkReplicas patch) s u t ↔ ∃ z, findChunk s patch.selector = some z ∧
      t = { s with chunks := s.chunks.put (patch.apply z) } := by
  simp only [updateChunkReplicas, yields_get_bind, yields_expect_bind, yields_putChunk]

lemma yields_removeChunkReplica :
    Yields (removeChunkReplica selector nodeID now) s u t ↔
      ∃ z replicas, findChunk s selector = some z ∧ z.replicas = some replicas ∧
        (replicas.lookup nodeID).isSome ∧
        t = { s with chunks := s.chunks.put (withoutReplica z replicas nodeID now) } := by
  simp only [removeChunkReplica, yields_get_bind, yields_expect_bind, yields_reject_bind,
    yields_putChunk, Bool.not_eq_true, Option.isNone_eq_false_iff, withoutReplica]
  constructor
  · rintro ⟨z, hz, replicas, hreplicas, hnode, ht⟩
    exact ⟨z, replicas, hz, hreplicas, hnode, ht⟩
  · rintro ⟨z, replicas, hz, hreplicas, hnode, ht⟩
    exact ⟨z, hz, replicas, hreplicas, hnode, ht⟩

end Replicas

def rewrittenPlans (s : MemoryState) : Write → Set FileID
  | .updateChunkReplicas patch => {f | ∃ z, findChunk s patch.selector = some z ∧ f = z.fileID}
  | .removeChunkReplica selector _ _ => {f | ∃ z, findChunk s selector = some z ∧ f = z.fileID}
  | _ => ∅

section Listings

lemma findChunk_stored (h : findChunk s selector = some z) : (catalog s).chunk z.id = some z := by
  unfold findChunk at h
  split at h
  · rw [chunk_id h]
    exact h
  · exact mem_values.mp (mem_of_find?_eq_some h)

lemma yields_getChunk_selector :
    Yields (getChunk selector) s z t ↔ findChunk s selector = some z ∧ t = s := by
  simp only [getChunk, yields_get_bind, yields_expect]

lemma sublist_applyListWindow (items : List T) (limit offset : Int) :
    (applyListWindow items limit offset).Sublist items := by
  unfold applyListWindow
  dsimp only
  split
  · exact nil_sublist _
  · split
    · exact drop_sublist ..
    · exact (take_sublist ..).trans (drop_sublist ..)

lemma mem_of_mem_applyListWindow (h : x ∈ applyListWindow items limit offset) : x ∈ items :=
  (sublist_applyListWindow items limit offset).subset h

lemma listReplicaPlans_spec {filter : ReplicaPlanFilter} {plans : List ReplicaPlan}
    (h : Yields (listReplicaPlans filter) s plans t) :
    t = s ∧ ∀ p ∈ plans, (catalog s).plan p.id = some p ∧ filter.matches p = true := by
  obtain ⟨rfl, rfl⟩ := h
  refine ⟨rfl, fun p hp => ?_⟩
  have hmem := mem_of_mem_applyListWindow hp
  rw [mem_insertionSort, mem_filter] at hmem
  exact ⟨mem_values.mp hmem.1, hmem.2⟩

lemma yields_getNode :
    Yields (getNode nodeID) s node t ↔ (catalog s).node nodeID = some node ∧ t = s := by
  simp only [getNode, yields_get_bind, yields_expect, catalog]

lemma node_id (h : (catalog s).node nodeID = some node) : node.id = nodeID :=
  key_of_lookup h

lemma of_matches_examined {c : CleanupController} {p : ReplicaPlan}
    (h : c.examined.matches p = true) :
    (p.type = .failover ∨ p.type = .rebalance) ∧
      (p.state = .materialized ∨ p.state = .copyReady ∨ p.state = .cleanupReady) := by
  simp only [ReplicaPlanFilter.matches, examined, Bool.and_eq_true] at h
  obtain ⟨⟨⟨⟨⟨htype, hstate⟩, -⟩, -⟩, -⟩, -⟩ := h
  exact ⟨by simpa using htype, by simpa using hstate⟩

lemma listChunksByNode_spec (h : Yields (listChunksByNode nodeID) s chunks t) :
    t = s ∧ ∀ z, z ∈ chunks ↔ (catalog s).chunk z.id = some z ∧
      (Allocator.replicaOn z.replicas nodeID).isSome := by
  obtain ⟨rfl, rfl⟩ := h
  refine ⟨rfl, fun z => ?_⟩
  rw [mem_insertionSort, mem_filter, mem_values]
  cases hz : z.replicas with
  | none | some _ => simp [Allocator.replicaOn, catalog]

end Listings

section Writes

variable {v : Write}

lemma write_cases (h : Yields v.run s () t) :
    (∃ plans, t = { s with replicaPlans := plans }) ∨ ∃ z replicas count policy updatedAt,
      (catalog s).chunk z.id = some z ∧ z.fileID ∈ rewrittenPlans s v ∧
      t = { s with chunks := s.chunks.put { z with
        replicas := replicas, replicaCount := count, replicaPolicy := policy,
        updatedAt := updatedAt } } := by
  cases v with
  | createReplicaPlan plan => exact .inl ⟨_, (yields_createReplicaPlan.mp h).2⟩
  | updateReplicaPlan patch =>
    obtain ⟨p, -, ht⟩ := yields_updateReplicaPlan.mp h
    exact .inl ⟨_, ht⟩
  | deleteReplicaPlan j => exact .inl ⟨_, (yields_deleteReplicaPlan.mp h).2⟩
  | updateChunkReplicas patch =>
    obtain ⟨z, hz, ht⟩ := yields_updateChunkReplicas.mp h
    exact .inr ⟨z, _, _, _, _, findChunk_stored hz, ⟨z, hz, rfl⟩, ht⟩
  | removeChunkReplica selector nodeID now =>
    obtain ⟨z, replicas, hz, -, -, ht⟩ := yields_removeChunkReplica.mp h
    exact .inr ⟨z, _, _, _, _, findChunk_stored hz, ⟨z, hz, rfl⟩, ht⟩

lemma plan_of_write (h : Yields v.run s () t) (hp : (catalog t).plan k = some p) :
    (catalog s).plan k = some p ∨ v = .createReplicaPlan p ∧ PlanAccepted s p ∨
      ∃ patch q, v = .updateReplicaPlan patch ∧ k = patch.id ∧ (catalog s).plan k = some q ∧
        p = patch.apply q := by
  cases v with
  | createReplicaPlan plan =>
    obtain ⟨hacc, rfl⟩ := yields_createReplicaPlan.mp h
    rw [catalog_putReplicaPlan] at hp
    rcases update_some_eq_some.mp hp with ⟨-, rfl⟩ | ⟨-, hp⟩
    · exact .inr (.inl ⟨rfl, hacc⟩)
    · exact .inl hp
  | updateReplicaPlan patch =>
    obtain ⟨q, hq, rfl⟩ := yields_updateReplicaPlan.mp h
    have hid : (patch.apply q).id = patch.id := (plan_id hq : q.id = patch.id)
    rw [catalog_putReplicaPlan, hid] at hp
    rcases update_some_eq_some.mp hp with ⟨rfl, rfl⟩ | ⟨-, hp⟩
    · exact .inr (.inr ⟨patch, q, rfl, rfl, hq, rfl⟩)
    · exact .inl hp
  | deleteReplicaPlan j =>
    obtain ⟨-, rfl⟩ := yields_deleteReplicaPlan.mp h
    rw [catalog_eraseReplicaPlan] at hp
    exact .inl (update_none_eq_some.mp hp).2
  | updateChunkReplicas patch =>
    obtain ⟨z, -, rfl⟩ := yields_updateChunkReplicas.mp h
    exact .inl hp
  | removeChunkReplica selector nodeID now =>
    obtain ⟨z, replicas, -, -, -, rfl⟩ := yields_removeChunkReplica.mp h
    exact .inl hp

end Writes

section Finish

lemma yields_finishWrites :
    Yields (RepositoryCall.inTx (CleanupController.finishWrites plan now)).run s u t ↔
      ∃ r, Yields (removeChunkReplica { id := plan.chunkID } plan.sourceNodeID now) s () r ∧
        Yields (updateReplicaPlan
          { id := plan.id, state := some .done, completedAt := some now, updatedAt := now })
          r () t := by
  change Yields (inTx (forM (finishWrites plan now) Write.run)) s u t ↔ _
  simp only [yields_inTx, finishWrites, yields_forM_cons, yields_forM_nil]
  constructor
  · rintro ⟨r, hremove, r', hupdate, rfl⟩
    exact ⟨r, hremove, hupdate⟩
  · rintro ⟨r, hremove, hupdate⟩
    exact ⟨r, hremove, t, hupdate, rfl⟩

lemma finishWrites_succeeds (hstored : (catalog s).plan plan.id = some plan)
    (hreplica : ∃ z, findChunk s { id := plan.chunkID } = some z ∧
      (Allocator.replicaOn z.replicas plan.sourceNodeID).isSome) :
    ∃ t, Yields (RepositoryCall.inTx (CleanupController.finishWrites plan now)).run s () t := by
  obtain ⟨z, hz, hnode⟩ := hreplica
  obtain ⟨replica, hreplica⟩ := Option.isSome_iff_exists.mp hnode
  obtain ⟨replicas, hreplicas, hlookup⟩ := Option.bind_eq_some_iff.mp hreplica
  have hremove : Yields (removeChunkReplica { id := plan.chunkID } plan.sourceNodeID now) s () _ :=
    yields_removeChunkReplica.mpr ⟨z, replicas, hz, hreplicas, hlookup ▸ rfl, rfl⟩
  have hupdate {r : MemoryState} (hr : (catalog r).plan plan.id = some plan) :
      Yields (updateReplicaPlan
        { id := plan.id, state := some .done, completedAt := some now, updatedAt := now }) r () _ :=
    yields_updateReplicaPlan.mpr ⟨plan, hr, rfl⟩
  exact ⟨_, yields_finishWrites.mpr ⟨_, hremove, hupdate hstored⟩⟩

end Finish

def writesOf : RepositoryCall → List Write
  | .write w => [w]
  | .inTx ws => ws
  | _ => []

lemma yields_writes (h : Yields call.run s a t) :
    Yields (forM (writesOf call) Write.run) s () t := by
  have hread {β : Type} {f : MemoryState → β} {b : β}
      (h : Yields (get >>= fun s => pure (f s) : StoreM β) s b t) : t = s := by
    simp only [yields_get_bind, yields_pure] at h
    exact h.2
  have hfind {β : Type} {f : MemoryState → Option β} {kind : ErrorKind} {format : String} {b : β}
      (h : Yields (get >>= fun s => expect (f s) kind format : StoreM β) s b t) : t = s := by
    simp only [yields_get_bind, yields_expect] at h
    exact h.2
  cases call with
  | write w => exact yields_forM_cons.mpr ⟨t, h, yields_forM_nil.mpr rfl⟩
  | inTx ws => exact yields_inTx.mp h
  | getNode _ | getFile _ | getChunk _ | getReplicaPlan _ => exact yields_forM_nil.mpr (hfind h)
  | listNodes _ | listFiles _ | listChunksByFile _ | listChunksByNode _ | listReplicaPlans _ =>
    exact yields_forM_nil.mpr (hread h)

lemma failsCleanly_write (w : Write) : FailsCleanly w.run := by
  refine failsCleanly_iff.mpr fun s => ?_
  cases w <;> mvcgen [Write.run, createReplicaPlan, putReplicaPlan, updateReplicaPlan,
    deleteReplicaPlan, updateChunkReplicas, putChunk, removeChunkReplica] <;> grind

lemma failsCleanly_find {α : Type} {find : MemoryState → Option α} :
    FailsCleanly (do expect (find (← get)) kind what args) :=
  failsCleanly_iff.mpr fun s => by mvcgen <;> grind

lemma failsCleanly_call (call : RepositoryCall) : FailsCleanly call.run := by
  cases call with
  | write w => exact failsCleanly_write w
  | inTx writes => exact failsCleanly_inTx
  | getNode _ | getFile _ | getChunk _ | getReplicaPlan _ => exact failsCleanly_find
  | listNodes _ | listFiles _ | listChunksByFile _ | listChunksByNode _ | listReplicaPlans _ =>
    intro s e t h
    cases h

variable {w : World}

lemma perform_repo (h : env.semantics (.repo call) w r w') :
    (∃ e, r = .error e ∧ w' = w) ∨
      ∃ a s, r = .ok a ∧ Yields call.run w.store a s ∧ w' = { w with store := s } := by
  unfold Environment.semantics Environment.perform at h
  cases hrun : call.run w.store with
  | ok a s =>
    simp only [hrun, Option.some.injEq] at h
    obtain ⟨rfl, rfl⟩ := h
    exact .inr ⟨a, s, rfl, hrun, rfl⟩
  | error e s =>
    simp only [hrun, Option.some.injEq] at h
    obtain ⟨rfl, rfl⟩ := h
    obtain rfl := failsCleanly_call call _ _ _ hrun
    exact .inl ⟨e, rfl, rfl⟩

lemma yields_read (hread : writesOf call = []) (h : Yields call.run s a t) : t = s := by
  have hwrites := yields_writes h
  rw [hread] at hwrites
  exact yields_forM_nil.mp hwrites

def touchesStore : CoordinatorOp → Bool
  | .repo _ => true
  | .service .. => true
  | _ => false

lemma perform_elsewhere (ho : touchesStore o = false) (h : env.semantics o w r w') :
    w'.store = w.store := by
  unfold Environment.semantics at h
  cases o with
  | repo call | service now call => cases ho
  | publish task =>
    unfold Environment.perform at h
    dsimp only at h
    split at h
    · cases h
      rfl
    · cases h
      split <;> rfl
  | receive task =>
    unfold Environment.perform at h
    dsimp only at h
    split at h
    · cases h
      rfl
    · cases h
  | acknowledge task =>
    cases h
    split <;> rfl
  | _ =>
    cases h
    rfl

lemma perform_service {call : Service.Call} {r : Unit}
    (h : env.semantics (.service now call) w r w') :
    w' = { w with store := call.exec now w.store } := by
  cases h
  rfl

/-- What every write of a call keeps and the call on the service keeps, the step keeps. -/
theorem step_keeps {I : MemoryState → Prop} {r : coordinatorSteps.Reply o}
    (h : coordinatorSemantics o w r w') (hw : I w.store)
    (hwrite : ∀ call, o = .repo call → ∀ v ∈ writesOf call, ∀ s t, I s → Yields v.run s () t → I t)
    (hservice : ∀ now call, o = .service now call → I (call.exec now w.store)) : I w'.store := by
  obtain ⟨env, h⟩ := h
  by_cases htouch : touchesStore o = false
  · rw [perform_elsewhere htouch h]
    exact hw
  · cases o with
    | repo call =>
      rcases perform_repo h with ⟨e, -, rfl⟩ | ⟨a, s, -, hrun, rfl⟩
      · exact hw
      · exact (yields_writes hrun).forM_preserves
          (fun v hv s _ t hs hrun => hwrite call rfl v hv s t hs hrun) hw
    | service now call =>
      rw [perform_service h]
      exact hservice now call rfl
    | _ => exact absurd rfl htouch

end AstraStorage.Proofs
