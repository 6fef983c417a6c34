import AstraStorage.Proofs.FinishedPlans
import Mathlib.Data.List.Infix

/-!
# What cleanup takes away

Cleanup removes the source replica of a plan. It is safe where the target was good when cleanup
read the plan and no other activity takes a good replica away in the meantime, which neither the
run nor the consumer makes sure of.
-/

namespace AstraStorage.Proofs
open Lib Prog Store Coordinator Allocator List

def removed (writes : List Write) : List (ChunkID × NodeID) :=
  writes.filterMap fun
    | .removeChunkReplica selector nodeID _ => some (selector.id, nodeID)
    | _ => none

/-- The replicas that a step takes away or asks a datanode to delete. -/
def removals : AtomicOp → List (ChunkID × NodeID)
  | .single (.deleteReplica node chunkID) => [(chunkID, node.id)]
  | .single (.repo call) => removed (writesOf call)
  | .endTx _ (.repo writes) => removed writes
  | _ => []

def healthyNode (s : MemoryState) (nodeID : NodeID) : Bool :=
  (s.nodes.lookup nodeID).any (·.healthy)

/-- The chunk has a ready replica on the node, which is registered and healthy. -/
def goodReplica (s : MemoryState) (chunkID : ChunkID) (nodeID : NodeID) : Bool :=
  (s.chunks.lookup chunkID).any (fun chunk =>
    (replicaOn chunk.replicas nodeID).any (·.state = .ready)) && healthyNode s nodeID

def cleans : Activity → Bool
  | .controller (.cleanup c) => !c.taskProducer
  | .delivery _ _ (.cleanup _) => true
  | _ => false

/-- When a run of cleanup lists its plans, their target nodes are healthy, and when a cleanup task
reads its plan, the target replica is good. -/
def targetsGood (s : MemoryState) : Activity → AtomicOp → Bool
  | .controller (.cleanup c), .single (.repo (.listReplicaPlans filter)) => c.taskProducer ||
    s.replicaPlans.values.all fun plan => !filter.matches plan || healthyNode s plan.targetNodeID
  | .delivery _ _ (.cleanup _), .single (.repo (.getReplicaPlan id)) =>
    (s.replicaPlans.lookup id).all fun plan => goodReplica s plan.chunkID plan.targetNodeID
  | _, _ => true

/-- No node that is healthy in `s` and no replica that is good there is lost in `t`. -/
def calm (s t : MemoryState) : Bool :=
  s.nodes.values.all fun node => (!healthyNode s node.id || healthyNode t node.id) &&
    s.chunks.values.all fun chunk => !goodReplica s chunk.id node.id || goodReplica t chunk.id node.id

/-- The state that a step leaves. -/
def stateAfter : AtomicOp → MemoryState → MemoryState
  | .single (.repo call), s =>
    match call.run s with
    | .ok _ t => t
    | .error _ t => t
  | .single (.service now call), s => call.exec now s
  | .endTx tx callback, s =>
    match callback.run tx.state with
    | .ok _ t => if tx.closed then s else t
    | .error _ _ => s
  | _, s => s

def ValidPlans (c : Catalog) : Prop :=
  ∀ k p, c.plan k = some p → p.chunkID ≠ "" ∧ p.sourceNodeID ≠ p.targetNodeID

section Writes

variable {s t : MemoryState}

lemma write_validPlans {v : Write} (hs : ValidPlans (catalog s)) (h : Yields v.run s () t) :
    ValidPlans (catalog t) := by
  intro k p hp
  rcases plan_of_write h hp with hp | ⟨-, hacc⟩ | ⟨patch, q, -, -, hq, rfl⟩
  · exact hs k p hp
  · exact ⟨hacc.chunk_ne, hacc.distinct⟩
  · exact hs k q hq

lemma validPlans_of_asked {o : CoordinatorOp} (ho : Asked o) :
    KeptBy (fun s => ValidPlans (catalog s)) o := by
  cases o with
  | repo call => exact fun _ _ _ _ hs hwrite => write_validPlans hs hwrite
  | service now call =>
    obtain ⟨req, rfl⟩ := ho
    intro s t hs h k p hp
    rw [(heartbeatNode_changes h).plan] at hp
    exact hs k p hp
  | _ => trivial

lemma write_node {v : Write} (h : Yields v.run s () t) : t.nodes = s.nodes := by
  rcases write_cases h with ⟨plans, rfl⟩ | ⟨z, _, _, _, _, -, -, rfl⟩ <;> rfl

end Writes

variable {w w' : World} {a : Activity} {ns : List NodeID} {α : Type} {P : World → Prop}
  {o : CoordinatorOp} {call : RepositoryCall} {plan : ReplicaPlan} {now : Time}
  {c : CleanupController}

lemma store_eq_stateAfter {o : AtomicOp} {r : atomicSteps.Reply o} (h : atomicSemantics o w r w') :
    w'.store = stateAfter o w.store := by
  obtain ⟨env, h⟩ := h
  cases o with
  | beginTx =>
    cases h
    rfl
  | endTx tx callback =>
    unfold Environment.performAtomic at h
    cases hrun : callback.run tx.state with
    | error e s =>
      simp only [hrun, Option.some.injEq] at h
      cases h
      simp only [stateAfter, hrun]
    | ok u s =>
      simp only [hrun, Option.some.injEq] at h
      cases h
      by_cases hclosed : tx.closed = true <;> simp [stateAfter, hrun, RepositoryOp.run, hclosed]
  | single o =>
    have hstep : env.semantics o w r w' := h
    by_cases ho : touchesStore o = false
    · rw [perform_elsewhere ho hstep]
      cases o with
      | repo _ | service _ _ => cases ho
      | _ => rfl
    · cases o with
      | repo call =>
        unfold Environment.semantics Environment.perform at hstep
        cases hrun : call.run w.store with
        | ok b s | error e s =>
          simp only [hrun, Option.some.injEq] at hstep
          cases hstep
          simp only [stateAfter, hrun]
      | service now call => exact congrArg World.store (perform_service hstep)
      | _ => exact absurd rfl ho

/-! ### What cleanup relies on -/

structure Calm (w w' : World) : Prop where
  healthy : ∀ n, healthyNode w.store n = true → healthyNode w'.store n = true
  good : ∀ k n, goodReplica w.store k n = true → goodReplica w'.store k n = true

lemma Calm.of_store_eq (h : w'.store = w.store) : Calm w w' := by
  constructor
  · intro n hn
    rwa [h]
  · intro k n hgood
    rwa [h]

lemma Calm.refl (w : World) : Calm w w := .of_store_eq rfl

lemma calm_of (h : calm w.store w'.store = true) : Calm w w' := by
  have hnode {n : NodeID} (hn : healthyNode w.store n = true) :
      ∃ node ∈ w.store.nodes.values, node.id = n := by
    obtain ⟨node, hnode, -⟩ := (Option.any_eq_true ..).mp hn
    exact ⟨node, Records.lookup_eq_some.mp hnode⟩
  constructor
  · intro n hn
    obtain ⟨node, hmem, rfl⟩ := hnode hn
    have hkept := (Bool.and_eq_true_iff.mp (all_eq_true.mp h node hmem)).1
    simpa [hn] using hkept
  · intro k n hgood
    obtain ⟨hready, hn⟩ := Bool.and_eq_true_iff.mp hgood
    obtain ⟨node, hmem, rfl⟩ := hnode hn
    obtain ⟨chunk, hchunk, -⟩ := (Option.any_eq_true ..).mp hready
    obtain ⟨hmem', rfl⟩ := Records.lookup_eq_some.mp hchunk
    have hkept := (Bool.and_eq_true_iff.mp (all_eq_true.mp h node hmem)).2
    simpa [hgood] using all_eq_true.mp hkept chunk hmem'

def Healthy (ns : List NodeID) (w : World) : Prop := ∀ n ∈ ns, healthyNode w.store n = true

lemma Healthy.stable : Stable Calm (Healthy ns) :=
  fun _ _ hw h n hn => h.healthy n (hw n hn)

lemma Healthy.of_nodes_eq (hw : Healthy ns w) (h : w'.store.nodes = w.store.nodes) :
    Healthy ns w' := by
  intro n hn
  have hn := hw n hn
  unfold healthyNode at hn ⊢
  rwa [h]

def TargetGood (plan : ReplicaPlan) (w : World) : Prop :=
  goodReplica w.store plan.chunkID plan.targetNodeID = true

lemma TargetGood.stable : Stable Calm (TargetGood plan) := fun _ _ hw h => h.good _ _ hw

def Leaves (o : AtomicOp) (w _ : World) : Prop :=
  ∀ replica ∈ removals o, ∃ n, n ≠ replica.2 ∧ goodReplica w.store replica.1 n = true

lemma leaves_of_nil {o : AtomicOp} (h : removals o = []) : Leaves o w w' := by
  intro replica hreplica
  rw [h] at hreplica
  exact absurd hreplica not_mem_nil

abbrev Safe (a : Activity) (ns : List NodeID) (P : World → Prop) (x : CoordinatorM α)
    (Q : α → World → Prop) : Prop :=
  Upholds atomically (fun o w r w' => (targetsGood w.store a o = true ∧
    ValidPlans (catalog w.store)) ∧ atomicSemantics o w r w') Calm Leaves (Healthy ns) P x Q

section Rules

lemma safe_step (hsingle : atomically o = Prog.perform (I := atomicSteps) (.single o))
    (hP : Stable Calm P)
    (hQ : ∀ r, Stable Calm (Q r))
    (h : ∀ w r w', P w → targetsGood w.store a (.single o) = true → ValidPlans (catalog w.store) →
      coordinatorSemantics o w r w' →
        Leaves (.single o) w w' ∧ w'.store.nodes = w.store.nodes ∧ Q r w') :
    Safe a ns P (step o) Q := by
  intro w hw hwP
  change (atomically o >>= fun r => pure (Except.ok r)).Guarantees _ _ _ _ w
  rw [hsingle]
  rintro t ht r u ⟨⟨hgood, hplans⟩, hstep⟩
  obtain ⟨hleaves, hnodes, hr⟩ := h t r u (hP w t hwP ht) hgood hplans hstep
  have hu : Healthy ns u := (Healthy.stable w t hw ht).of_nodes_eq hnodes
  exact ⟨hleaves, fun v hv => ⟨Healthy.stable u v hu hv, hQ r u v hr hv⟩⟩

lemma safe_fallible {ε : Type} {x : CoordinatorM (Except ε α)} {error : ε → CoordinatorError}
    (hQ : ∀ b, Stable Calm (Q b)) (h : Safe a ns P x (OnSuccess Q)) :
    Safe a ns P (fallible x error) Q := by
  refine h.bind Calm.refl Healthy.stable ?_
  rintro (e | b)
  · exact upholds_throw Healthy.stable
  · exact upholds_pure (Q := Q) Healthy.stable (hQ b)

lemma safe_elsewhere (hsingle : atomically o = Prog.perform (I := atomicSteps) (.single o))
    (ho : touchesStore o = false) (hnone : removals (.single o) = []) (hP : Stable Calm P) :
    Safe a ns P (step o) fun _ => P := by
  refine safe_step hsingle hP (fun _ => hP) ?_
  rintro w r w' hw - - ⟨env, hstep⟩
  have hstore := perform_elsewhere ho hstep
  exact ⟨leaves_of_nil hnone, congrArg MemoryState.nodes hstore, hP w w' hw (.of_store_eq hstore)⟩

lemma safe_read {Q : call.Result → World → Prop}
    (hsingle : atomically (.repo call) = Prog.perform (I := atomicSteps) (.single (.repo call)))
    (hread : writesOf call = []) (hP : Stable Calm P) (hQ : ∀ b, Stable Calm (Q b))
    (h : ∀ w b, P w → targetsGood w.store a (.single (.repo call)) = true →
      ValidPlans (catalog w.store) → Yields call.run w.store b w.store → Q b w) :
    Safe a ns P (repo call) Q := by
  refine safe_fallible hQ (safe_step hsingle hP (Stable.onSuccess hQ) ?_)
  rintro w r w' hw hgood hplans ⟨env, hstep⟩
  have hnone : removals (.single (.repo call)) = [] := by simp [removals, hread, removed]
  rcases perform_repo hstep with ⟨e, rfl, rfl⟩ | ⟨b, s, rfl, hrun, rfl⟩
  · exact ⟨leaves_of_nil hnone, rfl, trivial⟩
  · obtain rfl := yields_read hread hrun
    exact ⟨leaves_of_nil hnone, rfl, h w b hw hgood hplans hrun⟩

lemma safe_updatePlan {patch : ReplicaPlanPatch} :
    Safe a ns (fun _ => True) (repo (.write (.updateReplicaPlan patch))) fun _ _ => True := by
  refine safe_fallible (fun _ _ _ _ _ => trivial) (safe_step rfl (fun _ _ _ _ => trivial)
    (Stable.onSuccess fun _ _ _ _ _ => trivial) ?_)
  rintro w r w' - - - ⟨env, hstep⟩
  rcases perform_repo hstep with ⟨e, rfl, rfl⟩ | ⟨b, s, rfl, hrun, rfl⟩
  · exact ⟨leaves_of_nil rfl, rfl, trivial⟩
  · exact ⟨leaves_of_nil rfl, write_node (v := .updateReplicaPlan patch) hrun, trivial⟩

lemma safe_inTx {writes : List Write} (hP : Stable Calm P)
    (hleaves : ∀ w w' tx, P w → Leaves (.endTx tx (.repo writes)) w w') :
    Safe a ns P (repo (.inTx writes)) fun _ _ => True := by
  refine safe_fallible (fun _ _ _ _ _ => trivial) ?_
  intro w hw hwP t ht tx _ hbegin
  obtain ⟨-, env, ⟨⟩⟩ := hbegin
  refine ⟨leaves_of_nil rfl, fun u hu r v hend => ⟨hleaves u v _ (hP t u (hP w t hwP ht) hu), ?_⟩⟩
  have ht := Healthy.stable w t hw ht
  have hv : Healthy ns v := by
    rcases perform_endTx hend.2 with hsame | hyields
    · exact (Healthy.stable t u ht hu).of_nodes_eq (by rw [hsame])
    · refine ht.of_nodes_eq (hyields.forM_preserves (I := fun s => s.nodes = t.store.nodes) ?_ rfl)
      exact fun v _ s _ s' hs hrun => (write_node hrun).trans hs
  exact fun v' hv' => ⟨Healthy.stable v v' hv hv',
    onSuccess_of fun _ _ => onSuccess_of fun _ _ => trivial⟩

end Rules

/-! ### The runs of cleanup -/

section Cleanup

lemma leaves_source {o : AtomicOp} (hends : plan.sourceNodeID ≠ plan.targetNodeID)
    (ho : removals o = [(plan.chunkID, plan.sourceNodeID)]) (hw : TargetGood plan w) :
    Leaves o w w' := by
  intro replica hreplica
  rw [ho, mem_singleton] at hreplica
  subst hreplica
  exact ⟨plan.targetNodeID, hends.symm, hw⟩

variable (hends : plan.sourceNodeID ≠ plan.targetNodeID)
include hends

lemma safe_finish : Safe a ns (TargetGood plan)
    (repo (.inTx (CleanupController.finishWrites plan now))) fun _ _ => True :=
  safe_inTx TargetGood.stable fun _ _ _ hw => leaves_source hends rfl hw

lemma safe_deleteSourceReplica : Safe a ns (TargetGood plan)
    (CleanupController.deleteSourceReplica plan now) fun _ _ => True := by
  refine Upholds.bind Calm.refl Healthy.stable (Q := fun (node : NodeInfo) w =>
    node.id = plan.sourceNodeID ∧ TargetGood plan w) (safe_read rfl rfl TargetGood.stable ?_ ?_)
    fun node => upholds_of_pure fun hid => ?_
  · exact fun node w w' hw h => ⟨hw.1, TargetGood.stable w w' hw.2 h⟩
  · exact fun w node hw _ _ hread => ⟨node_id (yields_getNode.mp hread).1, hw⟩
  have hdelete : Safe a ns (TargetGood plan) (step (.deleteReplica node plan.chunkID))
      (OnSuccess fun _ => TargetGood plan) := by
    refine safe_step rfl TargetGood.stable (Stable.onSuccess fun _ => TargetGood.stable) ?_
    rintro w r w' hw - - ⟨env, hstep⟩
    have hstore := perform_elsewhere rfl hstep
    refine ⟨leaves_source hends (by rw [← hid]; rfl) hw, congrArg MemoryState.nodes hstore, ?_⟩
    exact onSuccess_of fun _ _ => TargetGood.stable w w' hw (.of_store_eq hstore)
  refine (safe_fallible (fun _ => TargetGood.stable) hdelete).bind Calm.refl Healthy.stable
    fun status => upholds_ite (fun _ => ?_) fun _ => ?_
  · exact upholds_throw Healthy.stable
  · exact safe_finish hends

lemma safe_deleteOrRetry :
    Safe a ns (TargetGood plan) (c.deleteOrRetry plan now) fun _ _ => True := by
  refine ((safe_deleteSourceReplica hends).attempt Calm.refl Healthy.stable
    fun _ _ _ _ _ => trivial).bind Calm.refl Healthy.stable ?_
  rintro (err | _)
  · exact safe_updatePlan.pre fun _ _ _ => trivial
  · exact (upholds_pure (Q := fun _ _ => True) Healthy.stable fun _ _ _ _ => trivial).pre
      fun _ _ _ => trivial

lemma safe_finalizeCompletedPlan (hchunk : plan.chunkID ≠ "") (htask : c.taskProducer = false)
    (hns : plan.targetNodeID ∈ ns) :
    Safe a ns (fun _ => True) (c.finalizeCompletedPlan plan now) fun _ _ => True := by
  have hdone : Safe a ns (fun _ => True) (pure ()) fun _ _ => True :=
    upholds_pure (Q := fun _ _ => True) Healthy.stable fun _ _ _ _ => trivial
  refine Upholds.bind Calm.refl Healthy.stable (Q := fun (chunk : ChunkMetadata) w =>
    (replicaOn chunk.replicas plan.targetNodeID).any (·.state = .ready) = true →
      TargetGood plan w) ?_ fun chunk => ?_
  · refine (safe_read (P := Healthy ns) rfl rfl Healthy.stable ?_ ?_).pre fun _ hw _ => hw
    · exact fun chunk w w' hw h hready => TargetGood.stable w w' (hw hready) h
    · intro w chunk hw _ _ hread hready
      have hstored := (yields_getChunk_selector.mp hread).1
      rw [findChunk_id hchunk] at hstored
      refine Bool.and_eq_true_iff.mpr ⟨?_, hw _ hns⟩
      exact (Option.any_eq_true ..).mpr ⟨chunk, hstored, hready⟩
  -- the replica on the target was ready when the run looked
  · by_cases hready : (replicaOn chunk.replicas plan.targetNodeID).any (·.state = .ready) = true
    · simp only [hready, Bool.not_true, Bool.false_eq_true, if_false, htask]
      refine Upholds.pre (P := TargetGood plan) ?_ fun w _ hw => hw trivial
      split
      · exact safe_finish hends
      · exact safe_deleteOrRetry hends
      · exact hdone.pre fun _ _ _ => trivial
    · simp only [hready, Bool.not_false, if_true]
      exact hdone.pre fun _ _ _ => trivial

end Cleanup

lemma safe_cleanupOnce (htask : c.taskProducer = false) :
    Safe (.controller (.cleanup c)) [] (fun _ => True) c.cleanupOnce fun _ _ => True := by
  refine Upholds.bind Calm.refl Healthy.stable (safe_elsewhere rfl rfl rfl fun _ _ _ _ => trivial)
    fun now => ?_
  refine Upholds.bind Calm.refl Healthy.stable (Q := fun (plans : List ReplicaPlan) w =>
    (∀ p ∈ plans, p.chunkID ≠ "" ∧ p.sourceNodeID ≠ p.targetNodeID) ∧
      Healthy (plans.map (·.targetNodeID)) w) ?_ fun plans => ?_
  · refine safe_read rfl rfl (fun _ _ _ _ => trivial) ?_ ?_
    · exact fun plans w w' hw h => ⟨hw.1, Healthy.stable w w' hw.2 h⟩
    · intro w plans _ hgood hvalid hread
      have hlisted := (listReplicaPlans_spec hread).2
      refine ⟨fun p hp => hvalid p.id p (hlisted p hp).1, ?_⟩
      intro n hn
      obtain ⟨p, hp, rfl⟩ := mem_map.mp hn
      simp only [targetsGood, htask, Bool.false_or, all_eq_true] at hgood
      simpa [(hlisted p hp).2] using hgood p (Records.mem_values.mpr (hlisted p hp).1)
  · rintro w - ⟨hvalid, hhealthy⟩
    refine (upholds_forM Calm.refl Healthy.stable (fun p hp => ?_) w hhealthy trivial).mono ?_
    · exact safe_finalizeCompletedPlan (hvalid p hp).2 (hvalid p hp).1 htask (mem_map_of_mem hp)
    · exact fun r t ht => ⟨fun n hn => absurd hn not_mem_nil, ht.2⟩

lemma safe_deliver :
    Safe (.delivery r c (.cleanup task)) [] (fun _ => True) (deliver r c (.cleanup task))
      fun _ _ => True := by
  have hnone : ∀ w w' : World, True → Calm w w' → True := fun _ _ _ _ => trivial
  refine Upholds.bind Calm.refl Healthy.stable
    (safe_elsewhere rfl rfl rfl hnone) fun _ => ?_
  refine Upholds.bind Calm.refl Healthy.stable (Q := fun _ _ => True) ?_
    fun _ => safe_elsewhere rfl rfl rfl hnone
  have hread : ∀ p : ReplicaPlan,
      Stable Calm fun w => p.sourceNodeID ≠ p.targetNodeID ∧ TargetGood p w :=
    fun p w w' hw h => ⟨hw.1, TargetGood.stable w w' hw.2 h⟩
  refine Upholds.bind Calm.refl Healthy.stable (Q := fun (p : ReplicaPlan) w =>
    p.sourceNodeID ≠ p.targetNodeID ∧ TargetGood p w) (safe_read rfl rfl hnone hread ?_)
    fun plan => ?_
  · intro w plan _ hgood hvalid hyields
    have hplan := (yields_getReplicaPlan.mp hyields).1
    refine ⟨(hvalid _ plan hplan).2, ?_⟩
    have hlookup : w.store.replicaPlans.lookup task.planID = some plan := hplan
    simp only [targetsGood, hlookup] at hgood
    exact hgood
  refine Upholds.bind Calm.refl Healthy.stable (safe_elsewhere rfl rfl rfl (hread plan))
    fun now => upholds_of_pure fun hends => ?_
  split
  · exact safe_finish hends
  · exact safe_deleteOrRetry hends
  · exact upholds_throw Healthy.stable

lemma sparing_cleanupOnce (htask : c.taskProducer = true) : AsksOnly Sparing c.cleanupOnce := by
  have hread {call : RepositoryCall} (h : writesOf call = []) : AsksOnly Sparing (repo call) :=
    (copying_read h).mono fun _ => And.right
  have hwrite {patch : ReplicaPlanPatch} :
      AsksOnly Sparing (repo (.write (.updateReplicaPlan patch))) := by
    apply asks_repo
    rintro v (_ | ⟨_, ⟨⟩⟩)
    exact nofun
  refine asks_step_bind trivial fun now => (hread rfl).bind fun plans => asksOnly_forM fun plan _ => ?_
  refine (hread rfl).bind fun chunk => AsksOnly.ite asksOnly_pure ?_
  simp only [htask, if_true]
  refine AsksOnly.ite asksOnly_pure ?_
  refine (asks_fallible (asks_step trivial)).attempt.bind fun published => ?_
  cases published with
  | ok _ | error _ => exact hwrite

lemma sparing_of_not_cleans (h : cleans a = false) : AsksOnly Sparing a.program := by
  cases a with
  | controller run =>
    cases run with
    | failover f => exact (planning_failover f).mono fun _ => Planning.sparing
    | rebalance r => exact (planning_rebalance r).mono fun _ => Planning.sparing
    | repair r => exact (repairing_repair r).mono fun _ => Repairing.sparing
    | cleanup c => exact sparing_cleanupOnce (by simpa [cleans] using h)
  | delivery r c task =>
    refine asks_step_bind trivial fun _ => AsksOnly.bind ?_ fun _ => asks_step trivial
    cases task with
    | replicaRepair task =>
      exact (repairing_executeReplicaRepair r task).mono fun _ => Repairing.sparing
    | cleanup task => cases h
    | rebalance task | failover task =>
      exact (copying_executeReplicaPlanCopy r task.planID).mono fun _ => And.right
  | heartbeat now req => exact asks_step trivial

lemma removals_of_sparing {o : AtomicOp} (h : Carries Sparing o) : removals o = [] := by
  have hremoved {writes : List Write} (h : ∀ v ∈ writes, ∀ selector nodeID now,
      v ≠ .removeChunkReplica selector nodeID now) : removed writes = [] := by
    refine filterMap_eq_nil_iff.mpr fun v hv => ?_
    cases v with
    | removeChunkReplica selector nodeID now => exact absurd rfl (h _ hv selector nodeID now)
    | _ => rfl
  cases o with
  | beginTx => rfl
  | endTx tx callback =>
    cases callback with
    | repo writes => exact hremoved h
    | service now call => rfl
  | single o =>
    cases o with
    | repo call => exact hremoved h
    | deleteReplica node chunkID => exact h.elim
    | _ => rfl

section Runs

variable {ι : Type} [DecidableEq ι]

/-- Another run that removes replicas has begun before the step and is not at its end. -/
def underWay (activities : ι → Activity) (e : ControllerPool ι × (ι × AtomicOp))
    (before : List (ControllerPool ι × (ι × AtomicOp))) : Bool :=
  before.any fun e' => e'.2.1 ≠ e.2.1 && cleans (activities e'.2.1) && !(e.1.1 e'.2.1).ended

/-- In every interleaving of controllers, deliveries and heartbeats in which cleanup finds good
targets and no other activity takes good replicas away while it is under way, each removal leaves
another good replica. -/
theorem cleanup_leaves_good_replica {activities : ι → Activity} {w : World}
    {tr : List (ControllerPool ι × (ι × AtomicOp))} {c : ControllerPool ι}
    (h : ControllerRun activities w tr c)
    (hplans : ∀ k p, (catalog w.store).plan k = some p →
      p.chunkID ≠ "" ∧ p.sourceNodeID ≠ p.targetNodeID)
    (htargets : ∀ e ∈ tr, targetsGood e.1.2.store (activities e.2.1) e.2.2 = true)
    (hcalm : ∀ e before, e :: before <:+ tr → underWay activities e before = true →
      calm e.1.2.store (stateAfter e.2.2 e.1.2.store) = true) :
    ∀ e ∈ tr, ∀ replica ∈ removals e.2.2,
      ∃ nodeID, nodeID ≠ replica.2 ∧ goodReplica e.1.2.store replica.1 nodeID = true := by
  have hvalid : ∀ e ∈ tr, ValidPlans (catalog e.1.2.store) :=
    (run_keeps h (fun i => (asked_program (activities i)).asks.mono fun _ => validPlans_of_asked)
      hplans).2
  have hrun := h.restrict (C := fun i o w => targetsGood w.store (activities i) o = true ∧
    ValidPlans (catalog w.store)) fun e he => ⟨htargets e he, hvalid e he⟩
  have hsteps := hrun.steps (J := fun _ => True) (G := fun _ => Leaves)
    (R := fun i w w' => cleans (activities i) = true → Calm w w') (fun _ w _ => .refl w)
    (fun _ _ _ _ h h' hi => ⟨fun n hn => (h' hi).healthy n ((h hi).healthy n hn),
      fun k n hn => (h' hi).good k n ((h hi).good k n hn)⟩)
    trivial (fun _ _ _ _ _ _ => trivial) ?_ ?_
  · intro e he
    obtain ⟨-, t, -, hleaves⟩ := hsteps.2 e he
    exact hleaves
  · rintro ⟨⟨pool, s⟩, i, o⟩ before t hsuffix hstep - j hj ⟨e', he', rfl⟩ hended hcleans
    have hcalm := hcalm _ before hsuffix (any_eq_true.mpr ⟨e', he', by simp_all⟩)
    obtain ⟨hi, -, ho⟩ := hstep
    rw [← store_eq_stateAfter ho] at hcalm
    exact calm_of hcalm
  · intro i w _
    cases hcleans : cleans (activities i) with
    | false =>
      refine ((sparing_of_not_cleans hcleans).asks.expand fun _ => asks_atomically).guarantees ?_
      exact fun o _ _ ho => leaves_of_nil (removals_of_sparing ho)
    | true =>
      simp only [forall_const]
      cases ha : activities i with
      | controller run =>
        cases run with
        | cleanup c =>
          have htask : c.taskProducer = false := by simpa [cleans, ha] using hcleans
          exact (safe_cleanupOnce htask w (fun n hn => absurd hn not_mem_nil) trivial).mono
            fun _ _ _ => trivial
        | _ => simp [cleans, ha] at hcleans
      | delivery r c task =>
        cases task with
        | cleanup task =>
          exact (safe_deliver w (fun n hn => absurd hn not_mem_nil) trivial).mono
            fun _ _ _ => trivial
        | _ => simp [cleans, ha] at hcleans
      | heartbeat now req => simp [cleans, ha] at hcleans

end Runs

def crowdedNode : MemoryState :=
  holding [heldChunk 1 [readyReplica "n1" .primary]]
    [workingNode "n3" "a3", { workingNode "n1" "a1" with used := 90 }]

def rebalancer : RebalancePlanner where
  reachesHighWatermark
    | .one => true
    | .quotient used capacity => 100 * used ≥ 85 * capacity
  withinLowWatermark
    | .one => false
    | .quotient used capacity => 100 * used ≤ 60 * capacity
  maxPlansPerRun := 32
  maxPlansPerRun_pos := repairer.maxReplicasPerRun_pos

/-- The rebalance planner, the repairer and the cleanup controller without a task producer, and
heartbeats that report the empty node as unhealthy and the crowded one as healthy. -/
def crowdedNodeActivities : Fin 5 → Activity
  | 0 => .controller (.rebalance rebalancer)
  | 1 => .controller (.repair { repairer with taskProducer := false })
  | 2 => .heartbeat 0 { nodeID := "n3", healthy := false, capacity := 100, used := 0 }
  | 3 => .controller (.cleanup { cleaner with taskProducer := false })
  | 4 => .heartbeat 0 { nodeID := "n1", healthy := true, capacity := 100, used := 90 }

lemma not_good_of_all
    (h : (s.nodes.values.all fun node => node.id = n || !goodReplica s k node.id) = true) :
    ¬∃ m, m ≠ n ∧ goodReplica s k m = true := by
  rintro ⟨m, hm, hgood⟩
  obtain ⟨-, hnode⟩ := Bool.and_eq_true_iff.mp hgood
  obtain ⟨node, hnode, -⟩ := (Option.any_eq_true ..).mp hnode
  obtain ⟨hmem, hid⟩ := Records.lookup_eq_some.mp hnode
  have hcheck := all_eq_true.mp h node hmem
  rw [hid] at hcheck
  simp [hm, hgood] at hcheck

/-- The empty node stays healthy, and the other one reports while cleanup is under way. -/
theorem goodReplica_afterRebalance :
    ∃ tr c, ControllerRun crowdedNodeActivities { store := crowdedNode } tr c ∧
      (∃ e before, e :: before <:+ tr ∧ underWay crowdedNodeActivities e before = true) ∧
      (∃ e ∈ tr, ("k", "n1") ∈ removals e.2.2) ∧
      ∀ e ∈ tr, ∀ replica ∈ removals e.2.2,
        ∃ nodeID, nodeID ≠ replica.2 ∧ goodReplica e.1.2.store replica.1 nodeID = true := by
  have hrun : runPasses (fun i => (crowdedNodeActivities i).program.run)
      { store := crowdedNode }
      (obligingTurns [(3, 4), (4, 2), (3, 3), (1, 9), (0, 7)]) (fun p =>
        (p.1.tails.any fun
          | [] => false
          | e :: before => underWay crowdedNodeActivities e before) &&
        (p.1.any fun e => (removals e.2.2).contains ("k", "n1")) &&
        (p.1.all fun e => targetsGood e.1.2.store (crowdedNodeActivities e.2.1) e.2.2) &&
        p.1.tails.all fun
          | [] => true
          | e :: before => !underWay crowdedNodeActivities e before ||
              calm e.1.2.store (stateAfter e.2.2 e.1.2.store)) = true := by
    decide +kernel
  obtain ⟨tr, c, h, hcheck⟩ := exists_of_runPasses hrun
  simp only [Bool.and_eq_true] at hcheck
  obtain ⟨⟨⟨hunderWay, hremoved⟩, htargets⟩, hcalm⟩ := hcheck
  obtain ⟨_ | ⟨e, before⟩, hsuffix, hbefore⟩ := any_eq_true.mp hunderWay
  · cases hbefore
  obtain ⟨e', he', hremoved⟩ := any_eq_true.mp hremoved
  refine ⟨tr, c, h, ⟨e, before, (mem_tails ..).mp hsuffix, hbefore⟩,
    ⟨e', he', contains_iff_mem.mp hremoved⟩, ?_⟩
  refine cleanup_leaves_good_replica h ?_ (all_eq_true.mp htargets) ?_
  · intro k p hp
    cases hp
  · intro e before hsuffix hbefore
    simpa [hbefore] using all_eq_true.mp hcalm (e :: before) ((mem_tails ..).mpr hsuffix)

/-- The empty node has its copy and then fails: cleanup deletes the only replica on a healthy
node all the same. -/
theorem lastReplica_deleted :
    ∃ tr c, ControllerRun crowdedNodeActivities { store := crowdedNode } tr c ∧
      ∃ e ∈ tr, ("k", "n1") ∈ removals e.2.2 ∧
        ¬∃ nodeID, nodeID ≠ "n1" ∧ goodReplica e.1.2.store "k" nodeID = true := by
  have hrun : runPasses (fun i => (crowdedNodeActivities i).program.run)
      { store := crowdedNode }
      (obligingTurns [(3, 7), (2, 2), (1, 9), (0, 7)]) (fun p =>
        p.1.any fun e => (removals e.2.2).contains ("k", "n1") &&
          e.1.2.store.nodes.values.all fun node =>
            node.id = "n1" || !goodReplica e.1.2.store "k" node.id) = true := by
    decide +kernel
  obtain ⟨tr, c, h, hcheck⟩ := exists_of_runPasses hrun
  obtain ⟨e, he, hbad⟩ := any_eq_true.mp hcheck
  rw [Bool.and_eq_true] at hbad
  exact ⟨tr, c, h, e, he, contains_iff_mem.mp hbad.1, not_good_of_all hbad.2⟩

end AstraStorage.Proofs
