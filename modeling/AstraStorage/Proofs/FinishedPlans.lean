import AstraStorage.Proofs.AtomicSteps

/-!
# Finished plans

A plan that is done or failed keeps its state as long as no controller writes late, after a slow
copy, publication or deletion, and no transaction that began before brings the plan back.
-/

namespace AstraStorage.Proofs
open Lib Store Coordinator List

variable {w : World} {c c' : Catalog} {state : ReplicaPlanState}

def late (s : MemoryState) : Write → Bool
  | .updateReplicaPlan patch => (s.replicaPlans.lookup patch.id).any fun p =>
      (p.state = .done && patch.state = some .cleanupReady) ||
        (p.state = .failed && patch.state.isSome)
  | .deleteReplicaPlan k => (s.replicaPlans.lookup k).any fun p =>
      isTerminalReplicaPlanState p.state
  | _ => false

def finishedSince (copy s : MemoryState) : Bool :=
  s.replicaPlans.values.any fun p => isTerminalReplicaPlanState p.state &&
    !(copy.replicaPlans.lookup p.id).any (·.state = p.state)

/-- The step makes a late write, or ends a transaction that made one on its copy or that began
before a plan was finished. -/
def lateStep (s : MemoryState) : AtomicOp → Bool
  | .single (.repo call) => (writesOf call).any (late s)
  | .endTx tx (.repo writes) => writes.any (late tx.state) || finishedSince tx.state s
  | .endTx tx (.service ..) => finishedSince tx.state s
  | _ => false

def KeepsFinished (c c' : Catalog) : Prop :=
  ∀ k p, c.plan k = some p → isTerminalReplicaPlanState p.state = true →
    ∃ p', c'.plan k = some p' ∧ p'.state = p.state

lemma KeepsFinished.trans (h : KeepsFinished c c') (h' : KeepsFinished c' c'') :
    KeepsFinished c c'' := by
  intro k p hp hfin
  obtain ⟨p', hp', hstate⟩ := h k p hp hfin
  obtain ⟨p'', hp'', hstate'⟩ := h' k p' hp' (hstate ▸ hfin)
  exact ⟨p'', hp'', hstate'.trans hstate⟩

lemma keepsFinished_of_plan_eq (h : c'.plan = c.plan) : KeepsFinished c c' :=
  fun _ p hp _ => ⟨p, h ▸ hp, rfl⟩

lemma terminal_iff : isTerminalReplicaPlanState state = true ↔ state = .done ∨ state = .failed := by
  simp [isTerminalReplicaPlanState]

section Writes

variable {s : MemoryState}

lemma apply_state_of_not_late (hp : (catalog s).plan patch.id = some p)
    (hfin : isTerminalReplicaPlanState p.state = true) (hq : q.state = p.state)
    (hwrite : PlanWrite (.updateReplicaPlan patch))
    (hlate : late s (.updateReplicaPlan patch) = false) : (patch.apply q).state = p.state := by
  have hlookup : s.replicaPlans.lookup patch.id = some p := hp
  simp only [late, hlookup, Option.any_some, Bool.or_eq_false_iff, Bool.and_eq_false_iff,
    decide_eq_false_iff_not] at hlate
  have hnone : patch.state = none → (patch.apply q).state = p.state := by
    intro h
    simp [ReplicaPlanPatch.apply, h, hq]
  rcases terminal_iff.mp hfin with hdone | hfailed
  · rcases hwrite with h | h | h
    · exact hnone h
    · exact absurd h (hlate.1.resolve_left (not_not_intro hdone))
    · simp [ReplicaPlanPatch.apply, h, hdone]
  · apply hnone
    simpa using hlate.2.resolve_left (not_not_intro hfailed)

lemma write_keepsFinished {w : Write} (hkept : KeepsFinished (catalog s) (catalog r))
    (hwrite : PlanWrite w) (hlate : late s w = false) (h : Yields w.run r () t) :
    KeepsFinished (catalog s) (catalog t) := by
  cases w with
  | createReplicaPlan plan =>
    obtain ⟨hacc, rfl⟩ := yields_createReplicaPlan.mp h
    intro k p hp hfin
    obtain ⟨p', hp', hstate⟩ := hkept k p hp hfin
    refine ⟨p', ?_, hstate⟩
    rw [catalog_putReplicaPlan]
    exact update_of_new hacc.fresh hp'
  | updateReplicaPlan patch =>
    obtain ⟨q, hq, rfl⟩ := yields_updateReplicaPlan.mp h
    intro k p hp hfin
    obtain ⟨p', hp', hstate⟩ := hkept k p hp hfin
    rw [catalog_putReplicaPlan]
    have hid : (patch.apply q).id = patch.id := by
      change q.id = patch.id
      exact plan_id hq
    by_cases hk : k = patch.id
    · subst hk
      rw [hq, Option.some.injEq] at hp'
      subst hp'
      refine ⟨patch.apply q, ?_, apply_state_of_not_late hp hfin hstate hwrite hlate⟩
      rw [hid]
      exact Function.update_self ..
    · refine ⟨p', ?_, hstate⟩
      rw [hid]
      exact (Function.update_of_ne hk ..).trans hp'
  | deleteReplicaPlan j =>
    obtain ⟨-, rfl⟩ := yields_deleteReplicaPlan.mp h
    intro k p hp hfin
    obtain ⟨p', hp', hstate⟩ := hkept k p hp hfin
    refine ⟨p', ?_, hstate⟩
    rw [catalog_eraseReplicaPlan, update_none_eq_some]
    refine ⟨?_, hp'⟩
    rintro rfl
    have hlookup : s.replicaPlans.lookup k = some p := hp
    simp [late, hlookup, hfin] at hlate
  | updateChunkReplicas patch =>
    obtain ⟨z, -, rfl⟩ := yields_updateChunkReplicas.mp h
    exact hkept.trans (keepsFinished_of_plan_eq rfl)
  | removeChunkReplica selector nodeID now =>
    obtain ⟨z, replicas, -, -, -, rfl⟩ := yields_removeChunkReplica.mp h
    exact hkept.trans (keepsFinished_of_plan_eq rfl)

lemma writes_keepFinished {writes : List Write} (hwrite : ∀ w ∈ writes, PlanWrite w)
    (hlate : writes.any (late s) = false) (h : Yields (forM writes Write.run) s () t) :
    KeepsFinished (catalog s) (catalog t) := by
  refine h.forM_preserves (I := fun r => KeepsFinished (catalog s) (catalog r)) ?_
    (keepsFinished_of_plan_eq rfl)
  intro w hw r _ r' hr hrun
  exact write_keepsFinished hr (hwrite w hw) (by simpa using any_eq_false.mp hlate w hw) hrun

lemma keepsFinished_of_not_finishedSince (h : finishedSince t s = false) :
    KeepsFinished (catalog s) (catalog t) := by
  intro k p hp hfin
  have hmem : p ∈ s.replicaPlans.values := Records.mem_values.mpr (plan_id hp ▸ hp)
  have hcopy := any_eq_false.mp h p hmem
  rw [hfin, Bool.true_and, Bool.not_eq_true, Bool.not_eq_false', plan_id hp] at hcopy
  obtain ⟨p', hp', hstate⟩ := (Option.any_eq_true ..).mp hcopy
  exact ⟨p', hp', of_decide_eq_true hstate⟩

end Writes

lemma heartbeat_plan :
    (catalog (Service.Call.exec now (.heartbeatNode req) s)).plan = (catalog s).plan := by
  rcases exec_cases now (.heartbeatNode req) s with hsame | hrun
  · rw [hsame]
  · exact (heartbeatNode_changes hrun).plan

lemma endTx_keepsFinished (hasked : Carries Asked (.endTx tx callback))
    (hlate : lateStep w.store (.endTx tx callback) = false)
    (h : Yields callback.run tx.state () s) : KeepsFinished (catalog w.store) (catalog s) := by
  cases callback with
  | repo writes =>
    obtain ⟨hwrites, hsince⟩ := Bool.or_eq_false_iff.mp hlate
    exact (keepsFinished_of_not_finishedSince hsince).trans (writes_keepFinished hasked hwrites h)
  | service now call =>
    obtain ⟨req, rfl⟩ := hasked
    exact (keepsFinished_of_not_finishedSince hlate).trans
      (keepsFinished_of_plan_eq (heartbeatNode_changes h).plan)

lemma step_keepsFinished (hasked : Carries Asked o) (hlate : lateStep w.store o = false)
    (h : atomicSemantics o w r w') : KeepsFinished (catalog w.store) (catalog w'.store) := by
  cases o with
  | beginTx =>
    obtain ⟨env, ⟨⟩⟩ := h
    exact keepsFinished_of_plan_eq rfl
  | endTx tx callback =>
    rcases perform_endTx h with hsame | hyields
    · exact keepsFinished_of_plan_eq (by rw [hsame])
    · exact endTx_keepsFinished hasked hlate hyields
  | single o =>
    obtain ⟨env, h⟩ : coordinatorSemantics o w r w' := h
    by_cases ho : touchesStore o = false
    · rw [perform_elsewhere ho h]
      exact keepsFinished_of_plan_eq rfl
    · cases o with
      | repo call =>
        rcases perform_repo h with ⟨e, -, rfl⟩ | ⟨a, s, -, hrun, rfl⟩
        · exact keepsFinished_of_plan_eq rfl
        · exact writes_keepFinished hasked hlate (yields_writes hrun)
      | service now call =>
        obtain ⟨req, rfl⟩ := hasked
        rw [perform_service h]
        exact keepsFinished_of_plan_eq heartbeat_plan
      | _ => exact absurd rfl ho

/-- In every interleaving of controllers, deliveries and heartbeats in which no step comes late,
a plan that is done or failed stays as it is. -/
theorem finished_stays_finished {ι : Type} [DecidableEq ι] {activities : ι → Activity} {w : World}
    {tr : List (ControllerPool ι × (ι × AtomicOp))} {c : ControllerPool ι}
    (h : ControllerRun activities w tr c) (hlate : ∀ e ∈ tr, lateStep e.1.2.store e.2.2 = false) :
    ∀ e ∈ tr, ∀ k p, (catalog e.1.2.store).plan k = some p → p.state = .done ∨ p.state = .failed →
      ∃ p', (catalog c.2.store).plan k = some p' ∧ p'.state = p.state := by
  have hasked := carries_of_run h fun i => (asked_program (activities i)).asks
  suffices hkept : ∀ e ∈ tr, KeepsFinished (catalog e.1.2.store) (catalog c.2.store) from
    fun e he k p hp hfin => hkept e he k p hp (terminal_iff.mpr hfin)
  induction h with
  | start _ => exact fun e he => absurd he not_mem_nil
  | next _ hstep ih =>
    have hbefore := ih (fun e he => hlate e (mem_cons_of_mem _ he))
      (fun e he => hasked e (mem_cons_of_mem _ he))
    have hlast := hlate _ mem_cons_self
    have hask := hasked _ mem_cons_self
    obtain ⟨hi, ho⟩ := hstep
    have hstep := step_keepsFinished hask hlast ho
    intro e he
    rcases mem_cons.mp he with rfl | he
    · exact hstep
    · exact (hbefore e he).trans hstep

def obliging : Environment where
  now := 62135596800000000007
  replicateChunk _ req := .ok (req.targets.map fun target =>
    { nodeID := target.nodeID, state := .ready })
  deleteReplica _ _ := .ok 204
  publish _ := .ok ()
  queued _ := false
  acknowledged _ := true

def readyReplica (nodeID : NodeID) (role : ReplicaRole) : ReplicaMetadata :=
  { id := "k-" ++ nodeID, fileID := "f", chunkID := "k", nodeID := nodeID, role := role
    state := .ready, storedSize := 10 }

def replicaTable (replicas : List ReplicaMetadata) : ReplicaSet :=
  some (replicas.foldl (fun table replica => table.insert replica.nodeID replica) ∅)

def heldChunk (desired : Int) (replicas : List ReplicaMetadata) : ChunkMetadata :=
  { id := "k", fileID := "f", size := 10, replicaPolicy := { desiredReplicaCount := desired }
    replicaCount := replicas.length, replicas := replicaTable replicas }

def holding (chunks : List ChunkMetadata) (nodes : List NodeInfo) : MemoryState where
  files := (∅ : Records FileMetadata.id).put { id := "f", path := "/f" }
  chunks := chunks.foldl (fun table chunk => table.put chunk) ∅
  nodes := nodes.foldl (fun table node => table.put node) ∅

def workingNode (id : NodeID) (address : String) : NodeInfo :=
  { id := id, address := address, capacity := 100, healthy := true }

def lostChunk : ChunkMetadata :=
  heldChunk 2 [readyReplica "n2" .secondary, readyReplica "n1" .primary]

def lostReplica : MemoryState :=
  holding [lostChunk] [workingNode "n3" "a3", workingNode "n2" "a2",
    { workingNode "n1" "a1" with healthy := false }]

def planner : FailoverPlanner :=
  { newFailoverPlanner 0 0 with taskProducer := true }

def repairer : PendingReplicaRepairer where
  retryBackoff := 1
  maxReplicasPerRun := 32
  taskProducer := true
  retryBackoff_pos := by decide
  maxReplicasPerRun_pos := by decide

def cleaner : CleanupController where
  retryBackoff := 1
  maxPlansPerRun := 32
  taskProducer := true
  retryBackoff_pos := by decide
  maxPlansPerRun_pos := by decide

def lostReplicaActivities : Fin 4 → Activity
  | 0 => .controller (.failover planner)
  | 1 => .delivery repairer cleaner
      (.failover ⟨"failover-k-n3-7", "n1", "n3", "failover_plan_materialized"⟩)
  | 2 => .controller (.cleanup cleaner)
  | 3 => .delivery repairer cleaner (.cleanup ⟨"failover-k-n3-7", "f", "n1", .failover⟩)

section Schedules

variable {ι α : Type} [DecidableEq ι] {programs : ι → Prog coordinatorSteps α}

def runPasses (programs : ι → Prog coordinatorSteps α) (w : World) (turns : List (ι × Environment))
    (check : List (SystemPool ι α × (ι × AtomicOp)) × SystemPool ι α → Bool) : Bool :=
  (schedule (fun _ (env : Environment) o w => env.performAtomic o w)
    (fun i => (programs i).expand atomically, w) turns).any check

lemma exists_of_runPasses (h : runPasses programs w turns check = true) :
    ∃ tr c, SystemRun programs w tr c ∧ check (tr, c) = true :=
  exists_interleaving (fun _ env _ _ _ _ hstep => ⟨env, hstep⟩) h

def obligingTurns (turns : List (ι × Nat)) : List (ι × Environment) :=
  turns.flatMap fun turn => List.replicate turn.2 (turn.1, obliging)

end Schedules

def planIs (k : ReplicaPlanID) (state : ReplicaPlanState) (w : World) : Bool :=
  (w.store.replicaPlans.lookup k).any (·.state = state)

lemma exists_of_planIs (h : planIs k state w = true) :
    ∃ p, (catalog w.store).plan k = some p ∧ p.state = state := by
  obtain ⟨p, hp, hstate⟩ := (Option.any_eq_true ..).mp h
  exact ⟨p, hp, of_decide_eq_true hstate⟩

/-- The copy moves the plan to `cleanupReady` before the cleanup task is delivered. -/
theorem finished_afterCopy :
    ∃ tr c, ControllerRun lostReplicaActivities { store := lostReplica } tr c ∧
      (∀ e ∈ tr, lateStep e.1.2.store e.2.2 = false) ∧
      (∃ e ∈ tr, planIs "failover-k-n3-7" .done e.1.2 = true) ∧
      ∀ e ∈ tr, ∀ k p, (catalog e.1.2.store).plan k = some p →
        p.state = .done ∨ p.state = .failed →
        ∃ p', (catalog c.2.store).plan k = some p' ∧ p'.state = p.state := by
  have hrun : runPasses (fun i => (lostReplicaActivities i).program.run)
      { store := lostReplica }
      (obligingTurns [(3, 6), (1, 1), (2, 5), (1, 10), (0, 9)]) (fun p =>
        (p.1.all fun e => !lateStep e.1.2.store e.2.2) &&
          p.1.any fun e => planIs "failover-k-n3-7" .done e.1.2) = true := by decide +kernel
  obtain ⟨tr, c, h, hcheck⟩ := exists_of_runPasses hrun
  rw [Bool.and_eq_true] at hcheck
  have hlate : ∀ e ∈ tr, lateStep e.1.2.store e.2.2 = false := by
    simpa using all_eq_true.mp hcheck.1
  exact ⟨tr, c, h, hlate, any_eq_true.mp hcheck.2, finished_stays_finished h hlate⟩

/-- The copy is recorded, cleanup is published and carried out, and only then does the copy's
delivery move the plan, which is done, to `cleanupReady`. -/
theorem revived_byCopy :
    ∃ tr c, ControllerRun lostReplicaActivities { store := lostReplica } tr c ∧
      ∃ e ∈ tr, ∃ p p', (catalog e.1.2.store).plan "failover-k-n3-7" = some p ∧ p.state = .done ∧
        (catalog c.2.store).plan "failover-k-n3-7" = some p' ∧ p'.state = .cleanupReady := by
  have hrun : runPasses (fun i => (lostReplicaActivities i).program.run)
      { store := lostReplica }
      (obligingTurns [(1, 1), (3, 5), (2, 5), (1, 10), (0, 9)]) (fun p =>
        (p.1.any fun e => planIs "failover-k-n3-7" .done e.1.2) &&
          planIs "failover-k-n3-7" .cleanupReady p.2.2) = true := by decide +kernel
  obtain ⟨tr, c, h, hcheck⟩ := exists_of_runPasses hrun
  rw [Bool.and_eq_true] at hcheck
  obtain ⟨e, he, hdone⟩ := any_eq_true.mp hcheck.1
  obtain ⟨p, hp, hstate⟩ := exists_of_planIs hdone
  obtain ⟨p', hp', hstate'⟩ := exists_of_planIs hcheck.2
  exact ⟨tr, c, h, e, he, p, p', hp, hstate, hp', hstate'⟩

end AstraStorage.Proofs
