import AstraStorage.Proofs.ControllerChanges
import AstraStorage.Proofs.LostCopies
import Mathlib.Algebra.Ring.Int.Defs

/-!
# Which nodes the planners target

Both planners leave the choice of the target to the allocator, which knows neither the heartbeats of
a node nor the plans that target it already.
-/

namespace AstraStorage.Proofs
open Lib Store Coordinator Allocator List

variable {f : FailoverPlanner} {chunk : ChunkMetadata} {node : NodeInfo} {s r t : MemoryState}
  {now : Time}

def reservedBytes (s : MemoryState) (nodeID : NodeID) : Int :=
  ((s.replicaPlans.values.filter fun p =>
    p.targetNodeID = nodeID && !isTerminalReplicaPlanState p.state).map
      (·.requiredBytes.toInt)).sum

def createdFor (s t : MemoryState) (nodeID : NodeID) : List ReplicaPlan :=
  t.replicaPlans.values.filter fun p =>
    p.targetNodeID = nodeID && (s.replicaPlans.lookup p.id).isNone

section Capacity

lemma MayHold.le_freeBytes (h : MayHold chunk node) :
    (requiredPlacementBytes chunk).toInt ≤ freeBytes node := by
  have hfits := Int64.le_iff_toInt_le.mp h.fits
  rw [← toInt_availableCapacity h]
  exact hfits

end Capacity

structure PlannedFrom (s : MemoryState) (p : ReplicaPlan) : Prop where
  fresh : (catalog s).plan p.id = none
  unfinished : isTerminalReplicaPlanState p.state = false
  fits : ∃ node, (catalog s).node p.targetNodeID = some node ∧
    p.requiredBytes.toInt ≤ freeBytes node

section Created

lemma PlanMade.values_eq (h : PlanMade s t plan chunk now) :
    t.replicaPlans.values = plan :: s.replicaPlans.values := by
  obtain ⟨haccepted, z, -, rfl⟩ := yields_pendingReplicaWrites.mp h.written
  exact Records.values_put_of_lookup_eq_none haccepted.fresh

lemma PlanRevoked.values_eq (h : PlanRevoked s t plan chunk now) :
    t.replicaPlans.values = s.replicaPlans.values := by
  obtain ⟨r, hmade, hrollback⟩ := h.made
  obtain ⟨-, z, -, rfl⟩ := yields_rollbackWrites.mp hrollback
  obtain ⟨haccepted, z, -, rfl⟩ := yields_pendingReplicaWrites.mp hmade.written
  exact Records.values_erase_put haccepted.fresh

lemma created_of_plannerRun (h : PlannerRun kind producer now s t) :
    ∃ created, t.replicaPlans.values = created ++ s.replicaPlans.values ∧
      ∀ p ∈ created, PlannedFrom s p := by
  induction h with
  | refl => exact ⟨[], rfl, fun _ hp => absurd hp not_mem_nil⟩
  | @tail r t hrun hstep ih =>
    obtain ⟨created, hvalues, hcreated⟩ := ih
    obtain ⟨chunk, hchange⟩ := hstep
    cases hchange with
    | @made plan _ hmade =>
      refine ⟨plan :: created, by rw [hmade.values_eq, hvalues, cons_append], ?_⟩
      refine forall_mem_cons.mpr ⟨⟨?_, by rw [hmade.state]; rfl, ?_⟩, hcreated⟩
      · cases hold : (catalog s).plan plan.id with
        | none => rfl
        | some p =>
          have hmem : p ∈ r.replicaPlans.values := by
            rw [hvalues]
            exact mem_append_right _ (Records.mem_values_iff_exists.mpr ⟨_, hold⟩)
          have hstored : (catalog r).plan plan.id = some p :=
            plan_id hold ▸ Records.mem_values.mp hmem
          rw [hmade.accepted.fresh] at hstored
          cases hstored
      · obtain ⟨node, hnode, hmay⟩ := hmade.target
        rw [node_of_plannerRun hrun] at hnode
        exact ⟨node, hnode, hmade.bytes ▸ hmay.le_freeBytes⟩
    | revoked _ _ hrevoked => exact ⟨created, by rw [hrevoked.values_eq, hvalues], hcreated⟩

end Created

inductive PlanningRun (w w' : World) : Prop
  | failover {f : FailoverPlanner} {r : Except CoordinatorError Unit}
      (h : f.planOnce.run.Runs coordinatorSemantics w r w')
  | rebalance {p : RebalancePlanner} {r : Except CoordinatorError Unit}
      (h : p.planOnce.run.Runs coordinatorSemantics w r w')

section Reserved

variable {w w' : World} {nodeID : NodeID} {node : NodeInfo} {created : List ReplicaPlan}

lemma created_of_planningRun (h : PlanningRun w w') :
    ∃ created, w'.store.replicaPlans.values = created ++ w.store.replicaPlans.values ∧
      ∀ p ∈ created, PlannedFrom w.store p := by
  cases h with
  | failover h =>
    obtain ⟨now, hrun⟩ := (runs_failover _).of_runs h
    exact created_of_plannerRun hrun
  | rebalance h =>
    obtain ⟨now, hrun⟩ := (runs_rebalance _).of_runs h
    exact created_of_plannerRun hrun

lemma createdFor_eq (hvalues : t.replicaPlans.values = created ++ s.replicaPlans.values)
    (hcreated : ∀ p ∈ created, PlannedFrom s p) :
    createdFor s t nodeID = created.filter (·.targetNodeID = nodeID) := by
  have hnew : created.filter (fun p => p.targetNodeID = nodeID &&
      (s.replicaPlans.lookup p.id).isNone) = created.filter (·.targetNodeID = nodeID) := by
    refine filter_congr fun p hp => ?_
    have hfresh : s.replicaPlans.lookup p.id = none := (hcreated p hp).fresh
    rw [hfresh, Option.isNone_none, Bool.and_true]
  have hold : s.replicaPlans.values.filter (fun p => p.targetNodeID = nodeID &&
      (s.replicaPlans.lookup p.id).isNone) = [] := by
    refine filter_eq_nil_iff.mpr fun p hp => ?_
    rw [Records.mem_values.mp hp, Option.isNone_some, Bool.and_false]
    exact Bool.false_ne_true
  rw [createdFor, hvalues, filter_append, hnew, hold, append_nil]

lemma reservedBytes_eq (nodeID : NodeID)
    (hvalues : t.replicaPlans.values = created ++ s.replicaPlans.values)
    (hcreated : ∀ p ∈ created, PlannedFrom s p) :
    reservedBytes t nodeID = reservedBytes s nodeID +
      ((createdFor s t nodeID).map (·.requiredBytes.toInt)).sum := by
  have hunfinished : created.filter (fun p => p.targetNodeID = nodeID &&
      !isTerminalReplicaPlanState p.state) = createdFor s t nodeID := by
    rw [createdFor_eq hvalues hcreated]
    refine filter_congr fun p hp => ?_
    rw [(hcreated p hp).unfinished, Bool.not_false, Bool.and_true]
  rw [reservedBytes, hvalues, filter_append, map_append, sum_append, hunfinished,
    Int.add_comm]
  rfl

/-- A run of a planner makes plans for registered nodes only. It adds the bytes of its plans to
those of a node, each of which alone is within the free capacity. So the sum stays within it if the
run makes no plan for the node, or makes one and there was none. -/
theorem plannedBytes_of_run (h : PlanningRun w w')
    (hnode : (catalog w.store).node nodeID = some node) :
    (∀ p, (catalog w'.store).plan p.id = some p → (catalog w.store).plan p.id = none →
        ((catalog w.store).node p.targetNodeID).isSome) ∧
      (∀ p ∈ createdFor w.store w'.store nodeID, p.requiredBytes.toInt ≤ freeBytes node) ∧
      reservedBytes w'.store nodeID = reservedBytes w.store nodeID +
        ((createdFor w.store w'.store nodeID).map (·.requiredBytes.toInt)).sum ∧
      (reservedBytes w.store nodeID ≤ freeBytes node →
        createdFor w.store w'.store nodeID = [] ∨
          (reservedBytes w.store nodeID = 0 ∧
            (createdFor w.store w'.store nodeID).length = 1) →
        reservedBytes w'.store nodeID ≤ freeBytes node) := by
  obtain ⟨created, hvalues, hcreated⟩ := created_of_planningRun h
  have hfits : ∀ p ∈ createdFor w.store w'.store nodeID,
      p.requiredBytes.toInt ≤ freeBytes node := by
    intro p hp
    rw [createdFor_eq hvalues hcreated, mem_filter, decide_eq_true_eq] at hp
    obtain ⟨hmem, rfl⟩ := hp
    obtain ⟨node', hnode', hle⟩ := (hcreated p hmem).fits
    obtain rfl : node = node' := Option.mem_unique hnode hnode'
    exact hle
  have hsum := reservedBytes_eq nodeID hvalues hcreated
  refine ⟨fun p hp hnew => ?_, hfits, hsum, fun hcovered hfew => ?_⟩
  · have hmem : p ∈ w'.store.replicaPlans.values := Records.mem_values.mpr hp
    rw [hvalues] at hmem
    rcases mem_append.mp hmem with hmem | hmem
    · obtain ⟨node', hnode', -⟩ := (hcreated p hmem).fits
      exact Option.isSome_iff_exists.mpr ⟨node', hnode'⟩
    · exact absurd ((Records.mem_values.mp hmem).symm.trans hnew) (Option.some_ne_none p)
  rcases hfew with hnone | ⟨hempty, hone⟩
  · rw [hsum, hnone, map_nil, sum_nil, Int.add_zero]
    exact hcovered
  · obtain ⟨p, hp⟩ := length_eq_one_iff.mp hone
    rw [hsum, hempty, hp, map_singleton, sum_singleton, Int.zero_add]
    exact hfits p (hp ▸ mem_singleton_self p)

end Reserved

theorem singlePlan_fits :
    ∃ w node, PlanningRun { store := lostReplica } w ∧
      (catalog lostReplica).node "n3" = some node ∧ reservedBytes w.store "n3" = 10 ∧
      reservedBytes w.store "n3" ≤ freeBytes node := by
  have hrun : (planOutcome planner lostReplica).any (fun w => reservedBytes w.store "n3" = 10 &&
      (createdFor lostReplica w.store "n3").length = 1) = true := by decide +kernel
  obtain ⟨w, hplanned, hcheck⟩ := (Option.any_eq_true ..).mp hrun
  rw [Bool.and_eq_true, decide_eq_true_eq, decide_eq_true_eq] at hcheck
  have hplanning : PlanningRun { store := lostReplica } w :=
    .failover ((runs_of_planOutcome hplanned).mono semanticsIn_le)
  exact ⟨w, workingNode "n3" "a3", hplanning, rfl,
    hcheck.1, (plannedBytes_of_run hplanning rfl).2.2.2 (by decide) (.inr ⟨rfl, hcheck.2⟩)⟩

def twoLost : MemoryState :=
  holding [lostChunk, { lostChunk with id := "l", index := 1 }]
    [{ workingNode "n3" "a3" with capacity := 15 }, workingNode "n2" "a2",
      { workingNode "n1" "a1" with healthy := false }]

/-- Each of the two plans is checked against the same free capacity. -/
theorem twoPlans_exceed :
    ∃ w node, PlanningRun { store := twoLost } w ∧
      (∀ n node, (catalog twoLost).node n = some node →
        reservedBytes twoLost n ≤ freeBytes node) ∧
      (catalog w.store).node "n3" = some node ∧ freeBytes node = 15 ∧
      reservedBytes w.store "n3" = 20 := by
  have hrun : (planOutcome planner twoLost).any (fun w =>
      reservedBytes w.store "n3" = 20 &&
        (w.store.nodes.lookup "n3").any (freeBytes · = 15)) = true := by
    decide +kernel
  obtain ⟨w, hplanned, hcheck⟩ := (Option.any_eq_true ..).mp hrun
  rw [Bool.and_eq_true, decide_eq_true_eq] at hcheck
  obtain ⟨node, hnode, hfree⟩ := (Option.any_eq_true ..).mp hcheck.2
  refine ⟨w, node, .failover ((runs_of_planOutcome hplanned).mono semanticsIn_le), ?_, hnode,
    of_decide_eq_true hfree, hcheck.1⟩
  intro n node hnode
  have hall : twoLost.nodes.values.all (0 ≤ freeBytes ·) = true := by decide
  exact of_decide_eq_true
    (all_eq_true.mp hall node (Records.mem_values_iff_exists.mpr ⟨n, hnode⟩))

structure FirstChoice (s : MemoryState) (chunk : ChunkMetadata) (node : NodeInfo) : Prop where
  stored : (catalog s).node node.id = some node
  admitted : MayHold chunk node
  first : ∀ other, (catalog s).node other.id = some other → MayHold chunk other →
    RanksBefore node other

structure SameNeeds (z z' : ChunkMetadata) : Prop where
  replicas : z.replicas = z'.replicas
  size : z.size = z'.size

structure FailoverSince (s t : MemoryState) : Prop where
  node_eq : (catalog t).node = (catalog s).node
  needs : ∀ j z, (catalog t).chunk j = some z →
    (∃ z0, (catalog s).chunk j = some z0 ∧ SameNeeds z z0) ∨
      ∃ k p, (catalog t).plan k = some p ∧ p.type = .failover ∧ p.chunkID = j ∧
        p.state ∈ activeReplicaPlanStates
  chosen : ∀ k p, (catalog t).plan k = some p → (catalog s).plan k = some p ∨
    ∃ chunk node, (catalog s).chunk p.chunkID = some chunk ∧ node.id = p.targetNodeID ∧
      FirstChoice s chunk node ∧ p.requiredBytes = requiredPlacementBytes chunk

def AvailableFirst (f : FailoverPlanner) (now : Time) (s : MemoryState) (chunk : ChunkMetadata) :
    Prop :=
  ∀ node, (catalog s).node node.id = some node → MayHold chunk node →
    f.isNodeUnavailable node now = true →
      ∃ other, (catalog s).node other.id = some other ∧ MayHold chunk other ∧
        f.isNodeUnavailable other now = false ∧ RanksBefore other node

section Failover

variable {z z' : ChunkMetadata}

lemma SameNeeds.request_eq (h : SameNeeds z z') (nodes : List NodeInfo) :
    FailoverPlanner.placementRequest z nodes = FailoverPlanner.placementRequest z' nodes := by
  simp only [FailoverPlanner.placementRequest, buildReplicaExclusionSet, requiredPlacementBytes,
    h.replicas, h.size]

lemma SameNeeds.mayHold_iff (h : SameNeeds z z') : MayHold z node ↔ MayHold z' node := by
  rw [MayHold, MayHold, h.request_eq]

lemma FirstChoice.congr (h : FirstChoice r z node) (hneeds : SameNeeds z z')
    (hnode : (catalog r).node = (catalog s).node) : FirstChoice s z' node where
  stored := hnode ▸ h.stored
  admitted := hneeds.mayHold_iff.mp h.admitted
  first other hother hmay := h.first other (hnode ▸ hother) (hneeds.mayHold_iff.mpr hmay)

lemma PlanMade.firstChoice (h : PlanMade s t plan chunk now) (hkind : plan.type = .failover) :
    ∃ node, node.id = plan.targetNodeID ∧ FirstChoice s chunk node := by
  obtain ⟨node, rest, hid, hselect⟩ := h.preferred hkind
  obtain ⟨hlisted, hadmits⟩ := admitted_of_mem_select (hselect ▸ mem_cons_self)
  refine ⟨node, hid, mem_allNodes.mp hlisted, hadmits, fun other hother hmay => ?_⟩
  exact head_ranksBefore hselect (mem_allNodes.mpr hother) hmay

lemma FirstChoice.available_iff (h : FirstChoice s chunk node) :
    f.isNodeUnavailable node now = false ↔ AvailableFirst f now s chunk := by
  constructor
  · intro havailable other hother hmay _
    exact ⟨node, h.stored, h.admitted, havailable, h.first other hother hmay⟩
  · intro hfirst
    by_contra hdown
    rw [Bool.not_eq_false] at hdown
    obtain ⟨other, hother, hmay, havailable, hranks⟩ :=
      hfirst node h.stored h.admitted hdown
    have hid := (h.first other hother hmay).id_eq hranks
    have hsame : node = other := by
      have hstored := h.stored
      rw [hid, hother] at hstored
      exact (Option.some.inj hstored).symm
    rw [hsame, havailable] at hdown
    cases hdown

lemma FailoverSince.refl : FailoverSince s s where
  node_eq := rfl
  needs _ z hz := .inl ⟨z, hz, rfl, rfl⟩
  chosen _ _ hp := .inl hp

lemma FailoverSince.found (h : FailoverSince s r) (hmade : PlanMade r t plan chunk now)
    (hkind : plan.type = .failover) :
    ∃ z0, (catalog s).chunk chunk.id = some z0 ∧ SameNeeds chunk z0 := by
  rcases h.needs chunk.id chunk hmade.stored with hfound | ⟨k, p, hp, htype, hchunk, hactive⟩
  · exact hfound
  · exact absurd hactive (hmade.unplanned k p hp (htype.trans hkind.symm) hchunk)

lemma FailoverSince.made (h : FailoverSince s r) (hmade : PlanMade r t plan chunk now)
    (hkind : plan.type = .failover) : FailoverSince s t := by
  obtain ⟨z0, hz0, hneeds⟩ := h.found hmade hkind
  have hcatalog := hmade.catalog_eq
  refine ⟨by rw [hcatalog, h.node_eq], fun j z hz => ?_, fun k p hp => ?_⟩
  · have hplan : (catalog t).plan plan.id = some plan := by
      rw [hcatalog]
      exact Function.update_self ..
    rw [hcatalog] at hz
    rcases update_some_eq_some.mp hz with ⟨rfl, -⟩ | ⟨-, hz⟩
    · exact .inr ⟨plan.id, plan, hplan, hkind, hmade.chunkID, by rw [hmade.state]; decide⟩
    · refine (h.needs j z hz).imp_right ?_
      rintro ⟨k, p, hp, hrest⟩
      refine ⟨k, p, ?_, hrest⟩
      rw [hcatalog]
      exact update_of_new hmade.accepted.fresh hp
  · rw [hcatalog] at hp
    rcases update_some_eq_some.mp hp with ⟨-, rfl⟩ | ⟨-, hp⟩
    · obtain ⟨node, hid, hfirst⟩ := hmade.firstChoice hkind
      exact .inr ⟨z0, node, hmade.chunkID ▸ hz0, hid, hfirst.congr hneeds h.node_eq,
        hmade.bytes.trans (congrArg PlacementRequest.requiredBytes (hneeds.request_eq []))⟩
    · exact h.chosen k p hp

lemma FailoverSince.revoked (h : FailoverSince s r) (hrevoked : PlanRevoked r t plan chunk now)
    (hkind : plan.type = .failover) : FailoverSince s t := by
  obtain ⟨r', hmade, -⟩ := hrevoked.made
  obtain ⟨z0, hz0, hneeds⟩ := h.found hmade hkind
  have hcatalog := hrevoked.catalog_eq
  refine ⟨by rw [hcatalog, h.node_eq], fun j z hz => ?_, fun k p hp => ?_⟩
  · rw [hcatalog] at hz ⊢
    rcases update_some_eq_some.mp hz with ⟨rfl, rfl⟩ | ⟨-, hz⟩
    · exact .inl ⟨z0, hz0, hmade.replicas_revoked.trans hneeds.replicas, hneeds.size⟩
    · exact h.needs j z hz
  · rw [hcatalog] at hp
    exact h.chosen k p hp

lemma failoverSince_of_plannerRun (h : PlannerRun .failover producer now s t) :
    FailoverSince s t := by
  induction h with
  | refl => exact .refl
  | tail _ hstep ih =>
    obtain ⟨chunk, hchange⟩ := hstep
    cases hchange with
    | made hkind hmade => exact ih.made hmade hkind
    | revoked hkind _ hrevoked => exact ih.revoked hrevoked hkind

lemma plannerRun_of_failover
    (h : f.planOnce.run.Runs (semanticsIn fun env => env.now = now) w result w') :
    PlannerRun .failover f.taskProducer now w.store w'.store := by
  have hplans : Prog.Ensures (semanticsIn fun env => env.now = now) w f.planOnce
      (fun _ w' => PlannerRun .failover f.taskProducer now w.store w'.store)
      (fun w' => PlannerRun .failover f.taskProducer now w.store w'.store) := by
    refine (ensures_clock fun _ h => h).bind ?_
    rintro _ _ ⟨rfl, rfl⟩
    refine Prog.wp_iff_runs.mpr fun outcome w1 hrun => ?_
    have hplanned := (runs_failover_at _ f).of_runs (hrun.mono semanticsIn_le)
    cases outcome with
    | ok _ | error _ => exact hplanned
  exact hplans.of_runs h

/-- A plan of the failover planner fits on its target, which did not hold the chunk. But the
target is available only if no unavailable node comes first. -/
theorem failover_target_iff {f : FailoverPlanner} {w w' : World} {k : ReplicaPlanID}
    {p : ReplicaPlan} {result : Except CoordinatorError Unit}
    (hrun : f.planOnce.run.Runs (semanticsIn fun env => env.now = now) w result w')
    (hnew : (catalog w.store).plan k = none) (hp : (catalog w'.store).plan k = some p) :
    ∃ chunk node, (catalog w.store).chunk p.chunkID = some chunk ∧
      (catalog w.store).node p.targetNodeID = some node ∧
      replicaOn chunk.replicas p.targetNodeID = none ∧
      p.requiredBytes.toInt ≤ freeBytes node ∧
      (f.isNodeUnavailable node now = false ↔ AvailableFirst f now w.store chunk) := by
  have hsince := failoverSince_of_plannerRun (plannerRun_of_failover hrun)
  rcases hsince.chosen k p hp with hold | ⟨chunk, node, hchunk, hid, hfirst, hbytes⟩
  · rw [hnew] at hold
    cases hold
  · rw [← hid]
    refine ⟨chunk, node, hchunk, hfirst.stored, hfirst.admitted.free, ?_, hfirst.available_iff⟩
    rw [hbytes]
    exact hfirst.admitted.le_freeBytes

end Failover

def seenAt (seen : Time) : MemoryState :=
  holding [lostChunk] [{ seenNode "n4" "a4" obliging.now with capacity := 50 },
    seenNode "n3" "a3" seen, seenNode "n2" "a2" obliging.now,
    { workingNode "n1" "a1" with healthy := false }]

def plansOnN3 (w : World) : Bool :=
  (w.store.replicaPlans.lookup "failover-k-n3-7").any fun p =>
    p.chunkID = "k" && p.targetNodeID = "n3"

lemma exists_of_plansOnN3 (h : (planOutcome timeoutPlanner (seenAt seen)).any plansOnN3 = true) :
    ∃ w p, timeoutPlanner.planOnce.run.Runs (semanticsIn fun env => env.now = obliging.now)
        { store := seenAt seen } (.ok ()) w ∧
      (catalog w.store).plan "failover-k-n3-7" = some p ∧ p.chunkID = "k" ∧
      p.targetNodeID = "n3" := by
  obtain ⟨w, hplanned, hplan⟩ := (Option.any_eq_true ..).mp h
  obtain ⟨p, hp, hcheck⟩ := (Option.any_eq_true ..).mp hplan
  rw [Bool.and_eq_true, decide_eq_true_eq, decide_eq_true_eq] at hcheck
  exact ⟨w, p, runs_of_planOutcome hplanned, hp, hcheck⟩

/-- All nodes that are marked healthy are available, and so is the target. -/
theorem recentTarget_available :
    ∃ w p node, timeoutPlanner.planOnce.run.Runs (semanticsIn fun env => env.now = obliging.now)
        { store := seenAt obliging.now } (.ok ()) w ∧
      (catalog w.store).plan "failover-k-n3-7" = some p ∧
      AvailableFirst timeoutPlanner obliging.now (seenAt obliging.now) lostChunk ∧
      (catalog (seenAt obliging.now)).node p.targetNodeID = some node ∧
      timeoutPlanner.isNodeUnavailable node obliging.now = false := by
  obtain ⟨w, p, hrun, hp, hchunk, -⟩ := exists_of_plansOnN3
    (by decide +kernel : (planOutcome timeoutPlanner (seenAt obliging.now)).any plansOnN3 = true)
  have hfirst : AvailableFirst timeoutPlanner obliging.now (seenAt obliging.now) lostChunk := by
    intro node hnode hmay hdown
    have hall : (seenAt obliging.now).nodes.values.all (fun node =>
        node.healthy → timeoutPlanner.isNodeUnavailable node obliging.now = false) = true := by
      decide +kernel
    have hup := all_eq_true.mp hall node (Records.mem_values.mpr hnode)
    rw [of_decide_eq_true hup hmay.healthy] at hdown
    cases hdown
  obtain ⟨chunk, node, hstored, hnode, -, -, hiff⟩ := failover_target_iff hrun rfl hp
  rw [hchunk] at hstored
  obtain rfl : lostChunk = chunk := Option.some.inj hstored
  exact ⟨w, p, node, hrun, hp, hfirst, hnode, hiff.mpr hfirst⟩

/-- The node with the most free capacity has not been heard of for long, but its health flag is
still set: it is unavailable and gets the plan. -/
theorem silentTarget_chosen :
    ∃ w p node, timeoutPlanner.planOnce.run.Runs (semanticsIn fun env => env.now = obliging.now)
        { store := seenAt 0 } (.ok ()) w ∧
      (catalog (seenAt 0)).plan "failover-k-n3-7" = none ∧
      (catalog w.store).plan "failover-k-n3-7" = some p ∧
      (catalog (seenAt 0)).node p.targetNodeID = some node ∧
      timeoutPlanner.isNodeUnavailable node obliging.now = true := by
  obtain ⟨w, p, hrun, hp, -, htarget⟩ := exists_of_plansOnN3
    (by decide +kernel : (planOutcome timeoutPlanner (seenAt 0)).any plansOnN3 = true)
  refine ⟨w, p, seenNode "n3" "a3" 0, hrun, rfl, hp, ?_, by decide +kernel⟩
  rw [htarget]
  rfl

end AstraStorage.Proofs
