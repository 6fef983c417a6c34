import AstraStorage.Proofs.CleanupSafety
import AstraStorage.Proofs.ReplicaCounts
import AstraStorage.Proofs.UntouchedTables

/-!
# Controllers without a task producer

Without a task producer whole runs follow each other, with heartbeats and calls in between. A
planner only adds plans and pending replicas, the repairer only replaces replicas, and cleanup ends
plans and takes away the replicas they move.
-/

namespace AstraStorage.Proofs
open Lib Store Coordinator Allocator Function List

variable {c : CleanupController} {w : World} {now : Time} {action : RoundAction}
  {kind : ReplicaPlanType} {s t r : MemoryState}

def worksAlone : Controller → Prop
  | .failover f => f.taskProducer = false
  | .rebalance r => r.taskProducer = false
  | .repair r => r.taskProducer = false
  | .cleanup c => c.taskProducer = false

def Direct : RoundAction → Prop
  | .service _ => True
  | .controller run => worksAlone run

def Unattended : RoundAction → Prop
  | .service (.call _ (.heartbeatNode _)) => True
  | .service (.call ..) => False
  | .service .reorder => True
  | .controller run => worksAlone run

/-! ### Plans over one action -/

structure SamePlan (p p' : ReplicaPlan) : Prop where
  type : p'.type = p.type
  chunkID : p'.chunkID = p.chunkID
  source : p'.sourceNodeID = p.sourceNodeID
  target : p'.targetNodeID = p.targetNodeID

section Plans

lemma CleanupChange.plan_eq (h : CleanupChange false plan s t) :
    (catalog s).plan plan.id = some plan ∧ ∃ p', SamePlan plan p' ∧
      (p'.state = plan.state ∨ p'.state = .done) ∧
      (catalog t).plan = update (catalog s).plan plan.id (some p') := by
  cases h with
  | @finished now _ _ h =>
    obtain ⟨z, replicas, -, -, -, heq⟩ := h.catalog_eq
    refine ⟨h.stored, donePlan plan now, ⟨rfl, rfl, rfl, rfl⟩, .inr rfl, ?_⟩
    rw [heq]
  | noted h =>
    obtain ⟨patch, hstates, heq⟩ := h.catalog_eq
    have hnone : patch.state = none :=
      Option.eq_none_iff_forall_not_mem.mpr fun state hstate => nomatch hstates state hstate
    refine ⟨h.stored, patch.apply plan, ⟨rfl, rfl, rfl, rfl⟩, .inl ?_, ?_⟩
    · simp only [ReplicaPlanPatch.apply, hnone, Option.getD_none]
    · rw [heq]

structure CleanedSince (s t : MemoryState) : Prop where
  plans : ∀ k p', (catalog t).plan k = some p' → ∃ p, (catalog s).plan k = some p ∧
    SamePlan p p' ∧ (p'.state = p.state ∨ p'.state = .done)
  entries : ∀ k z', (catalog t).chunk k = some z' → ∃ z, (catalog s).chunk k = some z ∧
    ∀ n replica, replicaOn z'.replicas n = some replica → replicaOn z.replicas n = some replica

lemma CleanedSince.refl : CleanedSince s s where
  plans _ p hp := ⟨p, hp, ⟨rfl, rfl, rfl, rfl⟩, .inl rfl⟩
  entries _ z hz := ⟨z, hz, fun _ _ h => h⟩

lemma CleanedSince.trans (h : CleanedSince s r) (h' : CleanedSince r t) : CleanedSince s t := by
  constructor
  · intro k p'' hp''
    obtain ⟨p', hp', hsame', hstate'⟩ := h'.plans k p'' hp''
    obtain ⟨p, hp, hsame, hstate⟩ := h.plans k p' hp'
    refine ⟨p, hp, ⟨hsame'.type.trans hsame.type, hsame'.chunkID.trans hsame.chunkID,
      hsame'.source.trans hsame.source, hsame'.target.trans hsame.target⟩, ?_⟩
    rcases hstate' with hstate' | hdone
    · rw [hstate']
      exact hstate
    · exact .inr hdone
  · intro k z'' hz''
    obtain ⟨z', hz', hentries'⟩ := h'.entries k z'' hz''
    obtain ⟨z, hz, hentries⟩ := h.entries k z' hz'
    exact ⟨z, hz, fun n replica hreplica => hentries n replica (hentries' n replica hreplica)⟩

lemma CleanupChange.cleanedSince (h : CleanupChange false plan s t) : CleanedSince s t := by
  obtain ⟨hplan, p', hsame, hstate, hplans⟩ := h.plan_eq
  constructor
  · intro k q hq
    rw [hplans] at hq
    rcases update_some_eq_some.mp hq with ⟨rfl, rfl⟩ | ⟨-, hq⟩
    · exact ⟨plan, hplan, hsame, hstate⟩
    · exact ⟨q, hq, ⟨rfl, rfl, rfl, rfl⟩, .inl rfl⟩
  · intro k z' hz'
    cases h with
    | finished _ _ h =>
      obtain ⟨z, replicas, hz, hreplicas, -, heq⟩ := h.catalog_eq
      rw [heq] at hz'
      rcases update_some_eq_some.mp hz' with ⟨rfl, rfl⟩ | ⟨-, hz'⟩
      · refine ⟨z, findChunk_stored hz, fun n replica hreplica => ?_⟩
        rw [replicaOn_withoutReplica hreplicas] at hreplica
        split_ifs at hreplica
        exact hreplica
      · exact ⟨z', hz', fun _ _ h => h⟩
    | noted h =>
      obtain ⟨patch, -, heq⟩ := h.catalog_eq
      rw [heq] at hz'
      exact ⟨z', hz', fun _ _ h => h⟩

lemma cleanedSince_of_cleanupRun (hdirect : c.taskProducer = false) (h : CleanupRun c s t) :
    CleanedSince s t := by
  induction h with
  | refl => exact .refl
  | tail _ hstep ih =>
    obtain ⟨plan, -, hchange⟩ := hstep
    rw [hdirect] at hchange
    exact ih.trans hchange.cleanedSince

lemma plan_of_repair (r : PendingReplicaRepairer) :
    Prog.Ensures coordinatorSemantics w r.repairOnce
      (fun _ w' => (catalog w'.store).plan = (catalog w.store).plan)
      (fun w' => (catalog w'.store).plan = (catalog w.store).plan) := by
  refine (repairing_repair r).ensures ?_ rfl
  intro o w1 reply w2 ho hw1 hstep
  refine step_keeps (I := fun s => (catalog s).plan = (catalog w.store).plan) hstep hw1 ?_ ?_
  · rintro call rfl v hv s t hs hwrite
    obtain ⟨patch, rfl⟩ := ho v hv
    obtain ⟨z, -, rfl⟩ := yields_updateChunkReplicas.mp hwrite
    exact hs
  · rintro now call rfl
    exact ho.elim

lemma plannerRun_keeps {I : MemoryState → Prop} (hs : I s) (h : PlannerRun kind false now s t)
    (hmade : ∀ r r' plan chunk now, I r → PlanMade r r' plan chunk now → I r') : I t := by
  induction h with
  | refl => exact hs
  | tail _ hstep ih =>
    obtain ⟨chunk, hchange⟩ := hstep
    cases hchange with
    | made _ h => exact hmade _ _ _ _ _ ih h
    | revoked _ hproducer _ => cases hproducer

inductive PlansChange (s t : MemoryState) : Prop
  | kept (h : (catalog t).plan = (catalog s).plan)
  | planned {kind : ReplicaPlanType} {now : Time} (h : PlannerRun kind false now s t)
  | cleaned {c : CleanupController} (hdirect : c.taskProducer = false) (h : CleanupRun c s t)

theorem plansChange_of_step (hdirect : Direct action) (h : RoundStep w action w') :
    PlansChange w.store w'.store := by
  cases h with
  | service h => exact .kept (plan_of_step h)
  | @controller _ run _ h =>
    cases run with
    | failover f =>
      obtain ⟨now, hrun⟩ := (runs_failover f).of_runs h
      rw [show f.taskProducer = false from hdirect] at hrun
      exact .planned hrun
    | rebalance r =>
      obtain ⟨now, hrun⟩ := (runs_rebalance r).of_runs h
      rw [show r.taskProducer = false from hdirect] at hrun
      exact .planned hrun
    | repair r => exact .kept ((plan_of_repair r).of_runs h)
    | cleanup c => exact .cleaned hdirect ((runs_cleanup c).of_runs h)

end Plans

/-! ### One plan of a kind for a chunk -/

structure PlansApart (c : Catalog) : Prop where
  states : ∀ k p, c.plan k = some p → p.state = .materialized ∨ p.state = .done
  apart : ∀ k k' p p', c.plan k = some p → c.plan k' = some p' → p.chunkID = p'.chunkID →
    p.type = p'.type → p.state ≠ .done → p'.state ≠ .done → k = k'

section PlansApart

section

variable (hs : PlansApart (catalog s))
include hs

lemma PlansApart.of_plan_eq (h : (catalog t).plan = (catalog s).plan) : PlansApart (catalog t) := by
  constructor
  · rw [h]
    exact hs.states
  · rw [h]
    exact hs.apart

lemma PlansApart.made (h : PlanMade s t plan chunk now) : PlansApart (catalog t) := by
  have hplans : (catalog t).plan = update (catalog s).plan plan.id (some plan) := by
    rw [h.catalog_eq]
  -- the planner found no plan of the kind for the chunk
  have hother {k : ReplicaPlanID} {p : ReplicaPlan} (hp : (catalog s).plan k = some p)
      (hchunk : p.chunkID = plan.chunkID) (htype : p.type = plan.type) : p.state = .done := by
    rcases hs.states k p hp with hstate | hstate
    · have hinactive := h.unplanned k p hp htype (hchunk.trans h.chunkID)
      rw [hstate] at hinactive
      exact absurd (by decide) hinactive
    · exact hstate
  constructor
  · intro k p hp
    rw [hplans] at hp
    rcases update_some_eq_some.mp hp with ⟨-, rfl⟩ | ⟨-, hp⟩
    · exact .inl h.state
    · exact hs.states k p hp
  · intro k k' p p' hp hp' hchunk htype hopen hopen'
    rw [hplans] at hp hp'
    rcases update_some_eq_some.mp hp with ⟨rfl, rfl⟩ | ⟨-, hold⟩
    · rcases update_some_eq_some.mp hp' with ⟨rfl, -⟩ | ⟨-, hold'⟩
      · rfl
      · exact absurd (hother hold' hchunk.symm htype.symm) hopen'
    · rcases update_some_eq_some.mp hp' with ⟨rfl, rfl⟩ | ⟨-, hold'⟩
      · exact absurd (hother hold hchunk htype) hopen
      · exact hs.apart k k' p p' hold hold' hchunk htype hopen hopen'

lemma PlansApart.cleaned (h : CleanedSince s t) : PlansApart (catalog t) := by
  constructor
  · intro k q hq
    obtain ⟨p, hp, -, hstate | hdone⟩ := h.plans k q hq
    · rw [hstate]
      exact hs.states k p hp
    · exact .inr hdone
  · intro k k' q q' hq hq' hchunk htype hopen hopen'
    obtain ⟨p, hp, hsame, hstate⟩ := h.plans k q hq
    obtain ⟨p', hp', hsame', hstate'⟩ := h.plans k' q' hq'
    rw [hsame.chunkID, hsame'.chunkID] at hchunk
    rw [hsame.type, hsame'.type] at htype
    refine hs.apart k k' p p' hp hp' hchunk htype ?_ ?_
    · exact fun hdone => hopen (hstate.elim (·.trans hdone) id)
    · exact fun hdone => hopen' (hstate'.elim (·.trans hdone) id)

lemma PlansApart.change (h : PlansChange s t) : PlansApart (catalog t) := by
  cases h with
  | kept h => exact hs.of_plan_eq h
  | planned h =>
    exact plannerRun_keeps (I := fun s => PlansApart (catalog s)) hs h
      fun _ _ _ _ _ hr h => hr.made h
  | cleaned hdirect h => exact hs.cleaned (cleanedSince_of_cleanupRun hdirect h)

end

end PlansApart

/-! ### The targets of new plans -/

structure PlanSince (s t : MemoryState) (k : ReplicaPlanID) (p : ReplicaPlan) : Prop where
  new : (catalog s).plan k = none
  free : ∃ z, (catalog s).chunk p.chunkID = some z ∧ replicaOn z.replicas p.targetNodeID = none
  held : ∀ z, (catalog t).chunk p.chunkID = some z → (replicaOn z.replicas p.targetNodeID).isSome

structure PlansAdded (s t : MemoryState) : Prop where
  chunks : ∀ k z', (catalog t).chunk k = some z' → ∃ z, (catalog s).chunk k = some z ∧
    ∀ n, (replicaOn z.replicas n).isSome → (replicaOn z'.replicas n).isSome
  kept : ∀ k p, (catalog s).plan k = some p → (catalog t).plan k = some p
  plans : ∀ k p, (catalog t).plan k = some p → (catalog s).plan k = some p ∨ PlanSince s t k p
  apart : ∀ k k' p p', (catalog t).plan k = some p → (catalog t).plan k' = some p' →
    (catalog s).plan k = none → (catalog s).plan k' = none → p.chunkID = p'.chunkID →
    p.targetNodeID = p'.targetNodeID → k = k'

section PlansAdded

lemma PlansAdded.refl : PlansAdded s s where
  chunks _ z hz := ⟨z, hz, fun _ h => h⟩
  kept _ _ hp := hp
  plans _ _ hp := .inl hp
  apart k k' p p' hp _ hnone _ _ _ := by
    rw [hnone] at hp
    cases hp

lemma PlanMade.chunk_cases (h : PlanMade r t plan chunk now) (hz' : (catalog t).chunk k = some z') :
    ∃ z, (catalog r).chunk k = some z ∧
      (∀ n, (replicaOn z.replicas n).isSome → (replicaOn z'.replicas n).isSome) ∧
      (k = plan.chunkID → (replicaOn z'.replicas plan.targetNodeID).isSome) := by
  rw [h.catalog_eq] at hz'
  rcases update_some_eq_some.mp hz' with ⟨rfl, rfl⟩ | ⟨hne, hz⟩
  · refine ⟨chunk, h.stored, fun n hn => ?_, fun _ => ?_⟩
    · rw [replicaOn_made]
      split_ifs
      · rfl
      · exact hn
    · rw [replicaOn_made, if_pos rfl]
      rfl
  · exact ⟨z', hz, fun _ hn => hn, fun heq => absurd (heq.trans h.chunkID) hne⟩

lemma PlansAdded.planSince_made (hs : PlansAdded s r) (h : PlanMade r t plan chunk now) :
    PlanSince s t plan.id plan := by
  constructor
  · cases hold : (catalog s).plan plan.id with
    | none => rfl
    | some p =>
      have hfresh := h.accepted.fresh
      rw [hs.kept plan.id p hold] at hfresh
      cases hfresh
  · obtain ⟨z, hz, hentries⟩ := hs.chunks chunk.id chunk h.stored
    rw [h.chunkID]
    refine ⟨z, hz, ?_⟩
    cases hreplica : replicaOn z.replicas plan.targetNodeID with
    | none => rfl
    | some replica =>
      have hheld := hentries plan.targetNodeID (hreplica ▸ rfl)
      rw [h.free] at hheld
      cases hheld
  · intro z' hz'
    obtain ⟨z, -, -, hheld⟩ := h.chunk_cases hz'
    exact hheld rfl

lemma PlansAdded.made (hs : PlansAdded s r) (h : PlanMade r t plan chunk now) : PlansAdded s t := by
  have hplans : (catalog t).plan = update (catalog r).plan plan.id (some plan) := by
    rw [h.catalog_eq]
  -- an earlier plan of the run holds its target, so the new plan has another one
  have hne {k : ReplicaPlanID} {p : ReplicaPlan} (hp : (catalog r).plan k = some p)
      (hnew : (catalog s).plan k = none) (hchunk : p.chunkID = plan.chunkID)
      (htarget : p.targetNodeID = plan.targetNodeID) : False := by
    rcases hs.plans k p hp with hold | hsince
    · rw [hnew] at hold
      cases hold
    · have hheld := hsince.held chunk (hchunk.trans h.chunkID ▸ h.stored)
      rw [htarget, h.free] at hheld
      cases hheld
  refine ⟨fun k z' hz' => ?_, fun k p hp => ?_, fun k p hp => ?_, fun k k' p p' hp hp' => ?_⟩
  · obtain ⟨z, hz, hentries, -⟩ := h.chunk_cases hz'
    obtain ⟨z0, hz0, hentries0⟩ := hs.chunks k z hz
    exact ⟨z0, hz0, fun n hn => hentries n (hentries0 n hn)⟩
  · have hkept := hs.kept k p hp
    have hk : k ≠ plan.id := by
      rintro rfl
      rw [h.accepted.fresh] at hkept
      cases hkept
    rw [hplans, update_of_ne hk]
    exact hkept
  · rw [hplans] at hp
    rcases update_some_eq_some.mp hp with ⟨rfl, rfl⟩ | ⟨-, hp⟩
    · exact .inr (hs.planSince_made h)
    · refine (hs.plans k p hp).imp_right fun hsince => ⟨hsince.new, hsince.free, fun z' hz' => ?_⟩
      obtain ⟨z, hz, hentries, -⟩ := h.chunk_cases hz'
      exact hentries _ (hsince.held z hz)
  · intro hnew hnew' hchunk htarget
    rw [hplans] at hp hp'
    rcases update_some_eq_some.mp hp with ⟨rfl, rfl⟩ | ⟨-, hold⟩
    · rcases update_some_eq_some.mp hp' with ⟨rfl, -⟩ | ⟨-, hold'⟩
      · rfl
      · exact (hne hold' hnew' hchunk.symm htarget.symm).elim
    · rcases update_some_eq_some.mp hp' with ⟨rfl, rfl⟩ | ⟨-, hold'⟩
      · exact (hne hold hnew hchunk htarget).elim
      · exact hs.apart k k' p p' hold hold' hnew hnew' hchunk htarget

lemma plansAdded_of_plannerRun (h : PlannerRun kind false now s t) : PlansAdded s t :=
  plannerRun_keeps .refl h fun _ _ _ _ _ hr h => hr.made h

end PlansAdded

/-- Whole runs of controllers without a task producer, with calls in between, from any repository
without plans. A chunk never has two unfinished plans of one kind. And whatever is done next, a
plan that is made then has a target on which the chunk had no replica, neither before the run nor
by another plan of the run. -/
theorem directPlans_apart {history : List (World × RoundAction)} {w : World}
    (hrun : Run (fun w => ∀ k, (catalog w.store).plan k = none) RoundStep history w)
    (hdirect : ∀ e ∈ history, Direct e.2) :
    (∀ k k' p p', (catalog w.store).plan k = some p → (catalog w.store).plan k' = some p' →
      p.chunkID = p'.chunkID → p.type = p'.type →
      (p.state ≠ .done ∧ p.state ≠ .failed) → (p'.state ≠ .done ∧ p'.state ≠ .failed) → k = k') ∧
    ∀ action w', Direct action → RoundStep w action w' → ∀ k p,
      (catalog w.store).plan k = none → (catalog w'.store).plan k = some p →
        (∃ z, (catalog w.store).chunk p.chunkID = some z ∧
          replicaOn z.replicas p.targetNodeID = none) ∧
        ∀ k' p', (catalog w.store).plan k' = none → (catalog w'.store).plan k' = some p' →
          p'.chunkID = p.chunkID → p'.targetNodeID = p.targetNodeID → k' = k := by
  have hapart : PlansApart (catalog w.store) := by
    refine hrun.invariant_of (C := fun _ action => Direct action)
      (I := fun w => PlansApart (catalog w.store)) hdirect ?_ ?_
    · intro w hempty
      constructor
      · intro k p hp
        rw [hempty k] at hp
        cases hp
      · intro k k' p p' hp
        rw [hempty k] at hp
        cases hp
    · exact fun w action w' hw haction hstep => hw.change (plansChange_of_step haction hstep)
  refine ⟨fun k k' p p' hp hp' hchunk htype hopen hopen' => ?_,
    fun action w' haction hstep k p hnew hp => ?_⟩
  · exact hapart.apart k k' p p' hp hp' hchunk htype hopen.1 hopen'.1
  · cases plansChange_of_step haction hstep with
    | kept h =>
      rw [h, hnew] at hp
      cases hp
    | planned h =>
      have hadded := plansAdded_of_plannerRun h
      rcases hadded.plans k p hp with hold | hsince
      · rw [hnew] at hold
        cases hold
      · exact ⟨hsince.free, fun k' p' hnew' hp' hchunk htarget =>
          hadded.apart k' k p' p hp' hp hnew' hnew hchunk htarget⟩
    | cleaned hdirect h =>
      obtain ⟨p0, hold, -⟩ := (cleanedSince_of_cleanupRun hdirect h).plans k p hp
      rw [hnew] at hold
      cases hold

def crowdedHolder : MemoryState :=
  holding [heldChunk 2 [readyReplica "n3" .secondary, readyReplica "n2" .primary]]
    [workingNode "n1" "n1", { workingNode "n2" "n2" with used := 90 },
      { workingNode "n3" "n3" with used := 50 }, { workingNode "n4" "n4" with used := 40 }]

def failoverAlone : RoundAction := .controller (.failover (newFailoverPlanner 0 0))

def rebalanceAlone : RoundAction := .controller (.rebalance rebalancer)

def repairAlone : RoundAction := .controller (.repair { repairer with taskProducer := false })

def cleanupAlone : RoundAction := .controller (.cleanup { cleaner with taskProducer := false })

def failing (n : NodeID) : RoundAction :=
  .service (.call 1 (.heartbeatNode { nodeID := n, healthy := false, capacity := 100, used := 0 }))

def brokenMove : List RoundAction :=
  [failoverAlone, failing "n3", failing "n1", rebalanceAlone]

lemma unattended_of_mem (h : action ∈ [cleanupAlone, repairAlone] ++ brokenMove) :
    Unattended action := by
  simp only [brokenMove, cons_append, nil_append, mem_cons, not_mem_nil,
    or_false] at h
  rcases h with rfl | rfl | rfl | rfl | rfl | rfl
  · exact rfl
  · exact rfl
  · exact rfl
  · trivial
  · trivial
  · exact rfl

lemma Unattended.direct (h : Unattended action) : Direct action := by
  cases action with
  | service action => trivial
  | controller run => exact h

lemma unattended_of_map {history : List (World × RoundAction)}
    (heq : history.map Prod.snd = actions.map id)
    (hactions : actions ⊆ [cleanupAlone, repairAlone] ++ brokenMove) :
    ∀ e ∈ history, Unattended e.2 := by
  rw [map_id] at heq
  exact fun e he => unattended_of_mem (hactions (heq ▸ mem_map_of_mem he))

lemma exists_of_crowdedHolder (hP : P { store := crowdedHolder })
    (hactions : actions ⊆ [cleanupAlone, repairAlone] ++ brokenMove)
    (h : (replay playRound id { store := crowdedHolder } actions).any check = true) :
    ∃ history w, Run P RoundStep history w ∧ (∀ e ∈ history, Unattended e.2) ∧
      check (history, w) = true := by
  obtain ⟨history, w, hrun, heq, hcheck⟩ := exists_run_of_replay hP roundStep_of_playRound h
  exact ⟨history, w, hrun, unattended_of_map heq hactions, hcheck⟩

/-- The chunk has one plan of each kind, and both are open. -/
theorem brokenMove_plans_apart :
    ∃ history w p q, Run (fun w => ∀ k, (catalog w.store).plan k = none) RoundStep history w ∧
      (∀ e ∈ history, Direct e.2) ∧
      (catalog w.store).plan "rebalance-k-n1-7" = some p ∧ p.state = .materialized ∧
      (catalog w.store).plan "failover-k-n4-7" = some q ∧ q.state = .materialized ∧
      ∀ k k' p p', (catalog w.store).plan k = some p → (catalog w.store).plan k' = some p' →
        p.chunkID = p'.chunkID → p.type = p'.type → (p.state ≠ .done ∧ p.state ≠ .failed) →
        (p'.state ≠ .done ∧ p'.state ≠ .failed) → k = k' := by
  obtain ⟨history, w, hrun, hunattended, hcheck⟩ := exists_of_crowdedHolder
    (P := fun w => ∀ k, (catalog w.store).plan k = none) (fun _ => rfl)
    (subset_append_right _ _)
    (by decide +kernel : (replay playRound id { store := crowdedHolder } brokenMove).any
      (fun run => planIs "rebalance-k-n1-7" .materialized run.2 &&
        planIs "failover-k-n4-7" .materialized run.2) = true)
  rw [Bool.and_eq_true] at hcheck
  obtain ⟨p, hp, hpstate⟩ := exists_of_planIs hcheck.1
  obtain ⟨q, hq, hqstate⟩ := exists_of_planIs hcheck.2
  have hdirect : ∀ e ∈ history, Direct e.2 := fun e he => (hunattended e he).direct
  exact ⟨history, w, p, q, hrun, hdirect, hp, hpstate, hq, hqstate,
    (directPlans_apart hrun hdirect).1⟩

/-! ### Plans and the replicas on their targets -/

def IsOpen (p : ReplicaPlan) : Prop := p.state ≠ .done ∧ p.state ≠ .failed

lemma IsOpen.of_state (h : IsOpen p') (hstate : p'.state = p.state) : IsOpen p := by
  rwa [IsOpen, hstate] at h

def TargetsHeld (c : Catalog) : Prop :=
  ∀ k p, c.plan k = some p → IsOpen p →
    ∃ z, c.chunk p.chunkID = some z ∧ (replicaOn z.replicas p.targetNodeID).isSome

def NoRelay (c : Catalog) : Prop :=
  ∀ k k' p q z, c.plan k = some p → c.plan k' = some q → k ≠ k' → IsOpen p → IsOpen q →
    p.chunkID = q.chunkID → c.chunk p.chunkID = some z →
    (replicaOn z.replicas p.targetNodeID).any (·.state = .ready) = true →
    p.sourceNodeID ≠ q.targetNodeID

def CleansApart (w : World) : RoundAction → Prop
  | .controller (.cleanup _) => NoRelay (catalog w.store)
  | _ => True

inductive UnattendedChange (s t : MemoryState) : RoundAction → Prop
  | kept {action : RoundAction} (hplan : (catalog t).plan = (catalog s).plan)
      (hchunk : (catalog t).chunk = (catalog s).chunk) : UnattendedChange s t action
  | planned {action : RoundAction} {kind : ReplicaPlanType} {now : Time}
      (h : PlannerRun kind false now s t) : UnattendedChange s t action
  | repaired {r : PendingReplicaRepairer} (h : RepairRun s t) :
      UnattendedChange s t (.controller (.repair r))
  | cleaned {c : CleanupController} (hdirect : c.taskProducer = false) (h : CleanupRun c s t) :
      UnattendedChange s t (.controller (.cleanup c))

section Unattended

variable {w' : World}

lemma unattendedChange_of_step (hnamed : (catalog w.store).chunk "" = none)
    (haction : Unattended action) (h : RoundStep w action w') :
    UnattendedChange w.store w'.store action := by
  cases h with
  | service h =>
    cases h with
    | call now call =>
      cases call with
      | heartbeatNode req =>
        rcases exec_cases now (.heartbeatNode req) w.store with hsame | hyields
        · rw [hsame]
          exact .kept rfl rfl
        · have hchanges := heartbeatNode_changes hyields
          exact .kept hchanges.plan hchanges.chunk
      | _ => exact haction.elim
    | reorder h => exact .kept h.replicaPlans h.chunks
  | @controller _ run _ h =>
    cases run with
    | failover f =>
      obtain ⟨now, hrun⟩ := (runs_failover f).of_runs h
      rw [show f.taskProducer = false from haction] at hrun
      exact .planned hrun
    | rebalance r =>
      obtain ⟨now, hrun⟩ := (runs_rebalance r).of_runs h
      rw [show r.taskProducer = false from haction] at hrun
      exact .planned hrun
    | repair r => exact .repaired ((runs_repair r hnamed).of_runs h)
    | cleanup c => exact .cleaned haction ((runs_cleanup c).of_runs h)

lemma named_of_unattended (hnamed : (catalog w.store).chunk "" = none)
    (haction : Unattended action) (h : RoundStep w action w') :
    (catalog w'.store).chunk "" = none := by
  cases unattendedChange_of_step hnamed haction h with
  | kept _ hchunk => rw [hchunk, hnamed]
  | repaired hrun => exact hrun.named hnamed
  | planned hrun =>
    cases hz : (catalog w'.store).chunk "" with
    | none => rfl
    | some z' =>
      obtain ⟨z, hz, -⟩ := (plansAdded_of_plannerRun hrun).chunks "" z' hz
      rw [hnamed] at hz
      cases hz
  | cleaned hdirect hrun =>
    cases hz : (catalog w'.store).chunk "" with
    | none => rfl
    | some z' =>
      obtain ⟨z, hz, -⟩ := (cleanedSince_of_cleanupRun hdirect hrun).entries "" z' hz
      rw [hnamed] at hz
      cases hz

def EntriesKept (s t : MemoryState) : Prop :=
  ∀ k z, (catalog s).chunk k = some z → ∃ z', (catalog t).chunk k = some z' ∧
    ∀ n, (replicaOn z.replicas n).isSome → (replicaOn z'.replicas n).isSome

lemma TargetsHeld.keep (hs : TargetsHeld (catalog s)) (hkept : EntriesKept s t)
    (hplans : ∀ k p, (catalog t).plan k = some p → IsOpen p → (catalog s).plan k = some p) :
    TargetsHeld (catalog t) := by
  intro k p hp hopen
  obtain ⟨z, hz, hheld⟩ := hs k p (hplans k p hp hopen) hopen
  obtain ⟨z', hz', hentries⟩ := hkept p.chunkID z hz
  exact ⟨z', hz', hentries _ hheld⟩

lemma PlanMade.entriesKept (h : PlanMade s t plan chunk now) : EntriesKept s t := by
  intro k z hz
  have hchunks := congrArg Catalog.chunk h.catalog_eq
  dsimp only at hchunks
  by_cases hk : k = chunk.id
  · subst hk
    obtain rfl := Option.mem_unique h.stored hz
    refine ⟨_, hchunks ▸ update_self .., fun n hn => ?_⟩
    rw [replicaOn_made]
    split_ifs
    · rfl
    · exact hn
  · exact ⟨z, by rw [hchunks, update_of_ne hk, hz], fun _ hn => hn⟩

lemma RepairChange.entriesKept (h : RepairChange chunk s t) (hnamed : (catalog s).chunk "" = none) :
    EntriesKept s t := by
  obtain ⟨nodeIDs, now, -, hcopied⟩ := h.copied
  obtain ⟨z', -, -, -, hentries, heq⟩ := hcopied.catalog_eq (stored_id_ne hnamed hcopied.stored)
  have hchunks := congrArg Catalog.chunk heq
  dsimp only at hchunks
  intro k z hz
  by_cases hk : k = chunk.id
  · subst hk
    obtain rfl := Option.mem_unique hcopied.stored hz
    refine ⟨z', hchunks ▸ update_self .., fun n hn => ?_⟩
    rcases hentries n with hkept | ⟨-, replica, -, hnew⟩
    · rw [hkept]
      exact hn
    · rw [hnew]
      rfl
  · exact ⟨z, by rw [hchunks, update_of_ne hk, hz], fun _ hn => hn⟩

lemma RepairChange.plan_eq (h : RepairChange chunk s t) (hnamed : (catalog s).chunk "" = none) :
    (catalog t).plan = (catalog s).plan := by
  obtain ⟨nodeIDs, now, -, hcopied⟩ := h.copied
  obtain ⟨z', -, -, -, -, heq⟩ := hcopied.catalog_eq (stored_id_ne hnamed hcopied.stored)
  rw [heq]

lemma TargetsHeld.made (hs : TargetsHeld (catalog s)) (h : PlanMade s t plan chunk now) :
    TargetsHeld (catalog t) := by
  intro k p hp hopen
  rw [h.catalog_eq] at hp
  rcases update_some_eq_some.mp hp with ⟨rfl, rfl⟩ | ⟨-, hp⟩
  · obtain ⟨z', hz', -⟩ := h.entriesKept chunk.id chunk h.stored
    rw [← h.chunkID] at hz'
    obtain ⟨z, -, -, hheld⟩ := h.chunk_cases hz'
    exact ⟨z', hz', hheld rfl⟩
  · obtain ⟨z, hz, hheld⟩ := hs k p hp hopen
    obtain ⟨z', hz', hentries⟩ := h.entriesKept p.chunkID z hz
    exact ⟨z', hz', hentries _ hheld⟩

lemma TargetsHeld.finished (hr : TargetsHeld (catalog r)) (hsince : CleanedSince s r)
    (hapart : NoRelay (catalog s)) (hnamed : (catalog r).chunk "" = none) (hopen : IsOpen plan)
    (hready : HasReadyTarget r plan) (h : PlanFinished r t plan now) : TargetsHeld (catalog t) := by
  have hbefore {k : ReplicaPlanID} {p : ReplicaPlan} (hp : (catalog r).plan k = some p)
      (hopen : IsOpen p) :
      ∃ p0, (catalog s).plan k = some p0 ∧ SamePlan p0 p ∧ IsOpen p0 := by
    obtain ⟨p0, hp0, hsame, hstate | hdone⟩ := hsince.plans k p hp
    · exact ⟨p0, hp0, hsame, hopen.of_state hstate⟩
    · exact absurd hdone hopen.1
  obtain ⟨z, replicas, hz, hreplicas, -, heq⟩ := h.catalog_eq
  obtain ⟨y, hy, -⟩ := hr plan.id plan h.stored hopen
  have hid : plan.chunkID ≠ "" := stored_id_ne hnamed hy
  rw [findChunk_id hid] at hz
  have hzid := chunk_id hz
  intro k p hp hp_open
  rw [heq] at hp
  rcases update_some_eq_some.mp hp with ⟨rfl, rfl⟩ | ⟨hk, hp⟩
  · exact absurd rfl hp_open.1
  · obtain ⟨z1, hz1, hheld⟩ := hr k p hp hp_open
    by_cases hchunk : p.chunkID = plan.chunkID
    · obtain rfl : z = z1 := Option.some.inj (hz.symm.trans (hchunk ▸ hz1))
      refine ⟨_, by rw [heq, hchunk, ← hzid]; exact update_self .., ?_⟩
      rw [replicaOn_withoutReplica hreplicas, if_neg ?_]
      · exact hheld
      -- the plan that ends moves the replica on the target of the other: they were so before
      intro hsource
      obtain ⟨p0, hp0, hsame0, hopen0⟩ := hbefore h.stored hopen
      obtain ⟨q0, hq0, hsame, hq_open⟩ := hbefore hp hp_open
      obtain ⟨z0, hz0, hentries⟩ := hsince.entries plan.chunkID z hz
      obtain ⟨y, hy, hy_ready⟩ := hready
      rw [findChunk_id hid] at hy
      obtain rfl : z = y := Option.mem_unique hz hy
      obtain ⟨replica, hreplica, hstate⟩ := (Option.any_eq_true ..).mp hy_ready
      have hready0 : (replicaOn z0.replicas p0.targetNodeID).any (·.state = .ready) = true := by
        rw [← hsame0.target, hentries _ _ hreplica]
        exact hstate
      refine hapart plan.id k p0 q0 z0 hp0 hq0 (Ne.symm hk) hopen0 hq_open ?_ ?_ hready0 ?_
      · rw [← hsame0.chunkID, ← hsame.chunkID, hchunk]
      · rw [← hsame0.chunkID, hz0]
      · rw [← hsame0.source, ← hsame.target, hsource]
    · have hne : p.chunkID ≠ z.id := fun heq' => hchunk (heq'.trans hzid)
      exact ⟨z1, by rw [heq]; exact (update_of_ne hne ..).trans hz1, hheld⟩

lemma TargetsHeld.repairRun (hs : TargetsHeld (catalog s)) (hnamed : (catalog s).chunk "" = none)
    (h : RepairRun s t) : TargetsHeld (catalog t) := by
  induction h with
  | refl => exact hs
  | tail hbefore hstep ih =>
    obtain ⟨chunk, hchange⟩ := hstep
    have hnamed := RepairRun.named hbefore hnamed
    refine ih.keep (hchange.entriesKept hnamed) fun k p hp _ => ?_
    rwa [hchange.plan_eq hnamed] at hp

lemma isOpen_of_examined (h : c.examined.matches plan = true) : IsOpen plan := by
  simp only [ReplicaPlanFilter.matches, CleanupController.examined, Bool.and_eq_true] at h
  have hstate := h.1.1.1.1.2
  constructor
  · intro hdone
    rw [hdone] at hstate
    cases hstate
  · intro hfailed
    rw [hfailed] at hstate
    cases hstate

lemma TargetsHeld.cleanupRun (hs : TargetsHeld (catalog s)) (hnamed : (catalog s).chunk "" = none)
    (hapart : NoRelay (catalog s)) (hdirect : c.taskProducer = false) (h : CleanupRun c s t) :
    TargetsHeld (catalog t) := by
  induction h with
  | refl => exact hs
  | @tail r t hbefore hstep ih =>
    have hsince := cleanedSince_of_cleanupRun hdirect hbefore
    have hnamed : (catalog r).chunk "" = none := by
      cases hz : (catalog r).chunk "" with
      | none => rfl
      | some z' =>
        obtain ⟨z, hz, -⟩ := hsince.entries "" z' hz
        rw [hnamed] at hz
        cases hz
    obtain ⟨plan, hmatches, hchange⟩ := hstep
    cases hchange with
    | finished _ hready h =>
      exact ih.finished hsince hapart hnamed (isOpen_of_examined hmatches) hready h
    | noted h =>
      obtain ⟨patch, hstates, heq⟩ := h.catalog_eq
      intro k p hp hopen
      rw [heq] at hp ⊢
      rcases update_some_eq_some.mp hp with ⟨rfl, rfl⟩ | ⟨-, hp⟩
      · exact ih plan.id plan h.stored (isOpen_of_examined hmatches)
      · exact ih k p hp hopen

end Unattended

/-- Whole runs of controllers without a task producer, with heartbeats in between, from any
repository without plans. If cleanup never runs while one plan, whose target is ready, moves the
replica that another plan for the same chunk waits for, then the chunk of every open plan has a
replica on the plan's target. -/
theorem openPlans_hold_targets {history : List (World × RoundAction)} {w : World}
    (hrun : Run (fun w => (∀ k, (catalog w.store).plan k = none) ∧
      (catalog w.store).chunk "" = none) RoundStep history w)
    (hunattended : ∀ e ∈ history, Unattended e.2) (hapart : ∀ e ∈ history, CleansApart e.1 e.2) :
    ∀ k p, (catalog w.store).plan k = some p → p.state ≠ .done → p.state ≠ .failed →
      ∃ z, (catalog w.store).chunk p.chunkID = some z ∧
        (replicaOn z.replicas p.targetNodeID).isSome := by
  have hinv : (catalog w.store).chunk "" = none ∧ TargetsHeld (catalog w.store) := by
    refine hrun.invariant_of (C := fun w action => Unattended action ∧ CleansApart w action)
      (I := fun w => (catalog w.store).chunk "" = none ∧ TargetsHeld (catalog w.store))
      (fun e he => ⟨hunattended e he, hapart e he⟩) ?_ ?_
    · rintro w ⟨hempty, hnamed⟩
      refine ⟨hnamed, fun k p hp => ?_⟩
      rw [hempty k] at hp
      cases hp
    · rintro w action w' ⟨hnamed, hheld⟩ ⟨haction, hclean⟩ hstep
      refine ⟨named_of_unattended hnamed haction hstep, ?_⟩
      cases unattendedChange_of_step hnamed haction hstep with
      | kept hplan hchunk =>
        refine hheld.keep (fun k z hz => ⟨z, by rw [hchunk, hz], fun _ hn => hn⟩) ?_
        intro k p hp _
        rwa [hplan] at hp
      | planned h =>
        exact plannerRun_keeps (I := fun s => TargetsHeld (catalog s)) hheld h
          fun _ _ _ _ _ hr h => hr.made h
      | repaired h => exact hheld.repairRun hnamed h
      | cleaned hdirect h => exact hheld.cleanupRun hnamed hclean hdirect h
  exact fun k p hp hdone hfailed => hinv.2 k p hp ⟨hdone, hfailed⟩

def nothingReady (w : World) : RoundAction → Bool
  | .controller (.cleanup _) => w.store.replicaPlans.values.all fun p =>
    (w.store.chunks.lookup p.chunkID).all fun z =>
      !(replicaOn z.replicas p.targetNodeID).any (·.state = .ready)
  | _ => true

lemma cleansApart_of_nothingReady (h : nothingReady w action = true) : CleansApart w action := by
  cases action with
  | service action => trivial
  | controller run =>
    cases run with
    | cleanup c =>
      intro k k' p q z hp hq hne hopen hopen' hchunk hz hready
      have hnone := all_eq_true.mp h p (Records.mem_values.mpr (plan_id hp ▸ hp))
      have hz : w.store.chunks.lookup p.chunkID = some z := hz
      rw [hz, Option.all_some, hready] at hnone
      cases hnone
    | _ => trivial

/-- Cleanup comes before the copy is made, and then the copy is made. -/
theorem earlyCleanup_holds_target :
    ∃ history w p, Run (fun w => (∀ k, (catalog w.store).plan k = none) ∧
        (catalog w.store).chunk "" = none) RoundStep history w ∧
      (∀ e ∈ history, Unattended e.2) ∧ (∀ e ∈ history, CleansApart e.1 e.2) ∧
      (catalog w.store).plan "rebalance-k-n1-7" = some p ∧ p.state = .materialized ∧
      ∃ z, (catalog w.store).chunk p.chunkID = some z ∧
        (replicaOn z.replicas p.targetNodeID).isSome := by
  have hactions : [repairAlone, cleanupAlone, rebalanceAlone] ⊆
      [cleanupAlone, repairAlone] ++ brokenMove := by
    simp [brokenMove]
  obtain ⟨history, w, hrun, hunattended, hcheck⟩ := exists_of_crowdedHolder
    (P := fun w => (∀ k, (catalog w.store).plan k = none) ∧ (catalog w.store).chunk "" = none)
    ⟨fun _ => rfl, rfl⟩ hactions
    (by decide +kernel : (replay playRound id { store := crowdedHolder }
      [repairAlone, cleanupAlone, rebalanceAlone]).any (fun run =>
        (run.1.all fun e => nothingReady e.1 e.2) &&
          planIs "rebalance-k-n1-7" .materialized run.2) = true)
  rw [Bool.and_eq_true] at hcheck
  have hapart : ∀ e ∈ history, CleansApart e.1 e.2 :=
    fun e he => cleansApart_of_nothingReady (all_eq_true.mp hcheck.1 e he)
  obtain ⟨p, hp, hstate⟩ := exists_of_planIs hcheck.2
  refine ⟨history, w, p, hrun, hunattended, hapart, hp, hstate, ?_⟩
  refine openPlans_hold_targets hrun hunattended hapart _ p hp ?_ ?_
  · rw [hstate]
    exact ReplicaPlanState.noConfusion
  · rw [hstate]
    exact ReplicaPlanState.noConfusion

/-- The failover plan for the failed target of the move is carried out, and its cleanup takes away
the replica that the move waits for. -/
theorem brokenMove_loses_target :
    ∃ history w p z, Run (fun w => (∀ k, (catalog w.store).plan k = none) ∧
        (catalog w.store).chunk "" = none) RoundStep history w ∧
      (∀ e ∈ history, Unattended e.2) ∧
      (catalog w.store).plan "rebalance-k-n1-7" = some p ∧ p.state = .materialized ∧
      (catalog w.store).chunk p.chunkID = some z ∧
      replicaOn z.replicas p.targetNodeID = none := by
  obtain ⟨history, w, hrun, hunattended, hcheck⟩ := exists_of_crowdedHolder
    (P := fun w => (∀ k, (catalog w.store).plan k = none) ∧ (catalog w.store).chunk "" = none)
    ⟨fun _ => rfl, rfl⟩ (List.Subset.refl _)
    (by decide +kernel : (replay playRound id { store := crowdedHolder }
      ([cleanupAlone, repairAlone] ++ brokenMove)).any (fun run =>
        (run.2.store.replicaPlans.lookup "rebalance-k-n1-7").any fun p =>
          p.state = .materialized && (run.2.store.chunks.lookup p.chunkID).any fun z =>
            (replicaOn z.replicas p.targetNodeID).isNone) = true)
  obtain ⟨p, hp, hbad⟩ := (Option.any_eq_true ..).mp hcheck
  rw [Bool.and_eq_true, decide_eq_true_eq] at hbad
  obtain ⟨z, hz, hnone⟩ := (Option.any_eq_true ..).mp hbad.2
  exact ⟨history, w, p, z, hrun, hunattended, hp, hbad.1, hz, Option.isNone_iff_eq_none.mp hnone⟩

end AstraStorage.Proofs
