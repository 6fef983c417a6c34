import AstraStorage.Proofs.ControllerChanges
import AstraStorage.Proofs.LostCopies

/-!
# Plans that are taken back

A planner that cannot publish the task of a plan takes the plan and its pending replica back. The
chunk is as before only if its counters were right.
-/

namespace AstraStorage.Proofs
open Lib Prog Store Coordinator Allocator Option FailoverPlanner

def PublishFails (env : Environment) : Prop := ∀ task, ∃ message, env.publish task = .error message

inductive FailedPublish (w w' : World) (chunk : ChunkMetadata) : Prop
  | failover (f : FailoverPlanner) (nodeID : NodeID) (now : Time) (message : String)
      (hproducer : f.taskProducer = true) (hchunk : chunk ∈ chunksOn w.store nodeID)
      (hrun : (f.planChunkFailover chunk nodeID now).run.Runs (semanticsIn PublishFails) w
        (.error (.outside message)) w')
  | rebalance (r : RebalancePlanner) (source : NodeInfo) (targets : List NodeInfo)
      (move : RebalanceMove) (now : Time) (hproducer : r.taskProducer = true)
      (htargets : ∀ node ∈ targets, (catalog w.store).node node.id = some node)
      (hselect : (RebalancePlanner.selectReplicaToMove source targets).run.Runs
        coordinatorSemantics w (.ok (some move)) w) (hchunk : move.chunk = chunk)
      (hrun : (r.planReplicaMove move now).run.Runs (semanticsIn PublishFails) w (.ok ()) w')

structure Restored (s t : MemoryState) (chunk : ChunkMetadata) : Prop where
  plan_eq : (catalog t).plan = (catalog s).plan
  chunk_eq : ∃ z, (catalog t).chunk chunk.id = some z ∧
    z.replicas = chunk.replicas ∧ z.replicaCount = chunk.replicaCount ∧
    z.replicaPolicy = chunk.replicaPolicy

structure CountsReplicas (chunk : ChunkMetadata) : Prop where
  replicaCount : chunk.replicaCount = replicaLen chunk
  currentReplicaCount : chunk.replicaPolicy.currentReplicaCount = replicaLen chunk

section Events

variable {w w' : World} {chunk : ChunkMetadata} {now : Time}

lemma ensures_publish_fails (task : Task) :
    Ensures (semanticsIn PublishFails) w (publish task) (fun _ _ => False)
      (fun w' => w'.store = w.store) := by
  rintro r w' ⟨env, hfails, hstep⟩
  obtain ⟨message, hmessage⟩ := hfails task
  change env.perform (.publish task) w = some (r, w') at hstep
  simp only [Environment.perform, hmessage, some.injEq] at hstep
  cases hstep
  split
  · rfl
  · rfl

lemma ends_announce (f : FailoverPlanner) (hproducer : f.taskProducer = true)
    (hmade : PlanMade w.store w1.store plan chunk now) :
    Ends (semanticsIn PublishFails) w1 (f.announce plan chunk now) fun r w' =>
      ∀ message, r = .error (.outside message) → PlanRevoked w.store w'.store plan chunk now := by
  unfold announce
  rw [if_pos hproducer]
  refine Ends.bind (R := fun r w2 => w2.store = w1.store ∧ ∃ e, r = .ok (.error e)) ?_ ?_ ?_
  · refine Ends.attempt (ensures_publish_fails _) fun r w2 hr => ?_
    cases r with
    | ok a => cases hr
    | error e => exact ⟨hr, e, rfl⟩
  · rintro _ w2 ⟨hstore, e, ⟨⟩⟩
    refine Ends.bind (R := fun r w' => ∃ rolledBack, r = .ok rolledBack ∧
      ∀ a, rolledBack = .ok a → PlanRevoked w.store w'.store plan chunk now) ?_ ?_ ?_
    · refine Ends.attempt (ends_call semanticsIn_le (Q := fun r w' => ∀ a, r = .ok a →
        PlanRevoked w.store w'.store plan chunk now) ?_ nofun) fun r w' hr => ⟨r, rfl, hr⟩
      intro _ t hrun _ _
      exact ⟨w2.store, hstore ▸ hmade, hrun⟩
    · rintro _ w' ⟨_ | a, ⟨⟩, hr⟩
      · exact ends_throw nofun
      · exact ends_throw fun _ _ => hr a rfl
    · rintro _ _ ⟨_, ⟨⟩, _⟩
  · rintro _ _ ⟨-, _, ⟨⟩⟩

lemma ends_planChunkFailover (f : FailoverPlanner) (hproducer : f.taskProducer = true)
    (hchunk : chunk ∈ chunksOn w.store nodeID) :
    Ends (semanticsIn PublishFails) w (f.planChunkFailover chunk nodeID now) fun r w' =>
      ∀ message, r = .error (.outside message) →
        ∃ plan, PlanRevoked w.store w'.store plan chunk now := by
  obtain ⟨hz, hheld⟩ := mem_chunksOn.mp hchunk
  refine ends_read_bind semanticsIn_le rfl (fun file _ => ?_) nofun
  refine ends_read_bind semanticsIn_le rfl (fun nodes hnodes => ?_) nofun
  obtain rfl := (yields_listNodes.mp hnodes).1
  refine ends_ite (fun _ => ends_pure nofun) fun _ => ?_
  refine ends_read_bind semanticsIn_le rfl (fun active hactive => ?_) nofun
  refine ends_ite (fun _ => ends_pure nofun) fun hnone => ?_
  cases hselect : selectPlacementTargets
      (placementRequest chunk (allNodes w.store)) with
  | nil => exact ends_pure nofun
  | cons target rest =>
    have hwritten : Ends (semanticsIn PublishFails) w
        (materializePendingReplica
          (newPlan chunk nodeID target now) chunk now)
        fun r w1 => (∀ message, r ≠ .error (.outside message)) ∧ ∀ a, r = .ok a →
          PlanMade w.store w1.store (newPlan chunk nodeID target now) chunk now :=
      ends_call semanticsIn_le (fun _ t hrun => ⟨nofun, fun _ _ =>
        planMade_failover now hz hheld hactive hnone hselect hrun⟩) fun _ => ⟨nofun, nofun⟩
    refine hwritten.bind (fun a w1 hmade => ?_) fun e _ he message hmessage => ?_
    · refine (ends_announce f hproducer (hmade.2 a rfl)).mono fun r w' hr message hmessage => ?_
      exact ⟨_, hr message hmessage⟩
    · cases hmessage
      exact absurd rfl (he.1 message)

lemma ensures_planReplicaMove (r : RebalancePlanner) (hproducer : r.taskProducer = true)
    (hmove : Movable w.store source targets move)
    (htargets : ∀ node ∈ targets, (catalog w.store).node node.id = some node) :
    Ensures (semanticsIn PublishFails) w (r.planReplicaMove move now)
      (fun _ w' => ∃ plan, PlanRevoked w.store w'.store plan move.chunk now) fun _ => True := by
  have hwritten : Ensures (semanticsIn PublishFails) w
      (repo (.inTx (pendingReplicaWrites .secondary (RebalancePlanner.newPlan move now) move.chunk
        now)))
      (fun _ w1 => PlanMade w.store w1.store (RebalancePlanner.newPlan move now) move.chunk now)
      fun _ => True :=
    ensures_call semanticsIn_le (fun _ _ hrun => planMade_move now hmove htargets hrun) trivial
  refine hwritten.bind fun _ w1 hmade => ?_
  rw [if_pos hproducer]
  refine (ensures_publish_fails _).attempt.bind fun published w2 hw2 => ?_
  cases published with
  | ok _ => exact hw2.elim
  | error _ =>
    have hstore : w2.store = w1.store := hw2
    exact ensures_call semanticsIn_le (fun _ _ hrun => ⟨_, w2.store, hstore ▸ hmade, hrun⟩) trivial

lemma FailedPublish.revoked (h : FailedPublish w w' chunk) :
    ∃ plan now, PlanRevoked w.store w'.store plan chunk now := by
  cases h with
  | failover f nodeID now message hproducer hchunk hrun =>
    obtain ⟨plan, hplan⟩ :=
      (ends_planChunkFailover f hproducer hchunk).of_runs hrun message rfl
    exact ⟨plan, now, hplan⟩
  | rebalance r source targets move now hproducer htargets hselect hchunk hrun =>
    have hmove := wp_iff_runs.mp
      (ensures_selectReplicaToMove_movable id source targets) _ _ hselect
    obtain ⟨plan, hplan⟩ := wp_iff_runs.mp
      (ensures_planReplicaMove r hproducer (hmove.2 move rfl) htargets) _ _ hrun
    exact ⟨plan, now, hchunk ▸ hplan⟩

/-- The rollback writes the number of replicas into both counters and leaves the rest of the
policy alone. -/
theorem failedPublish_restores_iff (h : FailedPublish w w' chunk) :
    Restored w.store w'.store chunk ↔ CountsReplicas chunk := by
  obtain ⟨plan, now, hrevoked⟩ := h.revoked
  obtain ⟨r, hmade, -⟩ := hrevoked.made
  have hchunk : (catalog w'.store).chunk chunk.id =
      some ((rollbackPatch chunk plan.targetNodeID now).apply
        ((pendingPatch .secondary plan chunk now).apply chunk)) := by
    rw [hrevoked.catalog_eq]
    exact Function.update_self ..
  constructor
  · rintro ⟨-, z, hz, -, hcount, hpolicy⟩
    rw [hchunk] at hz
    obtain rfl := some.inj hz
    exact ⟨hcount.symm, congrArg ReplicaPolicy.currentReplicaCount hpolicy.symm⟩
  · rintro ⟨hcount, hcurrent⟩
    refine ⟨by rw [hrevoked.catalog_eq], _, hchunk, hmade.replicas_revoked, hcount.symm, ?_⟩
    change { chunk.replicaPolicy with currentReplicaCount := replicaLen chunk } = _
    rw [← hcurrent]

end Events

def silentBroker : Environment := { obliging with publish := fun _ => .error "no broker" }

def countedChunk (current : Int) : ChunkMetadata :=
  { lostChunk with replicaPolicy := { desiredReplicaCount := 2, currentReplicaCount := current } }

def countedLost (current : Int) : MemoryState :=
  { lostReplica with chunks := (∅ : Records ChunkMetadata.id).put (countedChunk current) }

def failedVisit (current : Int) : Option (String × World) :=
  match (planner.planChunkFailover (countedChunk current) "n1" silentBroker.now).run.execute
    silentBroker.perform { store := countedLost current } with
  | some (.error (.outside message), w) => some (message, w)
  | _ => none

lemma failedPublish_of_failedVisit (h : failedVisit current = some (message, w)) :
    FailedPublish { store := countedLost current } w (countedChunk current) := by
  unfold failedVisit at h
  split at h
  · rename_i hrun
    cases h
    refine .failover planner "n1" silentBroker.now message rfl (mem_chunksOn.mpr ⟨?_, rfl⟩)
      (runs_of_execute (fun _ _ _ _ hstep => ⟨silentBroker, ?_, hstep⟩) hrun)
    · rfl
    · exact fun _ => ⟨_, rfl⟩
  · cases h

theorem countedChunk_restored :
    ∃ w, FailedPublish { store := countedLost 2 } w (countedChunk 2) ∧
      CountsReplicas (countedChunk 2) ∧ Restored (countedLost 2) w.store (countedChunk 2) := by
  have hvisit : (failedVisit 2).isSome = true := by decide +kernel
  obtain ⟨⟨message, w⟩, hw⟩ := isSome_iff_exists.mp hvisit
  have hcounts : CountsReplicas (countedChunk 2) := ⟨by decide, by decide⟩
  have hfailed := failedPublish_of_failedVisit hw
  exact ⟨w, hfailed, hcounts, (failedPublish_restores_iff hfailed).mpr hcounts⟩

/-- The policy said that there are no replicas, and says two afterwards. -/
theorem uncountedChunk_not_restored :
    ∃ w z, FailedPublish { store := countedLost 0 } w (countedChunk 0) ∧
      (catalog w.store).chunk "k" = some z ∧ z.replicaPolicy.currentReplicaCount = 2 ∧
      ¬Restored (countedLost 0) w.store (countedChunk 0) := by
  have hvisit : (failedVisit 0).any (fun visit => (visit.2.store.chunks.lookup "k").any
      (·.replicaPolicy.currentReplicaCount = 2)) = true := by decide +kernel
  obtain ⟨⟨message, w⟩, hw, hchunk⟩ := (any_eq_true ..).mp hvisit
  obtain ⟨z, hz, hcurrent⟩ := (any_eq_true ..).mp hchunk
  have hcurrent : z.replicaPolicy.currentReplicaCount = 2 := of_decide_eq_true hcurrent
  refine ⟨w, z, failedPublish_of_failedVisit hw, hz, hcurrent, ?_⟩
  rintro ⟨-, z', hz', -, -, hpolicy⟩
  obtain rfl : z = z' := mem_unique hz hz'
  rw [hpolicy] at hcurrent
  exact absurd hcurrent (by decide)

end AstraStorage.Proofs
