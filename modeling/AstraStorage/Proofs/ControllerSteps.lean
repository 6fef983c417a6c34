import AstraStorage.Proofs.PlanWrites

/-!
# The steps that the controllers ask for

Whatever the answers are, a planner only creates plans and takes them back, the repairer only
writes replicas, and every update of a plan leaves its state alone or moves it to `cleanupReady`
or `done`.
-/

namespace AstraStorage.Proofs
open Lib Prog Store Coordinator List

variable {o : CoordinatorOp} {call : RepositoryCall} {chunk : ChunkMetadata} {now : Time}
  {k : ReplicaPlanID} {plan : ReplicaPlan}

def Planning (seen : ChunkMetadata → Prop) : CoordinatorOp → Prop
  | .repo call => ∀ w ∈ writesOf call, match w with
    | .createReplicaPlan plan =>
      plan.state = .materialized ∧ (plan.type = .failover ∨ plan.type = .rebalance) ∧
        ∃ chunk, seen chunk ∧ plan.chunkID = chunk.id ∧ plan.fileID = chunk.fileID
    | .updateChunkReplicas _ => True
    | .deleteReplicaPlan _ => True
    | _ => False
  | .deleteReplica .. => False
  | .receive _ => False
  | .acknowledge _ => False
  | .service .. => False
  | _ => True

def Repairing : CoordinatorOp → Prop
  | .repo call => ∀ w ∈ writesOf call, ∃ patch, w = .updateChunkReplicas patch
  | .deleteReplica .. => False
  | .receive _ => False
  | .acknowledge _ => False
  | .service .. => False
  | _ => True

def PlanWrite : Write → Prop
  | .updateReplicaPlan patch =>
    patch.state = none ∨ patch.state = some .cleanupReady ∨ patch.state = some .done
  | _ => True

def Cleaning (k : ReplicaPlanID) (states : List ReplicaPlanState) : CoordinatorOp → Prop
  | .repo call => ∀ w ∈ writesOf call, match w with
    | .updateReplicaPlan patch => patch.id = k ∧ ∀ state ∈ patch.state, state ∈ states
    | .removeChunkReplica .. => True
    | _ => False
  | .receive _ => False
  | .acknowledge _ => False
  | .service .. => False
  | _ => True

/-- Steps of any activity. -/
def Asked : CoordinatorOp → Prop
  | .repo call => ∀ w ∈ writesOf call, PlanWrite w
  | .service _ call => ∃ req, call = .heartbeatNode req
  | _ => True

def Sparing : CoordinatorOp → Prop
  | .repo call => ∀ w ∈ writesOf call, ∀ selector nodeID now,
      w ≠ .removeChunkReplica selector nodeID now
  | .deleteReplica .. => False
  | _ => True

lemma Planning.asked (h : Planning seen o) : Asked o := by
  cases o with
  | repo call =>
    intro w hw
    have hplan := h w hw
    cases w with
    | updateReplicaPlan patch => exact hplan.elim
    | _ => trivial
  | service now call => exact h.elim
  | _ => trivial

lemma Planning.sparing (h : Planning seen o) : Sparing o := by
  cases o with
  | repo call =>
    rintro w hw selector nodeID now rfl
    exact h _ hw
  | deleteReplica node chunkID => exact h.elim
  | _ => trivial

lemma Repairing.sparing (h : Repairing o) : Sparing o := by
  cases o with
  | repo call =>
    rintro w hw selector nodeID now rfl
    obtain ⟨patch, ⟨⟩⟩ := h _ hw
  | deleteReplica node chunkID => exact h.elim
  | _ => trivial

lemma Repairing.asked (h : Repairing o) : Asked o := by
  cases o with
  | repo call =>
    intro w hw
    obtain ⟨patch, rfl⟩ := h w hw
    trivial
  | service now call => exact h.elim
  | _ => trivial

lemma Cleaning.asked (h : Cleaning k [.cleanupReady, .done] o) : Asked o := by
  cases o with
  | repo call =>
    intro w hw
    have hclean := h w hw
    cases w with
    | updateReplicaPlan patch =>
      cases hstate : patch.state with
      | none => exact .inl hstate
      | some state =>
        have hmem := hclean.2 state hstate
        rw [mem_pair] at hmem
        rcases hmem with rfl | rfl
        · exact .inr (.inl hstate)
        · exact .inr (.inr hstate)
    | _ => trivial
  | service now call => exact h.elim
  | _ => trivial

lemma Cleaning.mono (h : Cleaning k states o)
    (hstates : states ⊆ states') : Cleaning k states' o := by
  cases o with
  | repo call =>
    intro w hw
    have hclean := h w hw
    cases w with
    | updateReplicaPlan patch =>
      exact ⟨hclean.1, fun state hstate => hstates (hclean.2 state hstate)⟩
    | _ => exact hclean
  | _ => exact h

section Rules

variable {α : Type}

lemma asks_step (h : ok o) : AsksOnly ok (step o) :=
  asksOnly_of_asks ⟨h, fun _ => trivial⟩

lemma asks_step_bind (h : ok o) (hf : ∀ r, AsksOnly ok (f r)) :
    AsksOnly ok (step o >>= f) :=
  (asks_step h).bind hf

lemma asks_fallible {ε : Type} {x : CoordinatorM (Except ε α)}
    {error : ε → CoordinatorError} (hx : AsksOnly ok x) :
    AsksOnly ok (fallible x error) := by
  refine hx.bind fun r => ?_
  cases r with
  | ok a => exact asksOnly_pure
  | error e => exact asksOnly_throw

lemma asks_repo (h : ok (.repo call)) : AsksOnly ok (repo call) :=
  asks_fallible (asks_step h)

variable {sem : Semantics coordinatorSteps World} {w : World}

lemma ensures_step (h : ∀ r w', sem o w r w' → Q r w') : Ensures sem w (step o) Q E := h

lemma ensures_repo (hok : ∀ a w', sem (.repo call) w (.ok a) w' → Q a w')
    (herr : ∀ e w', sem (.repo call) w (.error e) w' → E w') : Ensures sem w (repo call) Q E := by
  rintro (e | a) w' hr
  · exact herr e w' hr
  · exact hok a w' hr

lemma semanticsIn_le (h : semanticsIn envs o w r w') : coordinatorSemantics o w r w' := by
  obtain ⟨env, -, h⟩ := h
  exact ⟨env, h⟩

lemma le_semanticsIn (h : coordinatorSemantics o w r w') :
    semanticsIn (fun _ => True) o w r w' := by
  obtain ⟨env, h⟩ := h
  exact ⟨env, trivial, h⟩

variable (hsem : ∀ {o w r w'}, sem o w r w' → coordinatorSemantics o w r w')
include hsem

lemma ensures_timeNow (h : ∀ now, Q now w) : Ensures sem w timeNow Q E := by
  intro now w' hnow
  obtain ⟨env, ⟨⟩⟩ := hsem hnow
  exact h env.now

lemma ensures_call (hok : ∀ a s, Yields call.run w.store a s → Q a { w with store := s })
    (herr : E w) : Ensures sem w (repo call) Q E := by
  apply ensures_repo
  · intro a w' hcall
    obtain ⟨env, h⟩ := hsem hcall
    rcases perform_repo h with ⟨e, he, -⟩ | ⟨b, s, hb, hrun, rfl⟩
    · cases he
    · cases hb
      exact hok a s hrun
  · intro e w' hcall
    obtain ⟨env, h⟩ := hsem hcall
    rcases perform_repo h with ⟨e, -, rfl⟩ | ⟨b, s, hb, -⟩
    · exact herr
    · cases hb

lemma ensures_read (hread : writesOf call = [])
    (hok : ∀ a, Yields call.run w.store a w.store → Q a w) (herr : E w) :
    Ensures sem w (repo call) Q E := by
  refine ensures_call hsem (fun a s hrun => ?_) herr
  obtain rfl := yields_read hread hrun
  exact hok a hrun

lemma ensures_yields {a : call.Result} (h : Yields call.run w.store a s)
    (hQ : Q a { w with store := s }) : Ensures sem w (repo call) Q E := by
  apply ensures_repo
  · intro b w' hcall
    obtain ⟨env, hb⟩ := hsem hcall
    rcases perform_repo hb with ⟨e, he, -⟩ | ⟨a', s', ha', hrun, rfl⟩
    · cases he
    · cases ha'
      obtain ⟨rfl, rfl⟩ := h.unique hrun
      exact hQ
  · intro e w' hcall
    obtain ⟨env, he⟩ := hsem hcall
    change env.perform (.repo call) w = some (.error e, w') at he
    unfold Yields at h
    simp only [Environment.perform, h, Option.some.injEq] at he
    cases he

lemma ensures_timeNow_bind (h : ∀ now, Ensures sem w (f now) R E) :
    Ensures sem w (timeNow >>= f) R E := by
  refine (ensures_timeNow hsem fun _ => rfl).bind ?_
  rintro now _ rfl
  exact h now

lemma ensures_read_bind (hread : writesOf call = [])
    (hok : ∀ a, Yields call.run w.store a w.store → Ensures sem w (f a) R E) (herr : E w) :
    Ensures sem w (repo call >>= f) R E := by
  refine (ensures_read hsem hread
    (Q := fun a w' => Yields call.run w.store a w.store ∧ w' = w) (fun _ h => ⟨h, rfl⟩) herr).bind ?_
  rintro a _ ⟨h, rfl⟩
  exact hok a h

lemma ensures_yields_bind (h : Yields call.run w.store a s)
    (hf : Ensures sem { w with store := s } (f a) R E) : Ensures sem w (repo call >>= f) R E := by
  refine (ensures_yields hsem h
    (Q := fun b w' => b = a ∧ w' = { w with store := s }) ⟨rfl, rfl⟩).bind ?_
  rintro _ _ ⟨rfl, rfl⟩
  exact hf

lemma ensures_publish (hok : Q () { w with tasks := task :: w.tasks })
    (herr : ∀ tasks, w.tasks ⊆ tasks → E { w with tasks := tasks }) :
    Ensures sem w (publish task) Q E := by
  intro r w' hstep
  obtain ⟨env, hr⟩ := hsem hstep
  change env.perform (.publish task) w = some (r, w') at hr
  unfold Environment.perform at hr
  dsimp only at hr
  split at hr
  · cases hr
    exact hok
  · cases hr
    split
    · exact herr _ (subset_cons_self ..)
    · exact herr _ (List.Subset.refl _)

lemma ends_call (hok : ∀ a s, Yields call.run w.store a s → Q (.ok a) { w with store := s })
    (herr : ∀ fault, Q (.error (.store fault)) w) : Ends sem w (repo call) Q := by
  rintro (e | a) w' hcall
  · obtain ⟨env, h⟩ := hsem hcall
    rcases perform_repo h with ⟨e', he, rfl⟩ | ⟨b, s, hb, -⟩
    · exact herr e
    · cases hb
  · obtain ⟨env, h⟩ := hsem hcall
    rcases perform_repo h with ⟨e, he, -⟩ | ⟨b, s, hb, hrun, rfl⟩
    · cases he
    · cases hb
      exact hok a s hrun

lemma ends_read_bind (hread : writesOf call = [])
    (hok : ∀ a, Yields call.run w.store a w.store → Ends sem w (f a) Q)
    (herr : ∀ fault, Q (.error (.store fault)) w) : Ends sem w (repo call >>= f) Q := by
  refine (ends_call hsem (Q := fun r w' => w' = w ∧ match r with
    | .ok a => Yields call.run w.store a w.store
    | .error e => ∃ fault, e = .store fault) (fun a s hrun => ?_) fun fault => ?_).bind ?_ ?_
  · obtain rfl := yields_read hread hrun
    exact ⟨rfl, hrun⟩
  · exact ⟨rfl, fault, rfl⟩
  · rintro a _ ⟨rfl, hrun⟩
    exact hok a hrun
  · rintro _ _ ⟨rfl, fault, rfl⟩
    exact herr fault

end Rules

section Planners

variable {seen : ChunkMetadata → Prop}

lemma planning_read (h : writesOf call = []) : AsksOnly (Planning seen) (repo call) := by
  apply asks_repo
  intro w hw
  rw [h] at hw
  exact absurd hw not_mem_nil

lemma planning_publish : AsksOnly (Planning seen) (publish task) :=
  asks_fallible (asks_step trivial)

lemma planning_pending (hseen : seen chunk) (hstate : plan.state = .materialized)
    (htype : plan.type = .failover ∨ plan.type = .rebalance) (hchunk : plan.chunkID = chunk.id)
    (hfile : plan.fileID = chunk.fileID) :
    AsksOnly (Planning seen) (repo (.inTx (pendingReplicaWrites role plan chunk now))) := by
  apply asks_repo
  rintro v (_ | ⟨_, _ | ⟨_, ⟨⟩⟩⟩)
  · exact ⟨hstate, htype, chunk, hseen, hchunk, hfile⟩
  · trivial

lemma planning_rollback :
    AsksOnly (Planning seen) (repo (.inTx (rollbackWrites planID chunk target now))) := by
  apply asks_repo
  rintro v (_ | ⟨_, _ | ⟨_, ⟨⟩⟩⟩) <;> trivial

lemma planning_announce (f : FailoverPlanner) (plan : ReplicaPlan) (chunk : ChunkMetadata)
    (now : Time) : AsksOnly (Planning seen) (f.announce plan chunk now) := by
  refine AsksOnly.ite ?_ asksOnly_pure
  refine planning_publish.attempt.bind fun r => ?_
  cases r with
  | ok _ => exact asksOnly_pure
  | error err =>
    refine planning_rollback.attempt.bind fun r => ?_
    cases r with
    | ok _ | error _ => exact asksOnly_throw

lemma planning_planChunkFailover (f : FailoverPlanner) (nodeID : NodeID) (now : Time)
    (hseen : seen chunk) :
    AsksOnly (Planning seen) (f.planChunkFailover chunk nodeID now) := by
  refine (planning_read rfl).bind fun file => ?_
  refine (planning_read rfl).bind fun nodes => ?_
  refine AsksOnly.ite asksOnly_pure ?_
  refine (planning_read rfl).bind fun active => ?_
  refine AsksOnly.ite asksOnly_pure ?_
  cases Allocator.selectPlacementTargets (FailoverPlanner.placementRequest chunk nodes) with
  | nil => exact asksOnly_pure
  | cons target _ =>
    refine (planning_pending hseen rfl (.inl rfl) rfl rfl).bind fun _ => ?_
    exact planning_announce f _ _ _

lemma planning_planChunks (f : FailoverPlanner) (nodeID : NodeID) (now : Time) (remaining : Int)
    (hseen : ∀ chunk ∈ chunks, seen chunk) :
    AsksOnly (Planning seen) (f.planChunks nodeID now chunks remaining) := by
  induction chunks generalizing remaining with
  | nil => exact asksOnly_pure
  | cons chunk chunks ih =>
    obtain ⟨hchunk, hrest⟩ := forall_mem_cons.mp hseen
    refine AsksOnly.ite asksOnly_pure ?_
    refine (planning_planChunkFailover f nodeID now hchunk).bind fun planned => ?_
    exact AsksOnly.ite ((ih _ hrest).bind fun _ => asksOnly_pure) (ih _ hrest)

lemma planning_planReplicaMove (r : RebalancePlanner) (now : Time) (hseen : seen move.chunk) :
    AsksOnly (Planning seen) (r.planReplicaMove move now) := by
  refine (planning_pending hseen rfl (.inr rfl) rfl rfl).bind fun _ => ?_
  refine AsksOnly.ite ?_ asksOnly_pure
  refine planning_publish.attempt.bind fun r => ?_
  cases r with
  | ok _ => exact asksOnly_pure
  | error _ => exact planning_rollback

lemma planning_selectMove (source : NodeInfo) (targets allNodes : List NodeInfo)
    (chunks : List ChunkMetadata) :
    AsksOnly (Planning seen)
      (RebalancePlanner.selectMove source targets allNodes chunks) := by
  induction chunks with
  | nil => exact asksOnly_pure
  | cons chunk chunks ih =>
    refine (planning_read rfl).bind fun active => ?_
    refine AsksOnly.ite ih (AsksOnly.ite ih ?_)
    cases Allocator.selectPlacementTargets (RebalancePlanner.placementRequest chunk targets) with
    | nil => exact ih
    | cons target _ => exact asksOnly_pure

end Planners

section AnyChunk

lemma planning_planNodes (f : FailoverPlanner) (now : Time) (nodes : List NodeInfo)
    (remaining : Int) :
    AsksOnly (Planning fun _ => True) (f.planNodes now nodes remaining) := by
  induction nodes generalizing remaining with
  | nil => exact asksOnly_pure
  | cons node nodes ih =>
    refine AsksOnly.ite asksOnly_pure ?_
    refine AsksOnly.bind ?_ fun planned => ih _
    refine (planning_read rfl).bind fun chunks => ?_
    exact planning_planChunks f node.id now remaining fun _ _ => trivial

lemma planning_failover (f : FailoverPlanner) : AsksOnly (Planning fun _ => True) f.planOnce := by
  refine asks_step_bind trivial fun now => ?_
  refine AsksOnly.bind ?_ fun nodes => planning_planNodes f now nodes _
  exact (planning_read rfl).bind fun nodes => asksOnly_pure

lemma planning_planSources (r : RebalancePlanner) (underfull : List NodeInfo) (now : Time)
    (overfull : List NodeInfo) (remaining : Int) :
    AsksOnly (Planning fun _ => True) (r.planSources underfull now overfull remaining) := by
  induction overfull generalizing remaining with
  | nil => exact asksOnly_pure
  | cons source overfull ih =>
    refine AsksOnly.ite asksOnly_pure ?_
    refine AsksOnly.bind ?_ fun move => ?_
    · refine (planning_read rfl).bind fun chunks => (planning_read rfl).bind fun nodes => ?_
      exact planning_selectMove source underfull nodes chunks
    · cases move with
      | none => exact ih _
      | some move => exact (planning_planReplicaMove r now trivial).bind fun _ => ih _

lemma planning_rebalance (r : RebalancePlanner) : AsksOnly (Planning fun _ => True) r.planOnce := by
  refine asks_step_bind trivial fun now => (planning_read rfl).bind fun nodes => ?_
  exact planning_planSources r _ now _ _

end AnyChunk

lemma repairing_read (h : writesOf call = []) : AsksOnly Repairing (repo call) := by
  apply asks_repo
  intro w hw
  rw [h] at hw
  exact absurd hw not_mem_nil

lemma repairing_publish : AsksOnly Repairing (publish task) :=
  asks_fallible (asks_step trivial)

lemma repairing_write : AsksOnly Repairing (repo (.write (.updateChunkReplicas patch))) := by
  apply asks_repo
  intro w hw
  exact ⟨patch, mem_singleton.mp hw⟩

section Repairer

variable (r : PendingReplicaRepairer)

lemma repairing_recordResults (chunk : ChunkMetadata) (now : Time)
    (results : List ReplicaWriteResult) (targets : List ReplicaTarget) (outcome : RepairOutcome)
    (upserts : Table NodeID ReplicaMetadata) :
    AsksOnly Repairing (r.recordResults chunk now results targets outcome upserts) := by
  induction targets generalizing outcome upserts with
  | nil => exact asksOnly_pure
  | cons target targets ih =>
    refine AsksOnly.ite ?_ ?_
    · exact asks_step_bind trivial fun _ => ih _ _
    · exact asks_step_bind trivial fun _ => ih _ _

lemma repairing_recordSkipped (chunk : ChunkMetadata) (now : Time) (nodeIDs : List NodeID)
    (outcome : RepairOutcome) (upserts : Table NodeID ReplicaMetadata) :
    AsksOnly Repairing (r.recordSkipped chunk now nodeIDs outcome upserts) := by
  induction nodeIDs generalizing outcome upserts with
  | nil => exact asksOnly_pure
  | cons nodeID nodeIDs ih => exact asks_step_bind trivial fun _ => ih _ _

lemma repairing_giveUp (chunk : ChunkMetadata) (targets : List NodeID) (now : Time)
    (attempted : Int) (err : Option CoordinatorError) :
    AsksOnly Repairing (r.giveUp chunk targets now attempted err) :=
  asks_step_bind trivial fun _ => asksOnly_pure

lemma repairing_executeReplicaCopy (now : Time) (chunk : ChunkMetadata) (source : NodeID)
    (targets : List NodeID) :
    AsksOnly Repairing (r.executeReplicaCopy now chunk source targets) := by
  refine (repairing_read rfl).attempt.bind fun found => ?_
  cases found with
  | error err => exact repairing_giveUp r _ _ _ _ _
  | ok sourceNode =>
    refine AsksOnly.ite (repairing_giveUp r _ _ _ _ _) ?_
    refine AsksOnly.bind (AsksOnly.attempt ?_) fun found => ?_
    · exact asksOnly_mapM fun nodeID => (repairing_read rfl).bind fun _ => asksOnly_pure
    · cases found with
      | error err => exact repairing_giveUp r _ _ _ _ _
      | ok nodes =>
        refine AsksOnly.ite (repairing_giveUp r _ _ _ _ _) ?_
        refine AsksOnly.bind (asks_fallible (asks_step trivial)).attempt fun answer => ?_
        cases answer with
        | error err => exact repairing_giveUp r _ _ _ _ _
        | ok results =>
          refine (repairing_recordResults r _ _ _ _ _ _).bind fun recorded => ?_
          refine (repairing_recordSkipped r _ _ _ _ _).bind fun recorded => ?_
          refine AsksOnly.bind repairing_write.attempt fun written => ?_
          cases written with
          | ok _ | error _ => exact asksOnly_pure

lemma repairing_publishRepairs (now : Time) (chunk : ChunkMetadata) (source : NodeID)
    (targets : List NodeID) (outcome : RepairOutcome) :
    AsksOnly Repairing (r.publishRepairs now chunk source targets outcome) := by
  induction targets generalizing outcome with
  | nil => exact asksOnly_pure
  | cons target targets ih =>
    refine repairing_publish.attempt.bind fun published => ?_
    cases published with
    | error err => exact asks_step_bind trivial fun _ => asksOnly_pure
    | ok _ => exact asks_step_bind trivial fun _ => ih _

lemma repairing_repairChunk (now : Time) (chunk : ChunkMetadata) (remaining : Int) :
    AsksOnly Repairing (r.repairChunk now chunk remaining) := by
  refine AsksOnly.ite asksOnly_pure ?_
  refine asks_step_bind trivial fun targets => ?_
  refine AsksOnly.ite asksOnly_pure ?_
  exact AsksOnly.ite (repairing_publishRepairs r _ _ _ _ _) (repairing_executeReplicaCopy r _ _ _ _)

lemma repairing_repairChunks (now : Time) (chunks : List ChunkMetadata) (remaining : Int)
    (firstErr : Option CoordinatorError) :
    AsksOnly Repairing (r.repairChunks now chunks remaining firstErr) := by
  induction chunks generalizing remaining firstErr with
  | nil => exact asksOnly_pure
  | cons chunk chunks ih =>
    refine AsksOnly.ite asksOnly_pure ?_
    exact (repairing_repairChunk r now chunk remaining).bind fun _ => ih _ _

lemma repairing_repairFiles (now : Time) (files : List FileMetadata) (remaining : Int)
    (firstErr : Option CoordinatorError) :
    AsksOnly Repairing (r.repairFiles now files remaining firstErr) := by
  induction files generalizing remaining firstErr with
  | nil => exact asksOnly_pure
  | cons file files ih =>
    refine AsksOnly.ite asksOnly_pure ?_
    refine (repairing_read rfl).attempt.bind fun listed => ?_
    cases listed with
    | error err => exact ih _ _
    | ok chunks => exact (repairing_repairChunks r now chunks _ _).bind fun _ => ih _ _

lemma repairing_repair : AsksOnly Repairing r.repairOnce := by
  refine (repairing_read rfl).bind fun files => asks_step_bind trivial fun now => ?_
  refine (repairing_repairFiles r now files _ _).bind fun firstErr => ?_
  cases firstErr with
  | none => exact asksOnly_pure
  | some err => exact asksOnly_throw

lemma repairing_executeReplicaRepair (task : ReplicaRepairTask) :
    AsksOnly Repairing (r.executeReplicaRepair task) := by
  refine (repairing_read rfl).bind fun chunk => asks_step_bind trivial fun now => ?_
  refine (repairing_executeReplicaCopy r now chunk _ _).bind fun copied => ?_
  obtain ⟨_, _ | err⟩ := copied
  · exact asksOnly_pure
  · exact asksOnly_throw

end Repairer

section Cleanup

variable {states : List ReplicaPlanState}

lemma cleaning_read (h : writesOf call = []) : AsksOnly (Cleaning k states) (repo call) := by
  apply asks_repo
  intro w hw
  rw [h] at hw
  exact absurd hw not_mem_nil

lemma cleaning_update (hid : patch.id = k) (h : ∀ state ∈ patch.state, state ∈ states) :
    AsksOnly (Cleaning k states) (repo (.write (.updateReplicaPlan patch))) := by
  apply asks_repo
  intro v hv
  rw [mem_singleton.mp hv]
  exact ⟨hid, h⟩

lemma cleaning_finish : AsksOnly (Cleaning plan.id [.done])
      (repo (.inTx (CleanupController.finishWrites plan now))) := by
  apply asks_repo
  rintro v (_ | ⟨_, _ | ⟨_, ⟨⟩⟩⟩)
  · trivial
  · exact ⟨rfl, fun state hstate => Option.mem_some.mp hstate ▸ mem_singleton_self _⟩

lemma cleaning_cleanupReady :
    AsksOnly (Cleaning planID [.cleanupReady]) (repo (.write (.updateReplicaPlan
      { id := planID, state := some .cleanupReady, updatedAt := now }))) :=
  cleaning_update rfl fun state hstate => by simpa using hstate.symm

variable (c : CleanupController)

lemma cleaning_failOrRetryPlan (plan : ReplicaPlan) (err : CoordinatorError) (now : Time) :
    AsksOnly (Cleaning plan.id []) (c.failOrRetryPlan plan err now) :=
  cleaning_update rfl fun _ hstate => (Option.not_mem_none _ hstate).elim

lemma cleaning_deleteOrRetry (plan : ReplicaPlan) (now : Time) :
    AsksOnly (Cleaning plan.id [.done]) (c.deleteOrRetry plan now) := by
  refine AsksOnly.bind (AsksOnly.attempt ?_) fun deleted => ?_
  · refine (cleaning_read rfl).bind fun node => ?_
    refine (asks_fallible (asks_step trivial)).bind fun status => ?_
    exact AsksOnly.ite asksOnly_throw cleaning_finish
  · cases deleted with
    | ok _ => exact asksOnly_pure
    | error err =>
      exact (cleaning_failOrRetryPlan c plan err now).mono fun _ h => h.mono (nil_subset _)

lemma cleaning_finalizeCompletedPlan (plan : ReplicaPlan) (now : Time) :
    AsksOnly (Cleaning plan.id [.cleanupReady, .done])
      (c.finalizeCompletedPlan plan now) := by
  refine (cleaning_read rfl).bind fun chunk => ?_
  refine AsksOnly.ite asksOnly_pure (AsksOnly.ite ?_ ?_)
  · refine AsksOnly.ite asksOnly_pure ?_
    refine (asks_fallible (asks_step trivial)).attempt.bind fun published => ?_
    cases published with
    | error err =>
      exact (cleaning_failOrRetryPlan c plan err now).mono fun _ h => h.mono (nil_subset _)
    | ok _ => exact cleaning_cleanupReady.mono fun _ h => h.mono (by simp)
  · split
    · exact cleaning_finish.mono fun _ h => h.mono (by simp)
    · exact (cleaning_deleteOrRetry c plan now).mono fun _ h => h.mono (by simp)
    · exact asksOnly_pure

end Cleanup

lemma copying_read (h : writesOf call = []) :
    AsksOnly (fun o => Asked o ∧ Sparing o) (repo call) := by
  apply asks_repo
  constructor <;> (intro w hw; rw [h] at hw; exact absurd hw not_mem_nil)

lemma asked_read (h : writesOf call = []) : AsksOnly Asked (repo call) :=
  (copying_read h).mono fun _ => And.left

section Deliveries

variable (r : PendingReplicaRepairer) (c : CleanupController)

lemma copying_executeReplicaPlanCopy (planID : ReplicaPlanID) :
    AsksOnly (fun o => Asked o ∧ Sparing o) (r.executeReplicaPlanCopy planID) := by
  refine (copying_read rfl).bind fun plan => (copying_read rfl).bind fun chunk => ?_
  refine (copying_read rfl).bind fun nodes => ?_
  refine AsksOnly.bind ?_ fun source => asks_step_bind ⟨trivial, trivial⟩ fun now => ?_
  · refine AsksOnly.ite asksOnly_pure ?_
    dsimp only
    split
    · exact asksOnly_throw
    · exact asksOnly_pure
  · refine ((repairing_executeReplicaCopy r now chunk source _).mono
      fun _ h => ⟨h.asked, h.sparing⟩).bind fun copied => ?_
    obtain ⟨outcome, _ | err⟩ := copied
    · refine AsksOnly.ite asksOnly_throw (asks_repo ?_)
      constructor <;> rintro v (_ | ⟨_, ⟨⟩⟩)
      · exact .inr (.inl rfl)
      · exact nofun
    · exact asksOnly_throw

lemma asked_cleanup : AsksOnly Asked c.cleanupOnce := by
  refine asks_step_bind trivial fun now => (asked_read rfl).bind fun plans => ?_
  refine asksOnly_forM fun plan _ => ?_
  exact (cleaning_finalizeCompletedPlan c plan now).mono fun _ => Cleaning.asked

lemma asked_executeCleanup (task : CleanupTask) : AsksOnly Asked (c.executeCleanup task) := by
  refine (asked_read rfl).bind fun plan => asks_step_bind trivial fun now => ?_
  split
  · exact cleaning_finish.mono fun _ h => (h.mono (by simp)).asked
  · exact (cleaning_deleteOrRetry c plan now).mono fun _ h => (h.mono (by simp)).asked
  · exact asksOnly_throw

lemma asked_handle (task : Task) : AsksOnly Asked (handle r c task) := by
  cases task with
  | replicaRepair task =>
    exact (repairing_executeReplicaRepair r task).mono fun _ => Repairing.asked
  | cleanup task => exact asked_executeCleanup c task
  | rebalance task | failover task =>
    exact (copying_executeReplicaPlanCopy r task.planID).mono fun _ => And.left

lemma asked_deliver (task : Task) : AsksOnly Asked (deliver r c task) :=
  asks_step_bind trivial fun _ => (asked_handle r c task).bind fun _ => asks_step trivial

end Deliveries

theorem asked_program (activity : Activity) : AsksOnly Asked activity.program := by
  cases activity with
  | controller run =>
    cases run with
    | failover f => exact (planning_failover f).mono fun _ => Planning.asked
    | rebalance r => exact (planning_rebalance r).mono fun _ => Planning.asked
    | repair r => exact (repairing_repair r).mono fun _ => Repairing.asked
    | cleanup c => exact asked_cleanup c
  | delivery r c task => exact asked_deliver r c task
  | heartbeat now req => exact asks_step ⟨req, rfl⟩

end AstraStorage.Proofs
