import AstraStorage.Proofs.DanglingPlans

/-!
# Plans that wait for nobody

With a task producer the progress of a plan is handed over through its state. The copy of a plan
goes to `cleanupReady` without publishing a cleanup task, and a cleanup task whose deletion fails is
acknowledged all the same.
-/

namespace AstraStorage.Proofs
open Lib Prog Store Coordinator Allocator List

variable {sem : Semantics coordinatorSteps World} {w w' : World} {results : List ReplicaWriteResult}
  {planID k : ReplicaPlanID} {p : ReplicaPlan} {tasks known : List Task} {action : ActivityAction}
  {s : MemoryState} {envs : Environment → Prop}

def HasCleanupTask (tasks : List Task) (k : ReplicaPlanID) : Prop :=
  ∃ task, Task.cleanup task ∈ tasks ∧ task.planID = k

def Tracked (tasks : List Task) (k : ReplicaPlanID) (p : ReplicaPlan) : Prop :=
  isTerminalReplicaPlanState p.state = true ∨
    (p.type = .failover ∨ p.type = .rebalance) ∧ p.state = .materialized ∨
    p.state = .cleanupReady ∧ HasCleanupTask tasks k

def NoneStranded (tasks : List Task) (c : Catalog) : Prop :=
  ∀ k p, c.plan k = some p → Tracked tasks k p

def Handover (tasks : List Task) : Write → Prop
  | .createReplicaPlan plan =>
    plan.state = .materialized ∧ (plan.type = .failover ∨ plan.type = .rebalance)
  | .updateReplicaPlan patch => ∀ state ∈ patch.state,
    state = .done ∨ state = .cleanupReady ∧ HasCleanupTask tasks patch.id
  | _ => True

def HandoverStep (tasks : List Task) : CoordinatorOp → Prop
  | .repo call => ∀ v ∈ writesOf call, Handover tasks v
  | .acknowledge _ => False
  | .service _ call => ∃ req, call = .heartbeatNode req
  | _ => True

structure Attending (known : List Task) (w : World) : Prop where
  tasks : known ⊆ w.tasks
  plans : NoneStranded w.tasks (catalog w.store)

section Steps

lemma HasCleanupTask.mono (h : HasCleanupTask tasks k) (hsub : tasks ⊆ tasks') :
    HasCleanupTask tasks' k := by
  obtain ⟨task, hmem, hid⟩ := h
  exact ⟨task, hsub hmem, hid⟩

lemma Tracked.mono (h : Tracked tasks k p) (hsub : tasks ⊆ tasks') : Tracked tasks' k p := by
  rcases h with hdone | hmade | ⟨hready, htask⟩
  · exact .inl hdone
  · exact .inr (.inl hmade)
  · exact .inr (.inr ⟨hready, htask.mono hsub⟩)

lemma Attending.weaken (h : Attending known w) : Attending [] w :=
  ⟨nil_subset _, h.plans⟩

lemma Tracked.patch {patch : ReplicaPlanPatch} (h : Tracked tasks patch.id p)
    (hpatch : Handover tasks (.updateReplicaPlan patch)) :
    Tracked tasks patch.id (patch.apply p) := by
  cases hstate : patch.state with
  | none =>
    have hsame : (patch.apply p).state = p.state := by simp [ReplicaPlanPatch.apply, hstate]
    unfold Tracked
    rw [hsame]
    exact h
  | some state =>
    have hnew : (patch.apply p).state = state := by simp [ReplicaPlanPatch.apply, hstate]
    unfold Tracked
    rw [hnew]
    rcases hpatch state hstate with rfl | hready
    · exact .inl rfl
    · exact .inr (.inr hready)

lemma write_noneStranded (hs : NoneStranded tasks (catalog s)) (hv : Handover tasks v)
    (hrun : Yields v.run s () t) : NoneStranded tasks (catalog t) := by
  intro k p hp
  rcases plan_of_write hrun hp with hp | ⟨rfl, -⟩ | ⟨patch, q, rfl, rfl, hq, rfl⟩
  · exact hs k p hp
  · exact .inr (.inl ⟨hv.2, hv.1⟩)
  · exact (hs patch.id q hq).patch hv

lemma perform_tasks {env : Environment} (ho : ∀ task, o ≠ .acknowledge task)
    (h : env.semantics o w r w') : w.tasks ⊆ w'.tasks := by
  unfold Environment.semantics at h
  cases o with
  | repo call =>
    rcases perform_repo h with ⟨e, -, rfl⟩ | ⟨a, s, -, -, rfl⟩
    · exact List.Subset.refl _
    · exact List.Subset.refl _
  | acknowledge task => exact absurd rfl (ho task)
  | publish task =>
    unfold Environment.perform at h
    dsimp only at h
    split at h
    · cases h
      exact subset_cons_self ..
    · cases h
      split
      · exact subset_cons_self ..
      · exact List.Subset.refl _
  | receive task =>
    unfold Environment.perform at h
    dsimp only at h
    split at h
    · cases h
      exact List.Subset.refl _
    · cases h
  | _ =>
    cases h
    exact List.Subset.refl _

lemma step_attending {r : coordinatorSteps.Reply o} (ho : HandoverStep known o)
    (hw : Attending known w) (h : coordinatorSemantics o w r w') : Attending known w' := by
  obtain ⟨env, h⟩ := h
  have htasks : w.tasks ⊆ w'.tasks := by
    apply perform_tasks _ h
    rintro task rfl
    exact ho
  refine ⟨List.Subset.trans hw.tasks htasks, ?_⟩
  suffices hplans : NoneStranded w.tasks (catalog w'.store) from
    fun k p hp => (hplans k p hp).mono htasks
  refine step_keeps (I := fun s => NoneStranded w.tasks (catalog s)) ⟨env, h⟩ hw.plans ?_ ?_
  · rintro call rfl v hv s t hs hwrite
    refine write_noneStranded hs ?_ hwrite
    have hover := ho v hv
    cases v with
    | updateReplicaPlan patch =>
      intro state hstate
      exact (hover state hstate).imp_right (And.imp_right fun h => h.mono hw.tasks)
    | _ => exact hover
  · rintro now call rfl
    obtain ⟨req, rfl⟩ := ho
    intro k p hp
    rw [heartbeat_plan] at hp
    exact hw.plans k p hp

lemma Planning.handover (h : Planning (fun _ => True) o) : HandoverStep known o := by
  cases o with
  | repo call =>
    intro v hv
    have hplan := h v hv
    cases v with
    | createReplicaPlan plan => exact ⟨hplan.1, hplan.2.1⟩
    | updateReplicaPlan patch => exact hplan.elim
    | _ => trivial
  | acknowledge _ | service _ _ => exact h.elim
  | _ => trivial

lemma Repairing.handover (h : Repairing o) : HandoverStep known o := by
  cases o with
  | repo call =>
    intro v hv
    obtain ⟨patch, rfl⟩ := h v hv
    trivial
  | acknowledge _ | service _ _ => exact h.elim
  | _ => trivial

lemma Cleaning.handover (h : Cleaning k states o)
    (hstates : .cleanupReady ∈ states → HasCleanupTask known k)
    (hall : states ⊆ [.done, .cleanupReady]) : HandoverStep known o := by
  cases o with
  | repo call =>
    intro v hv
    have hclean := h v hv
    cases v with
    | updateReplicaPlan patch =>
      obtain ⟨rfl, hpatch⟩ := hclean
      intro state hstate
      have hmem := hpatch state hstate
      rcases mem_pair.mp (hall hmem) with rfl | rfl
      · exact .inl rfl
      · exact .inr ⟨rfl, hstates hmem⟩
    | createReplicaPlan plan => exact hclean.elim
    | _ => trivial
  | acknowledge _ | service _ _ => exact h.elim
  | _ => trivial

lemma handover_cleanupReady (htask : HasCleanupTask known k) :
    AsksOnly (HandoverStep known) (repo (.write (.updateReplicaPlan
      { id := k, state := some .cleanupReady, updatedAt := now }))) :=
  cleaning_cleanupReady.mono fun _ h => h.handover (fun _ => htask) (by simp)

end Steps

section Runs

variable (hsem : ∀ {o w r w'}, sem o w r w' → coordinatorSemantics o w r w')
include hsem

lemma ensures_attending {α : Type} {x : CoordinatorM α}
    (hx : AsksOnly (HandoverStep known) x) (hw : Attending known w) :
    Ensures sem w x (fun _ => Attending known) (Attending known) :=
  hx.ensures (fun _ _ _ _ ho hw h => step_attending ho hw (hsem h)) hw

lemma ensures_finalizeCompletedPlan (c : CleanupController) (plan : ReplicaPlan) (now : Time)
    (hw : Attending [] w) :
    Ensures sem w (c.finalizeCompletedPlan plan now) (fun _ => Attending [])
      (Attending []) := by
  have hretry (err : CoordinatorError) :
      AsksOnly (HandoverStep []) (c.failOrRetryPlan plan err now) :=
    (cleaning_failOrRetryPlan c plan err now).mono fun _ h => h.handover (by simp) (by simp)
  refine (ensures_read hsem rfl (Q := fun _ w' => w' = w) (fun _ _ => rfl) hw).bind ?_
  rintro chunk w1 rfl
  refine ensures_ite (fun _ => ensures_pure hw) fun _ => ?_
  refine ensures_ite (fun _ => ?_) fun _ => ?_
  · refine ensures_ite (fun _ => ensures_pure hw) fun _ => ?_
    -- whether it is published or not, the task list only grows
    have hgrow {tasks : List Task} (h : w1.tasks ⊆ tasks) :
        NoneStranded tasks (catalog w1.store) := fun k p hp => (hw.plans k p hp).mono h
    have hpublish : Ensures sem w1 (publish (.cleanup (newCleanupTask plan)))
        (fun _ => Attending [.cleanup (newCleanupTask plan)]) (Attending []) :=
      ensures_publish hsem ⟨by simp, hgrow (subset_cons_self ..)⟩
        fun tasks htasks => ⟨nil_subset _, hgrow htasks⟩
    refine hpublish.attempt.bind fun published w' hpublished => ?_
    cases published with
    | error err => exact ensures_attending hsem (hretry err) hpublished
    | ok _ =>
      have htask : HasCleanupTask [.cleanup (newCleanupTask plan)] plan.id :=
        ⟨newCleanupTask plan, mem_singleton_self _, rfl⟩
      exact (ensures_attending hsem (handover_cleanupReady htask) hpublished).mono
        (fun _ _ h => h.weaken) fun _ h => h.weaken
  · split
    · exact ensures_attending hsem
        (cleaning_finish.mono fun _ h => h.handover (by simp) (by simp)) hw
    · exact ensures_attending hsem
        ((cleaning_deleteOrRetry c plan now).mono fun _ h => h.handover (by simp) (by simp)) hw
    · exact ensures_pure hw

lemma ensures_cleanupOnce (c : CleanupController) (hw : Attending [] w) :
    Ensures sem w c.cleanupOnce (fun _ => Attending []) (Attending []) := by
  refine (ensures_timeNow hsem fun _ => hw).bind fun now w hw => ?_
  refine (ensures_read hsem rfl (fun _ _ => hw) hw).bind fun plans w hw => ?_
  exact ensures_forM (P := fun _ => Attending []) hw fun _ plan _ _ _ ht =>
    ensures_finalizeCompletedPlan hsem c plan now ht

end Runs

section Copies

variable {nodeIDs : List NodeID} (r : PendingReplicaRepairer) (chunk : ChunkMetadata) (now : Time)

def NoCopyReady (envs : Environment → Prop) (nodeIDs : List NodeID) : Prop :=
  ∀ env, envs env → ∀ address req results, env.replicateChunk address req = .ok results →
    ∀ result ∈ results, result.nodeID ∈ nodeIDs → result.state ≠ .ready

lemma ensures_executeReplicaCopy_none (source : NodeID) (hnone : NoCopyReady envs nodeIDs) :
    Ensures (semanticsIn envs) w (r.executeReplicaCopy now chunk source nodeIDs)
      (fun out _ => out.1.succeeded = 0) (fun _ => True) := by
  have hanswer {address : String} {req : ReplicateChunkRequest} {w w' : World}
      {results : List ReplicaWriteResult}
      (h : semanticsIn envs (.replicateChunk address req) w (.ok results) w') :
      ∀ result ∈ results, result.nodeID ∈ nodeIDs → result.state ≠ .ready := by
    obtain ⟨env, henv, h⟩ := h
    exact hnone env henv address req results (congrArg Prod.fst (Option.some.inj h))
  refine (ensures_executeReplicaCopy semanticsIn_le r chunk now hanswer source nodeIDs).mono ?_
    fun _ h => h
  rintro out w' ⟨hcount | ⟨results, hresults, result, hmem, hnode, hready⟩, -⟩
  · exact hcount
  · exact absurd hready (hresults result hmem hnode)

lemma ensures_executeReplicaPlanCopy {known : List Task} (hw : Attending known w)
    (hattended : HasCleanupTask known planID ∨ ∀ p, (catalog w.store).plan planID = some p →
      NoCopyReady envs [p.targetNodeID]) :
    Ensures (semanticsIn envs) w (r.executeReplicaPlanCopy planID)
      (fun _ => Attending known) (Attending known) := by
  have hread {w : World} {call : RepositoryCall} (hcall : writesOf call = [])
      (hw : Attending known w) :
      Ensures (semanticsIn envs) w (repo call) (fun _ => Attending known) (Attending known) :=
    ensures_read semanticsIn_le hcall (fun _ _ => hw) hw
  have hplan : Ensures (semanticsIn envs) w (repo (.getReplicaPlan planID))
      (fun (plan : ReplicaPlan) w' => (plan.id = planID ∧ (HasCleanupTask known planID ∨
        NoCopyReady envs [plan.targetNodeID])) ∧ Attending known w') (Attending known) := by
    refine ensures_read semanticsIn_le rfl (fun plan hget => ⟨?_, hw⟩) hw
    have hstored := (yields_getReplicaPlan.mp hget).1
    exact ⟨plan_id hstored, hattended.imp_right fun h => h plan hstored⟩
  refine hplan.bind fun plan w ⟨⟨hid, hattended⟩, hw⟩ => ?_
  refine (hread rfl hw).bind fun chunk w hw => (hread rfl hw).bind fun nodes w hw => ?_
  have hselect : AsksOnly (HandoverStep known) (selectReplicaCopySource plan chunk nodes) := by
    refine AsksOnly.ite asksOnly_pure ?_
    dsimp only
    split
    · exact asksOnly_throw
    · exact asksOnly_pure
  refine (ensures_attending semanticsIn_le hselect hw).bind fun source w hw => ?_
  refine (ensures_timeNow semanticsIn_le fun _ => hw).bind fun now w hw => ?_
  have hcopy : Ensures (semanticsIn envs) w
      (r.executeReplicaCopy now chunk source [plan.targetNodeID])
      (fun out w' => Attending known w' ∧
        (HasCleanupTask known planID ∨ out.1.succeeded = 0)) (Attending known) := by
    have hkeeps : Ensures (semanticsIn envs) w
        (r.executeReplicaCopy now chunk source [plan.targetNodeID]) (fun _ => Attending known)
        (Attending known) :=
      ensures_attending semanticsIn_le ((repairing_executeReplicaCopy r now chunk source
        [plan.targetNodeID]).mono fun _ h => h.handover) hw
    rcases hattended with htask | hnone
    · exact hkeeps.mono (fun _ _ h => ⟨h, .inl htask⟩) fun _ h => h
    · exact (hkeeps.and (ensures_executeReplicaCopy_none r chunk now source hnone)).mono
        (fun _ _ h => ⟨h.1, .inr h.2⟩) fun _ h => h.1
  refine hcopy.bind fun copied w hcopied => ?_
  obtain ⟨hw, hcount⟩ := hcopied
  obtain ⟨outcome, _ | err⟩ := copied
  · refine ensures_ite (fun _ => ensures_throw hw) fun hsome => ?_
    have htask : HasCleanupTask known plan.id := hid ▸ hcount.resolve_right hsome
    exact ensures_attending semanticsIn_le (handover_cleanupReady htask) hw
  · exact ensures_throw hw

end Copies

section Cleanup

variable {plan : ReplicaPlan} {now : Time}

def DoneIn (s : MemoryState) (k : ReplicaPlanID) : Prop :=
  ∀ p, (catalog s).plan k = some p → p.state = .done

lemma PlanNoted.same_stage (h : PlanNoted s t plan []) (hp : (catalog t).plan plan.id = some p) :
    p.type = plan.type ∧ p.state = plan.state := by
  obtain ⟨patch, hstates, heq⟩ := h.catalog_eq
  rw [heq] at hp
  obtain ⟨-, rfl⟩ := (update_some_eq_some.mp hp).resolve_right fun h => h.1 rfl
  refine ⟨rfl, ?_⟩
  cases hstate : patch.state with
  | none => simp [ReplicaPlanPatch.apply, hstate]
  | some state => exact absurd (hstates state hstate) not_mem_nil

lemma PlanFinished.doneIn (h : PlanFinished s t plan now) : DoneIn t plan.id := by
  obtain ⟨z, replicas, -, -, -, heq⟩ := h.catalog_eq
  intro p hp
  rw [heq] at hp
  obtain ⟨-, rfl⟩ := (update_some_eq_some.mp hp).resolve_right fun h => h.1 rfl
  rfl

def CleanupAttended (envs : Environment → Prop) (w : World) (task : CleanupTask) : Prop :=
  ∀ p, (catalog w.store).plan task.planID = some p → p.type = .rebalance →
    p.state = .cleanupReady → Deletable envs w.store p ∨
      HasCleanupTask (w.tasks.erase (.cleanup task)) task.planID

lemma ensures_executeCleanup (c : CleanupController) {task : CleanupTask}
    (hw : Attending [] w) (hattended : CleanupAttended envs w task) :
    Ensures (semanticsIn envs) w (c.executeCleanup task)
      (fun _ w' => (w'.tasks = w.tasks ∧ ∀ p, (catalog w'.store).plan task.planID = some p →
        Tracked (w.tasks.erase (.cleanup task)) task.planID p) ∧ Attending [] w')
      (Attending []) := by
  have hdone {w' : World} (h : DoneIn w'.store task.planID) :
      ∀ p, (catalog w'.store).plan task.planID = some p →
        Tracked (w.tasks.erase (.cleanup task)) task.planID p := by
    intro p hp
    exact .inl (by rw [h p hp]; rfl)
  have hget : Ensures (semanticsIn envs) w (repo (.getReplicaPlan task.planID))
      (fun (plan : ReplicaPlan) w' => (catalog w.store).plan task.planID = some plan ∧ w' = w)
      (Attending []) :=
    ensures_read semanticsIn_le rfl (fun _ h => ⟨(yields_getReplicaPlan.mp h).1, rfl⟩) hw
  refine hget.bind ?_
  rintro plan w1 ⟨hstored, rfl⟩
  have hid : plan.id = task.planID := plan_id hstored
  refine (ensures_timeNow semanticsIn_le (Q := fun _ w' => w' = w1) fun _ => rfl).bind ?_
  rintro now w2 rfl
  cases htype : plan.type with
  | failover =>
    have hasks : AsksOnly (HandoverStep [])
        (repo (.inTx (CleanupController.finishWrites plan now))) :=
      cleaning_finish.mono fun _ h => h.handover (by simp) (by simp)
    have hkeeps : Ensures (semanticsIn envs) w2 _ _ (Attending []) :=
      ensures_attending semanticsIn_le hasks hw
    refine ((finishes_finishWrites semanticsIn_le (hid ▸ hstored)).and hkeeps).mono ?_
      fun _ h => h.2
    rintro _ w' ⟨⟨htasks, hfinished⟩, hw'⟩
    exact ⟨⟨htasks, hdone (hid ▸ hfinished.doneIn)⟩, hw'⟩
  | rebalance =>
    have hasks : AsksOnly (HandoverStep []) (c.deleteOrRetry plan now) :=
      (cleaning_deleteOrRetry c plan now).mono fun _ h => h.handover (by simp) (by simp)
    have hkeeps : Ensures (semanticsIn envs) w2 _ _ (Attending []) :=
      ensures_attending semanticsIn_le hasks hw
    refine ((finishes_deleteOrRetry c (E := Attending []) (hid ▸ hstored)).and hkeeps).mono ?_
      fun _ h => h.2
    rintro _ w' ⟨⟨htasks, hdeleted⟩, hw'⟩
    refine ⟨⟨htasks, ?_⟩, hw'⟩
    rcases hdeleted with ⟨-, hfinished⟩ | ⟨hnot, hnoted⟩
    · exact hdone (hid ▸ hfinished.doneIn)
    · intro p hp
      obtain ⟨hptype, hpstate⟩ := hnoted.same_stage (hid ▸ hp)
      unfold Tracked
      rw [hptype, hpstate]
      rcases hw.plans task.planID plan hstored with hfin | hmade | ⟨hready, -⟩
      · exact .inl hfin
      · exact .inr (.inl hmade)
      · have hother := (hattended plan hstored htype hready).resolve_left hnot
        exact .inr (.inr ⟨hready, hother⟩)
  | _ => exact ensures_throw hw

end Cleanup

section Deliveries

variable {task : Task}

lemma HasCleanupTask.erase (h : HasCleanupTask tasks k)
    (hother : ∀ t, task = .cleanup t → t.planID ≠ k) : HasCleanupTask (tasks.erase task) k := by
  obtain ⟨t, hmem, hid⟩ := h
  refine ⟨t, (mem_erase_of_ne ?_).mpr hmem, hid⟩
  intro heq
  exact hother t heq.symm hid

lemma ensures_acknowledge (hkept : Q () w) (herased : Q () { w with tasks := w.tasks.erase task }) :
    Ensures (semanticsIn envs) w (step (.acknowledge task)) Q E := by
  rintro r w' ⟨env, -, ⟨⟩⟩
  split
  · exact herased
  · exact hkept

lemma attending_erase (hw : Attending [] w)
    (htask : ∀ t, task = .cleanup t → ∀ p, (catalog w.store).plan t.planID = some p →
      Tracked (w.tasks.erase task) t.planID p) :
    Attending [] { w with tasks := w.tasks.erase task } := by
  refine ⟨nil_subset _, fun k p hp => ?_⟩
  by_cases hk : ∃ t, task = .cleanup t ∧ t.planID = k
  · obtain ⟨t, ht, rfl⟩ := hk
    exact htask t ht p hp
  · rcases hw.plans k p hp with hfin | hmade | ⟨hready, hhas⟩
    · exact .inl hfin
    · exact .inr (.inl hmade)
    · refine .inr (.inr ⟨hready, hhas.erase fun t ht hid => ?_⟩)
      exact hk ⟨t, ht, hid⟩

def CopyAttended (envs : Environment → Prop) (w : World) (planID : ReplicaPlanID) : Prop :=
  HasCleanupTask w.tasks planID ∨
    ∀ p, (catalog w.store).plan planID = some p → NoCopyReady envs [p.targetNodeID]

def DeliveryAttended (envs : Environment → Prop) (w : World) : Task → Prop
  | .failover task => CopyAttended envs w task.planID
  | .rebalance task => CopyAttended envs w task.planID
  | .cleanup task => CleanupAttended envs w task
  | .replicaRepair _ => True

lemma ensures_copy (r : PendingReplicaRepairer) (hw : Attending [] w)
    (hattended : CopyAttended envs w planID) :
    Ensures (semanticsIn envs) w (r.executeReplicaPlanCopy planID) (fun _ => Attending [])
      (Attending []) := by
  rcases hattended with ⟨t, hmem, hid⟩ | hnone
  · have hknown : Attending [.cleanup t] w := ⟨by simpa using hmem, hw.plans⟩
    have htask : HasCleanupTask [.cleanup t] planID := ⟨t, mem_singleton_self _, hid⟩
    exact (ensures_executeReplicaPlanCopy r hknown (.inl htask)).mono
      (fun _ _ h => h.weaken) fun _ h => h.weaken
  · exact ensures_executeReplicaPlanCopy r hw (.inr hnone)

lemma ensures_deliver (r : PendingReplicaRepairer) (c : CleanupController)
    (hw : Attending [] w) (hattended : DeliveryAttended envs w task) :
    Ensures (semanticsIn envs) w (deliver r c task) (fun _ => Attending [])
      (Attending []) := by
  have hreceive : Ensures (semanticsIn envs) w (step (.receive task)) (fun _ w' => w' = w)
      (Attending []) := by
    rintro u w' ⟨env, -, h⟩
    change (if task ∈ w.tasks then some ((), w) else none) = some (u, w') at h
    split at h
    · cases h
      rfl
    · cases h
  refine hreceive.bind ?_
  rintro _ w1 rfl
  have hother (hnot : ∀ t, task ≠ .cleanup t)
      (hhandle : Ensures (semanticsIn envs) w1 (handle r c task) (fun _ => Attending [])
        (Attending [])) :
      Ensures (semanticsIn envs) w1 (do handle r c task; step (.acknowledge task))
        (fun _ => Attending []) (Attending []) :=
    hhandle.bind fun _ w hw => ensures_acknowledge hw
      (attending_erase hw fun t ht => absurd ht (hnot t))
  cases task with
  | replicaRepair task =>
    refine hother (fun _ h => by cases h) (ensures_attending semanticsIn_le ?_ hw)
    exact (repairing_executeReplicaRepair r task).mono fun _ h => h.handover
  | failover _ | rebalance _ => exact hother (fun _ h => by cases h) (ensures_copy r hw hattended)
  | cleanup task =>
    refine (ensures_executeCleanup c hw hattended).bind ?_
    rintro _ w2 ⟨⟨htasks, htracked⟩, hw2⟩
    refine ensures_acknowledge hw2 (attending_erase hw2 ?_)
    rintro t ⟨⟩ p hp
    rw [htasks]
    exact htracked p hp

end Deliveries

/-! ### All runs -/

def Attended (w : World) (action : ActivityAction) : Prop :=
  match action.activity with
  | .delivery _ _ task => DeliveryAttended action.environments w task
  | _ => True

lemma activity_attending {w' : World} (hw : Attending [] w) (hattended : Attended w action)
    (h : ActivityStep w action w') : Attending [] w' := by
  obtain ⟨activity, envs⟩ := action
  cases h with
  | run h =>
    cases activity with
    | heartbeat now req =>
      have hasks : AsksOnly (HandoverStep []) (step (.service now (.heartbeatNode req))) :=
        asks_step ⟨req, rfl⟩
      exact (ensures_attending semanticsIn_le hasks hw).of_runs h
    | delivery r c task => exact (ensures_deliver r c hw hattended).of_runs h
    | controller run =>
      cases run with
      | failover f =>
        exact (ensures_attending semanticsIn_le
          ((planning_failover f).mono fun _ h => h.handover) hw).of_runs h
      | rebalance r =>
        exact (ensures_attending semanticsIn_le
          ((planning_rebalance r).mono fun _ h => h.handover) hw).of_runs h
      | repair r =>
        exact (ensures_attending semanticsIn_le
          ((repairing_repair r).mono fun _ h => h.handover) hw).of_runs h
      | cleanup c => exact (ensures_cleanupOnce semanticsIn_le c hw).of_runs h

def WillPublish (w : World) (p : ReplicaPlan) : Prop :=
  ∀ c : CleanupController, c.taskProducer = true → c.examined.matches p = true ∧
    ∀ now r w', (c.finalizeCompletedPlan p now).run.Runs
      (semanticsIn fun env => env.publish (.cleanup (newCleanupTask p)) = .ok ()) w r w' →
      .cleanup (newCleanupTask p) ∈ w'.tasks

lemma willPublish (htype : p.type = .failover ∨ p.type = .rebalance)
    (hstate : p.state = .materialized)
    (hchunk : findChunk w.store { id := p.chunkID } = some chunk)
    (hready : (replicaOn chunk.replicas p.targetNodeID).any (·.state = .ready) = true) :
    WillPublish w p := by
  intro c hproducer
  refine ⟨?_, fun now r w' hrun => ?_⟩
  · rcases htype with h | h <;>
      simp [ReplicaPlanFilter.matches, CleanupController.examined, h, hstate]
  · refine Ensures.of_runs (J := fun w' => .cleanup (newCleanupTask p) ∈ w'.tasks) ?_ hrun
    refine ensures_yields_bind semanticsIn_le
      (yields_getChunk_selector.mpr ⟨hchunk, rfl⟩) ?_
    simp only [hready, Bool.not_true, Bool.false_eq_true, if_false, hproducer, if_true, hstate,
      reduceCtorEq]
    have hpublish : Ensures
        (semanticsIn fun env => env.publish (.cleanup (newCleanupTask p)) = .ok ()) w
        (publish (.cleanup (newCleanupTask p)))
        (fun _ w' => .cleanup (newCleanupTask p) ∈ w'.tasks) (fun _ => False) := by
      rintro answer w' ⟨env, henv, h⟩
      change env.perform (.publish (.cleanup (newCleanupTask p))) w = some (answer, w') at h
      simp only [Environment.perform, henv, Option.some.injEq] at h
      cases h
      exact mem_cons_self
    refine hpublish.attempt.bind fun published w1 hpublished => ?_
    cases published with
    | error err => exact hpublished.elim
    | ok _ =>
      -- the plan is then updated, which leaves the tasks alone
      refine cleaning_cleanupReady.ensures ?_ hpublished
      rintro o w1 r w2 ho hmem ⟨env, -, h⟩
      refine perform_tasks ?_ h hmem
      rintro task rfl
      exact ho

/-- In every order of controller runs, deliveries and heartbeats in which each delivery is
attended, an unfinished plan whose target replica is ready has a cleanup task around or gets one
when a cleanup run examines it. -/
theorem no_plan_stranded {history : List (World × ActivityAction)} {w : World}
    (hrun : ActivityRun history w) (hattended : ∀ e ∈ history, Attended e.1 e.2) :
    ∀ k p chunk, (catalog w.store).plan k = some p → p.state ≠ .done → p.state ≠ .failed →
      findChunk w.store { id := p.chunkID } = some chunk →
      (replicaOn chunk.replicas p.targetNodeID).any (·.state = .ready) = true →
      HasCleanupTask w.tasks k ∨ WillPublish w p := by
  have hinv : Attending [] w := by
    refine hrun.invariant_of hattended ?_ ?_
    · rintro w ⟨hplans, htasks⟩
      refine ⟨nil_subset _, fun k p hp => ?_⟩
      have hnone : w.store.replicaPlans.lookup k = some p := hp
      rw [hplans] at hnone
      cases hnone
    · intro w action w' hw hC hstep
      exact activity_attending hw hC hstep
  intro k p chunk hp hdone hfailed hchunk hready
  rcases hinv.plans k p hp with hfin | ⟨htype, hstate⟩ | ⟨-, htask⟩
  · rcases terminal_iff.mp hfin with h | h
    · exact absurd h hdone
    · exact absurd h hfailed
  · exact .inr (willPublish htype hstate hchunk hready)
  · exact .inl htask

/-! ### A copied plan without a task -/

def obligingRun (activity : Activity) : ActivityAction :=
  { activity := activity, environments := fun env => env = obliging }

def playActivity (w : World) (activity : Activity) : Option World :=
  (activity.program.run.execute obliging.perform w).map Prod.snd

lemma exists_of_playActivities
    (h : (replay playActivity obligingRun { store := lostReplica } activities).any check = true) :
    ∃ history w, ActivityRun history w ∧ history.map Prod.snd = activities.map obligingRun ∧
      check (history, w) = true := by
  refine exists_run_of_replay ⟨rfl, rfl⟩ ?_ h
  intro w activity w' hplay
  obtain ⟨⟨r, w'⟩, hrun, rfl⟩ := Option.map_eq_some_iff.mp hplay
  exact .run (runs_of_execute (fun _ _ _ _ hstep => ⟨obliging, rfl, hstep⟩) hrun)

def cleanupQueued (tasks : List Task) (k : ReplicaPlanID) : Bool :=
  tasks.any fun
    | .cleanup task => task.planID = k
    | _ => false

lemma cleanupQueued_iff : cleanupQueued tasks k = true ↔ HasCleanupTask tasks k := by
  unfold cleanupQueued HasCleanupTask
  rw [any_eq_true]
  constructor
  · rintro ⟨task, hmem, hid⟩
    cases task with
    | cleanup task => exact ⟨task, hmem, of_decide_eq_true hid⟩
    | _ => cases hid
  · rintro ⟨task, hmem, hid⟩
    exact ⟨.cleanup task, hmem, decide_eq_true hid⟩

def cautious (w : World) (action : ActivityAction) : Bool :=
  match action.activity with
  | .delivery _ _ (.failover task) => cleanupQueued w.tasks task.planID
  | .delivery _ _ (.replicaRepair _) => true
  | .delivery .. => false
  | _ => true

lemma attended_of_cautious (h : cautious w action = true) : Attended w action := by
  obtain ⟨activity, envs⟩ := action
  cases activity with
  | delivery r c task =>
    cases task with
    | failover task => exact .inl (cleanupQueued_iff.mp h)
    | replicaRepair task => trivial
    | _ => cases h
  | _ => trivial

/-- The repairer's task makes the copy, the cleanup run publishes, and only then is the
planner's own task delivered. -/
theorem tracked_afterRepair :
    ∃ history w, ActivityRun history w ∧ (∀ e ∈ history, Attended e.1 e.2) ∧
      planIs "failover-k-n3-7" .cleanupReady w = true ∧
      ∀ k p chunk, (catalog w.store).plan k = some p → p.state ≠ .done → p.state ≠ .failed →
        findChunk w.store { id := p.chunkID } = some chunk →
        (replicaOn chunk.replicas p.targetNodeID).any (·.state = .ready) = true →
        HasCleanupTask w.tasks k ∨ WillPublish w p := by
  have hrun : (replay playActivity obligingRun { store := lostReplica }
      [lostReplicaActivities 1, .controller (.cleanup cleaner),
        .delivery repairer cleaner (.replicaRepair (newReplicaRepairTask "k" "f" "n1" "n3")),
        .controller (.repair repairer), .controller (.failover planner)]).any (fun run =>
          (run.1.all fun e => cautious e.1 e.2) &&
            planIs "failover-k-n3-7" .cleanupReady run.2) = true := by decide +kernel
  obtain ⟨history, w, h, -, hcheck⟩ := exists_of_playActivities hrun
  rw [Bool.and_eq_true] at hcheck
  have hattended : ∀ e ∈ history, Attended e.1 e.2 :=
    fun e he => attended_of_cautious (all_eq_true.mp hcheck.1 e he)
  exact ⟨history, w, h, hattended, hcheck.2, no_plan_stranded h hattended⟩

/-- The planner's task is delivered first: its copy moves the plan to `cleanupReady`, no cleanup
task is ever published, and cleanup runs pass the plan over. -/
theorem stranded_byCopy :
    ∃ history w, ActivityRun history w ∧
      ∃ p chunk, (catalog w.store).plan "failover-k-n3-7" = some p ∧ p.state = .cleanupReady ∧
        findChunk w.store { id := p.chunkID } = some chunk ∧
        (replicaOn chunk.replicas p.targetNodeID).any (·.state = .ready) = true ∧
        ¬(HasCleanupTask w.tasks "failover-k-n3-7" ∨ WillPublish w p) := by
  have hrun : (replay playActivity obligingRun { store := lostReplica }
      [lostReplicaActivities 1, .controller (.failover planner)]).any (fun run =>
        (run.2.store.replicaPlans.lookup "failover-k-n3-7").any fun p =>
          p.state = .cleanupReady &&
          ((findChunk run.2.store { id := p.chunkID }).any fun chunk =>
            (replicaOn chunk.replicas p.targetNodeID).any (·.state = .ready)) &&
          !cleanupQueued run.2.tasks "failover-k-n3-7" &&
          ((cleaner.finalizeCompletedPlan p 0).run.execute obliging.perform run.2).any fun out =>
            !out.2.tasks.contains (.cleanup (newCleanupTask p))) = true := by decide +kernel
  obtain ⟨history, w, h, -, hcheck⟩ := exists_of_playActivities hrun
  obtain ⟨p, hp, hbad⟩ := (Option.any_eq_true ..).mp hcheck
  simp only [Bool.and_eq_true, decide_eq_true_eq, Bool.not_eq_true'] at hbad
  obtain ⟨⟨⟨hstate, htarget⟩, hqueued⟩, hexamined⟩ := hbad
  obtain ⟨chunk, hchunk, hready⟩ := (Option.any_eq_true ..).mp htarget
  obtain ⟨out, hout, hunpublished⟩ := (Option.any_eq_true ..).mp hexamined
  refine ⟨history, w, h, p, chunk, hp, hstate, hchunk, hready, ?_⟩
  rintro (htask | hpublish)
  · rw [cleanupQueued_iff.mpr htask] at hqueued
    cases hqueued
  · have hruns : Prog.Runs (semanticsIn fun env =>
        env.publish (.cleanup (newCleanupTask p)) = .ok ())
        (cleaner.finalizeCompletedPlan p 0).run w out.1 out.2 :=
      runs_of_execute (fun _ _ _ _ hstep => ⟨obliging, rfl, hstep⟩) hout
    have hmem := (hpublish cleaner rfl).2 0 out.1 out.2 hruns
    rw [contains_iff_mem.mpr hmem] at hunpublished
    cases hunpublished

end AstraStorage.Proofs
