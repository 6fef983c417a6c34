import AstraStorage.Proofs.StrandedPlans

/-!
# Cleanup after a failed cleanup

A cleanup attempt deletes the source replica at its datanode and then records it. If it fails in
between, the datanode answers the second attempt with 404, which counts as a failure again.
-/

namespace AstraStorage.Proofs
open Lib Prog Store Coordinator Allocator Option

variable {s t : MemoryState} {mayFail : Prop} {site : Site} {plan : ReplicaPlan} {now : Time}
  {c : CleanupController}

structure Site where
  store : MemoryState
  stored : String → ChunkID → Bool

def Site.delete (site : Site) (address : String) (chunkID : ChunkID) : Site :=
  { site with stored := fun a k => site.stored a k && !(a == address && k == chunkID) }

inductive SiteStep (mayFail : Prop) :
    (o : CoordinatorOp) → Site → coordinatorSteps.Reply o → Site → Prop
  | repo {call site a t} (h : call.run site.store = .ok a t) :
      SiteStep mayFail (.repo call) site (.ok a) { site with store := t }
  | repoError {call site e t} (h : call.run site.store = .error e t) :
      SiteStep mayFail (.repo call) site (.error e) { site with store := t }
  | repoFails {call site e} (h : mayFail) :
      SiteStep mayFail (.repo call) site (.error e) site
  | now {site : Site} {now : Time} : SiteStep mayFail .now site now site
  | delete {node chunkID site} :
      SiteStep mayFail (.deleteReplica node chunkID) site
        (.ok (if site.stored node.address chunkID then 204 else 404))
        (site.delete node.address chunkID)
  | requestLost {node chunkID site e} (h : mayFail) :
      SiteStep mayFail (.deleteReplica node chunkID) site (.error e) site
  | replyLost {node chunkID site e} (h : mayFail) :
      SiteStep mayFail (.deleteReplica node chunkID) site (.error e)
        (site.delete node.address chunkID)

abbrev siteSemantics (mayFail : Prop) : Semantics coordinatorSteps Site :=
  fun o site r site' => SiteStep mayFail o site r site'

section Steps

lemma ensures_siteRepo {call : RepositoryCall} {Q : call.Result → Site → Prop}
    (hok : ∀ a t, Yields call.run site.store a t → Q a { site with store := t })
    (herror : (mayFail ∨ ¬Returns call.run site.store) → E site) :
    Ensures (siteSemantics mayFail) site (repo call) Q E := by
  rintro r site' h
  cases h with
  | repo h => exact hok _ _ h
  | repoError h =>
    obtain rfl := failsCleanly_call call _ _ _ h
    refine herror (.inr ?_)
    rintro ⟨a, t, ha⟩
    rw [Yields, h] at ha
    cases ha
  | repoFails h => exact herror (.inl h)

lemma ensures_siteNow (h : ∀ now, Q now site) :
    Ensures (siteSemantics mayFail) site timeNow Q E := by
  rintro r site' hstep
  cases hstep
  exact h _

end Steps

structure Finished (s : MemoryState) (plan : ReplicaPlan) : Prop where
  done : ∃ p, (catalog s).plan plan.id = some p ∧ p.state = .done
  source : ∀ z, (catalog s).chunk plan.chunkID = some z → replicaOn z.replicas plan.sourceNodeID = none

structure SameMove (plan p : ReplicaPlan) : Prop where
  id : p.id = plan.id
  type : p.type = plan.type
  chunkID : p.chunkID = plan.chunkID
  sourceNodeID : p.sourceNodeID = plan.sourceNodeID
  targetNodeID : p.targetNodeID = plan.targetNodeID

structure OnlyNoted (s t : MemoryState) (plan : ReplicaPlan) : Prop where
  chunks : t.chunks = s.chunks
  nodes : t.nodes = s.nodes
  plan : ∃ p, (catalog t).plan plan.id = some p ∧ SameMove plan p ∧ p.state = plan.state

def KeepsMove (s : MemoryState) (plan : ReplicaPlan) : Prop :=
  ∃ p, (catalog s).plan plan.id = some p ∧ SameMove plan p

lemma SameMove.refl (plan : ReplicaPlan) : SameMove plan plan := ⟨rfl, rfl, rfl, rfl, rfl⟩

lemma OnlyNoted.refl (h : (catalog s).plan plan.id = some plan) : OnlyNoted s s plan :=
  ⟨rfl, rfl, plan, h, .refl plan, rfl⟩

def Removable (site : Site) (plan : ReplicaPlan) : Prop :=
  ∃ node z, (catalog site.store).node plan.sourceNodeID = some node ∧
    (catalog site.store).chunk plan.chunkID = some z ∧
    (replicaOn z.replicas plan.sourceNodeID).isSome ∧
    site.stored node.address plan.chunkID = true

section Attempt

lemma plan_of_put (hk : k = q.id) :
    (catalog { s with replicaPlans := s.replicaPlans.put q }).plan k = some q := by
  rw [catalog_putReplicaPlan]
  exact update_some_eq_some.mpr (.inl ⟨hk, rfl⟩)

lemma finished_of_finishWrites (hchunk : plan.chunkID ≠ "")
    (hstored : (catalog s).plan plan.id = some plan)
    (h : Yields (RepositoryCall.inTx (CleanupController.finishWrites plan now)).run s u t) :
    Finished t plan ∧ KeepsMove t plan ∧ ∃ z, (catalog s).chunk plan.chunkID = some z ∧
      (replicaOn z.replicas plan.sourceNodeID).isSome := by
  obtain ⟨r, hremove, hupdate⟩ := yields_finishWrites.mp h
  obtain ⟨z, replicas, hz, hreplicas, hnode, rfl⟩ := yields_removeChunkReplica.mp hremove
  obtain ⟨p, hp, rfl⟩ := yields_updateReplicaPlan.mp hupdate
  obtain rfl := mem_unique hstored hp
  rw [findChunk_id hchunk] at hz
  have hid : z.id = plan.chunkID := chunk_id hz
  refine ⟨⟨⟨_, plan_of_put rfl, rfl⟩, ?_⟩, ⟨_, plan_of_put rfl, rfl, rfl, rfl, rfl, rfl⟩, z, hz, ?_⟩
  · intro z' hz'
    rw [catalog_putReplicaPlan, catalog_putChunk] at hz'
    rcases update_some_eq_some.mp hz' with ⟨-, rfl⟩ | ⟨hne, -⟩
    · exact AList.lookup_erase plan.sourceNodeID replicas
    · exact absurd hid.symm hne
  · rw [hreplicas]
    exact hnode

lemma finishWrites_returns (hstored : (catalog site.store).plan plan.id = some plan)
    (hchunk : plan.chunkID ≠ "") (hz : (catalog site.store).chunk plan.chunkID = some z)
    (hsource : (replicaOn z.replicas plan.sourceNodeID).isSome) :
    Returns (RepositoryCall.inTx (CleanupController.finishWrites plan now)).run site.store := by
  have hheld : ∃ z, findChunk site.store { id := plan.chunkID } = some z ∧
      (replicaOn z.replicas plan.sourceNodeID).isSome :=
    ⟨z, (findChunk_id hchunk).trans hz, hsource⟩
  obtain ⟨t, ht⟩ := finishWrites_succeeds hstored hheld
  exact ⟨(), t, ht⟩

lemma ensures_siteDelete (hstored : (catalog site.store).plan plan.id = some plan)
    (hchunk : plan.chunkID ≠ "") :
    Ensures (siteSemantics mayFail) site (CleanupController.deleteSourceReplica plan now)
      (fun _ t => Removable site plan ∧ Finished t.store plan ∧ KeepsMove t.store plan)
      (fun t => t.store = site.store ∧ (mayFail ∨ ¬Removable site plan)) := by
  have hget : Ensures (siteSemantics mayFail) site (repo (.getNode plan.sourceNodeID))
      (fun (node : NodeInfo) t =>
        (catalog site.store).node plan.sourceNodeID = some node ∧ t = site)
      (fun t => t.store = site.store ∧ (mayFail ∨ ¬Removable site plan)) := by
    refine ensures_siteRepo (fun node t hget => ?_) fun herror => ⟨rfl, herror.imp_right ?_⟩
    · obtain ⟨hnode, rfl⟩ := yields_getNode.mp hget
      exact ⟨hnode, rfl⟩
    · rintro hnone ⟨node, z, hnode, -⟩
      exact hnone ⟨node, site.store, yields_getNode.mpr ⟨hnode, rfl⟩⟩
  refine hget.bind ?_
  rintro node site' ⟨hnode, hsite⟩
  subst site'
  have hdelete : Ensures (siteSemantics mayFail) site
      (fallible (step (.deleteReplica node plan.chunkID)) .outside)
      (fun status t => t.store = site.store ∧
        status = if site.stored node.address plan.chunkID then 204 else 404)
      (fun t => t.store = site.store ∧ (mayFail ∨ ¬Removable site plan)) := by
    rintro answer site' h
    cases h with
    | delete => exact ⟨rfl, rfl⟩
    | requestLost h | replyLost h => exact ⟨rfl, .inl h⟩
  refine hdelete.bind ?_
  rintro status site' ⟨hstore, rfl⟩
  refine ensures_ite (fun hbad => ?_) fun hgood => ?_
  · refine ensures_throw ⟨hstore, .inr ?_⟩
    rintro ⟨node', z, hnode', -, -, hpresent⟩
    obtain rfl := mem_unique hnode hnode'
    rw [if_pos hpresent] at hbad
    exact hbad.1 rfl
  · have hpresent : site.stored node.address plan.chunkID = true := by
      by_contra habsent
      rw [if_neg habsent] at hgood
      exact hgood ⟨by decide, by decide⟩
    refine ensures_siteRepo (fun _ t ht => ?_) fun herror => ⟨hstore, herror.imp_right ?_⟩
    · rw [hstore] at ht
      obtain ⟨hfinished, hkeeps, z, hz, hsource⟩ := finished_of_finishWrites hchunk hstored ht
      exact ⟨⟨node, z, hnode, hz, hsource, hpresent⟩, hfinished, hkeeps⟩
    · rintro hnone ⟨_, z, -, hz, hsource, -⟩
      rw [hstore] at hnone
      exact hnone (finishWrites_returns hstored hchunk hz hsource)

lemma onlyNoted_of_update (hstored : (catalog s).plan plan.id = some plan)
    (hid : patch.id = plan.id) (hstate : patch.state = none)
    (h : Yields (updateReplicaPlan patch) s u t) : OnlyNoted s t plan := by
  obtain ⟨p, hp, rfl⟩ := yields_updateReplicaPlan.mp h
  rw [hid, hstored] at hp
  cases hp
  refine ⟨rfl, rfl, patch.apply plan, ?_, ?_⟩
  · exact plan_of_put rfl
  · refine ⟨⟨rfl, rfl, rfl, rfl, rfl⟩, ?_⟩
    rw [ReplicaPlanPatch.apply, hstate]
    rfl

lemma ensures_siteDeleteOrRetry (c : CleanupController)
    (hstored : (catalog site.store).plan plan.id = some plan) (hchunk : plan.chunkID ≠ "") :
    Ensures (siteSemantics mayFail) site (c.deleteOrRetry plan now)
      (fun _ t => (Removable site plan ∧ Finished t.store plan ∧ KeepsMove t.store plan) ∨
        (mayFail ∨ ¬Removable site plan) ∧ OnlyNoted site.store t.store plan)
      (fun t => mayFail ∧ OnlyNoted site.store t.store plan) := by
  refine (ensures_siteDelete hstored hchunk).attempt.bind fun deleted site' hdeleted => ?_
  cases deleted with
  | ok _ => exact ensures_pure (.inl hdeleted)
  | error err =>
    obtain ⟨hstore, hreason⟩ := hdeleted
    have hstored' : (catalog site'.store).plan plan.id = some plan := by rw [hstore]; exact hstored
    refine ensures_siteRepo (fun _ t ht => .inr ⟨hreason, ?_⟩) fun herror => ?_
    · rw [← hstore]
      exact onlyNoted_of_update hstored' rfl rfl ht
    · refine ⟨herror.resolve_right fun hnone => hnone ?_, ?_⟩
      · exact ⟨(), _, yields_updateReplicaPlan.mpr ⟨plan, hstored', rfl⟩⟩
      · rw [hstore]
        exact .refl hstored

end Attempt

def TargetReady (s : MemoryState) (plan : ReplicaPlan) : Prop :=
  ∃ z, (catalog s).chunk plan.chunkID = some z ∧
    (replicaOn z.replicas plan.targetNodeID).any (·.state = .ready)

def cleanUp (c : CleanupController) (plan : ReplicaPlan) : CoordinatorM Unit :=
  if c.taskProducer then c.executeCleanup (newCleanupTask plan)
  else do
    let now ← timeNow
    c.finalizeCompletedPlan plan now

def Attempted (mayFail : Prop) (site : Site) (plan : ReplicaPlan) (t : Site) : Prop :=
  (Removable site plan ∧ Finished t.store plan ∧ KeepsMove t.store plan) ∨
    (mayFail ∨ ¬(Removable site plan ∧ TargetReady site.store plan)) ∧
      OnlyNoted site.store t.store plan

section CleanUp

lemma ensures_siteCleanUp (hstored : (catalog site.store).plan plan.id = some plan)
    (htype : plan.type = .rebalance) (hchunk : plan.chunkID ≠ "") :
    Ensures (siteSemantics mayFail) site (cleanUp c plan)
      (fun _ => Attempted mayFail site plan) (Attempted mayFail site plan) := by
  have hidle (h : mayFail ∨ ¬(Removable site plan ∧ TargetReady site.store plan)) :
      Attempted mayFail site plan site := .inr ⟨h, .refl hstored⟩
  have hretry (now : Time) : Ensures (siteSemantics mayFail) site (c.deleteOrRetry plan now)
      (fun _ => Attempted mayFail site plan) (Attempted mayFail site plan) := by
    refine (ensures_siteDeleteOrRetry c hstored hchunk).mono (fun _ t h => ?_) fun t h => ?_
    · refine h.imp_right (And.imp_left (Or.imp_right fun hnot hboth => hnot hboth.1))
    · exact .inr ⟨.inl h.1, h.2⟩
  refine ensures_ite (fun _ => ?_) fun hdirect => ?_
  · have hget : Ensures (siteSemantics mayFail) site (repo (.getReplicaPlan plan.id))
        (fun (p : ReplicaPlan) t => p = plan ∧ t = site) (Attempted mayFail site plan) := by
      refine ensures_siteRepo (fun p t h => ?_) fun herror => hidle (herror.imp_right ?_)
      · obtain ⟨hp, rfl⟩ := yields_getReplicaPlan.mp h
        exact ⟨mem_unique hp hstored, rfl⟩
      · intro hnone
        exact absurd ⟨plan, site.store, yields_getReplicaPlan.mpr ⟨hstored, rfl⟩⟩ hnone
    refine hget.bind ?_
    rintro p site' ⟨hp, hsite⟩
    subst p site'
    refine (ensures_siteNow fun _ => rfl).bind ?_
    rintro now site' hsite
    subst site'
    rw [htype]
    exact hretry now
  · refine (ensures_siteNow fun _ => rfl).bind ?_
    rintro now site' hsite
    subst site'
    have hget : Ensures (siteSemantics mayFail) site (repo (.getChunk { id := plan.chunkID }))
        (fun (z : ChunkMetadata) t => (catalog site.store).chunk plan.chunkID = some z ∧ t = site)
        (Attempted mayFail site plan) := by
      refine ensures_siteRepo (fun z t h => ?_) fun herror => hidle (herror.imp_right ?_)
      · obtain ⟨hz, rfl⟩ := yields_getChunk_selector.mp h
        exact ⟨(findChunk_id hchunk).symm.trans hz, rfl⟩
      · rintro hnone ⟨-, z, hz, -⟩
        exact hnone ⟨z, site.store, yields_getChunk_selector.mpr ⟨(findChunk_id hchunk).trans hz, rfl⟩⟩
    refine hget.bind ?_
    rintro z site' ⟨hz, hsite⟩
    subst site'
    refine ensures_ite (fun hnot => ?_) fun _ => ?_
    · refine ensures_pure (hidle (.inr ?_))
      rintro ⟨-, z', hz', hready⟩
      obtain rfl := mem_unique hz hz'
      rw [hready] at hnot
      cases hnot
    · rw [if_neg hdirect, htype]
      exact hretry now

def SiteOp : CoordinatorOp → Prop
  | .repo _ => True
  | .now => True
  | .deleteReplica .. => True
  | _ => False

lemma siteStep_total (ho : SiteOp o) (site : Site) : ∃ r t, siteSemantics mayFail o site r t := by
  cases o with
  | repo call =>
    cases h : call.run site.store with
    | ok a t => exact ⟨_, _, .repo h⟩
    | error e t => exact ⟨_, _, .repoError h⟩
  | now => exact ⟨(0 : Int), site, .now⟩
  | deleteReplica node chunkID => exact ⟨_, _, .delete⟩
  | _ => exact ho.elim

lemma asks_cleanUp : AsksOnly SiteOp (cleanUp c plan) := by
  have hfinish (plan : ReplicaPlan) (now : Time) :
      AsksOnly SiteOp (repo (.inTx (CleanupController.finishWrites plan now))) :=
    asks_repo trivial
  have hretry (plan : ReplicaPlan) (now : Time) :
      AsksOnly SiteOp (c.deleteOrRetry plan now) := by
    refine AsksOnly.bind (AsksOnly.attempt ?_) fun r => ?_
    · refine (asks_repo trivial).bind fun node => ?_
      refine (asks_fallible (asks_step trivial)).bind fun status => ?_
      exact AsksOnly.ite asksOnly_throw (hfinish plan now)
    · cases r with
      | ok _ => exact asksOnly_pure
      | error err => exact asks_repo trivial
  unfold cleanUp
  split
  · refine (asks_repo trivial).bind fun p => asks_step_bind trivial fun now => ?_
    split
    · exact hfinish p now
    · exact hretry p now
    · exact asksOnly_throw
  · rename_i hdirect
    refine asks_step_bind trivial fun now => (asks_repo trivial).bind fun z => ?_
    refine AsksOnly.ite asksOnly_pure ?_
    rw [if_neg hdirect]
    split
    · exact hfinish plan now
    · exact hretry plan now
    · exact asksOnly_pure

end CleanUp

def Recovers (c : CleanupController) (plan plan1 : ReplicaPlan) (site : Site) : Prop :=
  (∃ r t, (cleanUp c plan1).run.Runs (siteSemantics False) site r t) ∧
    ∀ r t, (cleanUp c plan1).run.Runs (siteSemantics False) site r t → Finished t.store plan

section Recovery

variable {c : CleanupController} {plan plan1 : ReplicaPlan} {site site1 : Site}

lemma SameMove.finished_iff (h : SameMove plan plan1) : Finished s plan1 ↔ Finished s plan := by
  constructor
  · rintro ⟨hdone, hsource⟩
    exact ⟨h.id ▸ hdone, by simpa only [h.chunkID, h.sourceNodeID] using hsource⟩
  · rintro ⟨hdone, hsource⟩
    exact ⟨h.id.symm ▸ hdone, by simpa only [h.chunkID, h.sourceNodeID] using hsource⟩

lemma SameMove.removable_iff (h : SameMove plan plan1) :
    Removable site plan1 ↔ Removable site plan := by
  unfold Removable
  rw [h.chunkID, h.sourceNodeID]

lemma Finished.not_removable (h : Finished site.store plan) : ¬Removable site plan := by
  rintro ⟨node, z, -, hz, hsource, -⟩
  rw [h.source z hz] at hsource
  cases hsource

lemma OnlyNoted.finished_iff (h : OnlyNoted s t plan)
    (hstored : (catalog s).plan plan.id = some plan) : Finished t plan ↔ Finished s plan := by
  obtain ⟨p, hp, -, hstate⟩ := h.plan
  have hchunk : (catalog t).chunk = (catalog s).chunk := by simp only [catalog, h.chunks]
  constructor
  · rintro ⟨⟨q, hq, hdone⟩, hsource⟩
    obtain rfl := mem_unique hp hq
    exact ⟨⟨plan, hstored, hstate ▸ hdone⟩, hchunk ▸ hsource⟩
  · rintro ⟨⟨q, hq, hdone⟩, hsource⟩
    obtain rfl := mem_unique hstored hq
    exact ⟨⟨p, hp, hstate.trans hdone⟩, hchunk.symm ▸ hsource⟩

/-- After an attempt with failures a second one finishes the plan just if the source replica can
still be deleted or the first attempt went through. A reply that got lost, or a transaction that
failed, is too late for that: the datanode has deleted the chunk and answers 404. -/
theorem cleanUp_recovers_iff (hstored : (catalog site.store).plan plan.id = some plan)
    (htype : plan.type = .rebalance) (hchunk : plan.chunkID ≠ "")
    (hready : TargetReady site.store plan) {r : Except CoordinatorError Unit}
    (hfirst : (cleanUp c plan).run.Runs (siteSemantics True) site r site1)
    (hagain : (catalog site1.store).plan plan.id = some plan1) :
    Recovers c plan plan1 site1 ↔ Removable site1 plan ∨ Finished site1.store plan := by
  have hattempt : Attempted True site plan site1 :=
    (ensures_siteCleanUp hstored htype hchunk).of_runs hfirst
  have hmove : SameMove plan plan1 := by
    rcases hattempt with ⟨-, -, p, hp, hmove⟩ | ⟨-, hnoted⟩
    · obtain rfl := mem_unique hp hagain
      exact hmove
    · obtain ⟨p, hp, hmove, -⟩ := hnoted.plan
      obtain rfl := mem_unique hp hagain
      exact hmove
  have hstored1 : (catalog site1.store).plan plan1.id = some plan1 := by rw [hmove.id]; exact hagain
  -- Both directions look at how the second attempt may end.
  have hsecond {r2 : Except CoordinatorError Unit} {site2 : Site}
      (hrun : (cleanUp c plan1).run.Runs (siteSemantics False) site1 r2 site2) :
      Attempted False site1 plan1 site2 :=
    (ensures_siteCleanUp hstored1 (hmove.type.trans htype) (hmove.chunkID ▸ hchunk)).of_runs hrun
  constructor
  · rintro ⟨⟨r2, site2, hrun⟩, hall⟩
    rcases hsecond hrun with ⟨hremovable, -⟩ | ⟨-, hnoted⟩
    · exact .inl (hmove.removable_iff.mp hremovable)
    · right
      have hfinished : Finished site2.store plan1 := hmove.finished_iff.mpr (hall _ _ hrun)
      exact hmove.finished_iff.mp ((hnoted.finished_iff hstored1).mp hfinished)
  · intro hcondition
    refine ⟨asks_cleanUp.asks.exists_runs (fun o s ho => siteStep_total ho s) site1, ?_⟩
    intro r2 site2 hrun
    rcases hsecond hrun with ⟨-, hfinished, -⟩ | ⟨hnot, hnoted⟩
    · exact hmove.finished_iff.mp hfinished
    · rcases hcondition with hremovable | hfinished
      · -- The first attempt left the chunks as they were, so the target is still ready.
        have hchunks : site1.store.chunks = site.store.chunks := by
          rcases hattempt with ⟨-, hfinished, -⟩ | ⟨-, hnoted1⟩
          · exact absurd hremovable hfinished.not_removable
          · exact hnoted1.chunks
        refine absurd ⟨hmove.removable_iff.mpr hremovable, ?_⟩ (hnot.resolve_left id)
        unfold TargetReady catalog
        rw [hchunks, hmove.chunkID, hmove.targetNodeID]
        exact hready
      · exact hmove.finished_iff.mp ((hnoted.finished_iff hstored1).mpr
          (hmove.finished_iff.mpr hfinished))

end Recovery

inductive Loss
  | none
  | request
  | reply

def Site.perform (loss : Loss) :
    (o : CoordinatorOp) → Site → Option (coordinatorSteps.Reply o × Site)
  | .repo call, site =>
    match call.run site.store with
    | .ok a t => some (.ok a, { site with store := t })
    | .error e t => some (.error e, { site with store := t })
  | .now, site => some ((7 : Time), site)
  | .deleteReplica node chunkID, site =>
    match loss with
    | .none => some (.ok (if site.stored node.address chunkID then 204 else 404),
        site.delete node.address chunkID)
    | .request => some (.error "timeout", site)
    | .reply => some (.error "timeout", site.delete node.address chunkID)
  | _, _ => none

lemma siteStep_of_perform (hloss : loss = .none ∨ mayFail) (o : CoordinatorOp) (site : Site)
    (r : coordinatorSteps.Reply o) (site' : Site) (h : site.perform loss o = some (r, site')) :
    siteSemantics mayFail o site r site' := by
  cases o with
  | repo call =>
    simp only [Site.perform] at h
    split at h
    · next a t hrun =>
      cases h
      exact .repo hrun
    · next e t hrun =>
      cases h
      exact .repoError hrun
  | now =>
    cases h
    exact .now
  | deleteReplica node chunkID =>
    cases loss with
    | none =>
      cases h
      exact .delete
    | request =>
      cases h
      exact .requestLost (hloss.resolve_left Loss.noConfusion)
    | reply =>
      cases h
      exact .replyLost (hloss.resolve_left Loss.noConfusion)
  | _ => cases h

def copiedMove : ReplicaPlan :=
  { id := "p", type := .rebalance, chunkID := "k", fileID := "f", sourceNodeID := "n1"
    targetNodeID := "n2", state := .copyReady }

def copiedSite : Site where
  store := { lostReplica with replicaPlans := (∅ : Records ReplicaPlan.id).put copiedMove }
  stored address chunkID := (address = "a1" || address = "a2") && chunkID = "k"

lemma targetReady_copiedSite : TargetReady copiedSite.store copiedMove :=
  ⟨_, rfl, by decide +kernel⟩

/-- The request of the first attempt gets lost, and the second attempt finishes the plan. -/
theorem cleanUp_afterLostRequest :
    ∃ r site1 plan1, (cleanUp cleaner copiedMove).run.Runs (siteSemantics True) copiedSite r site1 ∧
      (catalog site1.store).plan "p" = some plan1 ∧ ¬Finished site1.store copiedMove ∧
      Recovers cleaner copiedMove plan1 site1 := by
  have hfirst : ((cleanUp cleaner copiedMove).run.execute (fun o s => s.perform .request o)
      copiedSite).any (fun out =>
        (out.2.store.replicaPlans.lookup "p").isSome &&
        ((out.2.store.nodes.lookup "n1").any fun node => out.2.stored node.address "k") &&
        (out.2.store.chunks.lookup "k").any fun z => (replicaOn z.replicas "n1").isSome) = true := by
    decide +kernel
  obtain ⟨⟨r, site1⟩, hout, hcheck⟩ := (any_eq_true ..).mp hfirst
  simp only [Bool.and_eq_true] at hcheck
  obtain ⟨⟨hplan, hnode⟩, hchunk⟩ := hcheck
  obtain ⟨plan1, hplan1⟩ := isSome_iff_exists.mp hplan
  obtain ⟨node, hnode, hpresent⟩ := (any_eq_true ..).mp hnode
  obtain ⟨z, hz, hsource⟩ := (any_eq_true ..).mp hchunk
  have hrun := runs_of_execute (siteStep_of_perform (.inr trivial)) hout
  have hremovable : Removable site1 copiedMove := ⟨node, z, hnode, hz, hsource, hpresent⟩
  exact ⟨r, site1, plan1, hrun, hplan1, fun hfinished => hfinished.not_removable hremovable,
    (cleanUp_recovers_iff rfl rfl (by decide) targetReady_copiedSite hrun hplan1).mpr
      (.inl hremovable)⟩

/-- The reply of the first attempt gets lost: the datanode answers the second one with 404, and
the plan is not done. -/
theorem cleanUp_afterLostReply :
    (catalog copiedSite.store).plan copiedMove.id = some copiedMove ∧
      copiedMove.type = .rebalance ∧ TargetReady copiedSite.store copiedMove ∧
      ∃ r site1 plan1 r2 site2,
        (cleanUp cleaner copiedMove).run.Runs (siteSemantics True) copiedSite r site1 ∧
        (catalog site1.store).plan "p" = some plan1 ∧
        (cleanUp cleaner plan1).run.Runs (siteSemantics False) site1 r2 site2 ∧
        ¬Finished site2.store copiedMove := by
  have hruns : ((cleanUp cleaner copiedMove).run.execute (fun o s => s.perform .reply o)
      copiedSite).any (fun out => (out.2.store.replicaPlans.lookup "p").any fun plan1 =>
        ((cleanUp cleaner plan1).run.execute (fun o s => s.perform .none o) out.2).any fun out2 =>
          (out2.2.store.replicaPlans.lookup "p").any (·.state = .copyReady)) = true := by
    decide +kernel
  obtain ⟨⟨r, site1⟩, hfirst, hcheck⟩ := (any_eq_true ..).mp hruns
  obtain ⟨plan1, hplan1, hcheck⟩ := (any_eq_true ..).mp hcheck
  obtain ⟨⟨r2, site2⟩, hsecond, hcheck⟩ := (any_eq_true ..).mp hcheck
  obtain ⟨plan2, hplan2, hstate⟩ := (any_eq_true ..).mp hcheck
  refine ⟨rfl, rfl, targetReady_copiedSite, r, site1, plan1, r2, site2,
    runs_of_execute (siteStep_of_perform (.inr trivial)) hfirst, hplan1,
    runs_of_execute (siteStep_of_perform (.inl rfl)) hsecond, ?_⟩
  rintro ⟨⟨p, hp, hdone⟩, -⟩
  obtain rfl := mem_unique hplan2 hp
  rw [hdone] at hstate
  cases hstate

end AstraStorage.Proofs
