import AstraStorage.Proofs.DirectRuns

/-!
# The primary replica of a chunk

A chunk keeps its primary as long as that is neither copied to nor moved.
-/

namespace AstraStorage.Proofs
open Lib Store Coordinator Allocator List

variable {c : CleanupController} {w : World}

def PrimaryOn (z : ChunkMetadata) (n : NodeID) : Prop :=
  ∃ replica, replicaOn z.replicas n = some replica ∧ replica.role = .primary

def OnePrimary (c : Catalog) : Prop :=
  ∀ k z, c.chunk k = some z → (∃ n, (replicaOn z.replicas n).isSome) → ∃! n, PrimaryOn z n

def PrimariesReady (c : Catalog) : Prop :=
  ∀ k z, c.chunk k = some z → (∃ n replica, replicaOn z.replicas n = some replica ∧
      replica.state = .ready) →
    ∀ n replica, replicaOn z.replicas n = some replica → replica.state = .pending →
      replica.role ≠ .primary

def PrimariesStay (c : CleanupController) (cat : Catalog) : Prop :=
  ∀ k p, cat.plan k = some p → c.examined.matches p = true → p.chunkID ≠ "" ∧
    ∀ z, cat.chunk p.chunkID = some z →
      (replicaOn z.replicas p.targetNodeID).any (·.state = .ready) = true →
      ¬PrimaryOn z p.sourceNodeID

def SparesPrimaries (w : World) : RoundAction → Prop
  | .controller (.repair _) => PrimariesReady (catalog w.store)
  | .controller (.cleanup c) => PrimariesStay c (catalog w.store)
  | _ => True

def SamePrimaries (s t : MemoryState) : Prop :=
  ∀ k z', (catalog t).chunk k = some z' → ∃ z, (catalog s).chunk k = some z ∧
    (∀ n, PrimaryOn z' n ↔ PrimaryOn z n) ∧
    ((∃ n, (replicaOn z'.replicas n).isSome) → ∃ n, (replicaOn z.replicas n).isSome)

section Primaries

variable {s t : MemoryState}

lemma OnePrimary.of_same (hs : OnePrimary (catalog s)) (h : SamePrimaries s t) :
    OnePrimary (catalog t) := by
  intro k z' hz' hheld
  obtain ⟨z, hz, hprimary, hentries⟩ := h k z' hz'
  simp only [hprimary]
  exact hs k z hz (hentries hheld)

lemma samePrimaries_of_update (hz : (catalog s).chunk z.id = some z)
    (h : (catalog t).chunk = Function.update (catalog s).chunk z.id (some z'))
    (hprimary : ∀ n, PrimaryOn z' n ↔ PrimaryOn z n)
    (hentries : (∃ n, (replicaOn z'.replicas n).isSome) →
      ∃ n, (replicaOn z.replicas n).isSome) : SamePrimaries s t := by
  intro k y hy
  rw [h] at hy
  rcases update_some_eq_some.mp hy with ⟨rfl, rfl⟩ | ⟨-, hy⟩
  · exact ⟨z, hz, hprimary, hentries⟩
  · exact ⟨y, hy, fun _ => Iff.rfl, fun h => h⟩

lemma PlanMade.samePrimaries (h : PlanMade s t plan chunk now) : SamePrimaries s t := by
  have hchunks := congrArg Catalog.chunk h.catalog_eq
  refine samePrimaries_of_update h.stored hchunks (fun n => ?_) fun _ => ⟨_, h.held⟩
  unfold PrimaryOn
  rw [replicaOn_made]
  by_cases hn : n = plan.targetNodeID
  · -- the target has a secondary now and had nothing before
    rw [if_pos hn, hn, h.free]
    constructor
    · rintro ⟨replica, hreplica, hrole⟩
      obtain rfl := Option.some.inj hreplica
      cases hrole
    · rintro ⟨replica, hreplica, -⟩
      cases hreplica
  · rw [if_neg hn]

lemma CopyEntry.role_eq (h : CopyEntry chunk now n replica) : replica.role = .secondary := by
  cases h with
  | ready | pending => rfl

lemma RepairChange.samePrimaries (h : RepairChange chunk s t)
    (hnamed : (catalog s).chunk "" = none) (hready : PrimariesReady (catalog s)) :
    SamePrimaries s t ∧ PrimariesReady (catalog t) := by
  obtain ⟨nodeIDs, now, htargets, hcopied⟩ := h.copied
  obtain ⟨z', hid, -, -, hentries, heq⟩ := hcopied.catalog_eq (stored_id_ne hnamed hcopied.stored)
  have hchunks := congrArg Catalog.chunk heq
  have hpending := hready chunk.id chunk hcopied.stored (ready_of_source h.source)
  constructor
  · refine samePrimaries_of_update hcopied.stored hchunks (fun n => ?_) ?_
    · rcases hentries n with hkept | ⟨hn, replica, hcopy, hnew⟩
      · unfold PrimaryOn
        rw [hkept]
      · obtain ⟨old, hold, hstate⟩ := mem_pending.mp (htargets hn)
        constructor
        · rintro ⟨replica', hreplica', hrole⟩
          obtain rfl := Option.mem_unique hnew hreplica'
          rw [hcopy.role_eq] at hrole
          cases hrole
        · rintro ⟨old', hold', hrole⟩
          obtain rfl := Option.mem_unique hold hold'
          exact absurd hrole (hpending n old hold hstate)
    · obtain ⟨n, replica, hreplica, -⟩ := ready_of_source h.source
      exact fun _ => ⟨n, hreplica ▸ rfl⟩
  · intro k y hy hsource n replica hreplica hstate
    rw [hchunks] at hy
    rcases update_some_eq_some.mp hy with ⟨rfl, rfl⟩ | ⟨-, hy⟩
    · rcases hentries n with hkept | ⟨-, copy, hcopy, hnew⟩
      · exact hpending n replica (hkept ▸ hreplica) hstate
      · obtain rfl := Option.mem_unique hnew hreplica
        rw [hcopy.role_eq]
        exact ReplicaRole.noConfusion
    · exact hready k y hy hsource n replica hreplica hstate

lemma PlanFinished.samePrimaries (h : PlanFinished s t plan now) (hid : plan.chunkID ≠ "")
    (hsource : ∀ z, (catalog s).chunk plan.chunkID = some z → ¬PrimaryOn z plan.sourceNodeID) :
    SamePrimaries s t := by
  obtain ⟨z, replicas, hz, hreplicas, -, heq⟩ := h.catalog_eq
  have hchunks := congrArg Catalog.chunk heq
  rw [findChunk_id hid] at hz
  have hzid := chunk_id hz
  refine samePrimaries_of_update (hzid ▸ hz) hchunks (fun n => ?_) ?_
  · unfold PrimaryOn
    rw [replicaOn_withoutReplica hreplicas]
    by_cases hn : n = plan.sourceNodeID
    · rw [if_pos hn]
      constructor
      · rintro ⟨replica, hreplica, -⟩
        cases hreplica
      · exact fun hprimary => absurd (hn ▸ hprimary) (hsource z hz)
    · rw [if_neg hn]
  · rintro ⟨n, hn⟩
    rw [replicaOn_withoutReplica hreplicas] at hn
    split_ifs at hn
    · cases hn
    · exact ⟨n, hn⟩

lemma examined_of_since (hsince : CleanedSince s r) (hp : (catalog r).plan k = some p)
    (h : c.examined.matches p = true) :
    ∃ p0, (catalog s).plan k = some p0 ∧ SamePlan p0 p ∧ c.examined.matches p0 = true := by
  obtain ⟨p0, hp0, hsame, hstate | hdone⟩ := hsince.plans k p hp
  · refine ⟨p0, hp0, hsame, ?_⟩
    simp only [ReplicaPlanFilter.matches, CleanupController.examined] at h ⊢
    rw [hsame.type, hstate] at h
    simpa using h
  · exact absurd hdone (isOpen_of_examined h).1

lemma OnePrimary.cleanupRun (hs : OnePrimary (catalog s)) (hstay : PrimariesStay c (catalog s))
    (hdirect : c.taskProducer = false) (h : CleanupRun c s t) : OnePrimary (catalog t) := by
  induction h with
  | refl => exact hs
  | @tail r t hbefore hstep ih =>
    have hsince := cleanedSince_of_cleanupRun hdirect hbefore
    obtain ⟨plan, hmatches, hchange⟩ := hstep
    cases hchange with
    | finished _ hready h =>
      obtain ⟨p0, hp0, hsame, hexamined⟩ := examined_of_since hsince h.stored hmatches
      obtain ⟨hid, hprimary⟩ := hstay plan.id p0 hp0 hexamined
      rw [← hsame.chunkID] at hid hprimary
      refine ih.of_same (h.samePrimaries hid fun z hz hsource => ?_)
      -- the target was ready before the run, and the source was primary
      obtain ⟨z0, hz0, hentries⟩ := hsince.entries plan.chunkID z hz
      obtain ⟨y, hy, hy_ready⟩ := hready
      rw [findChunk_id hid] at hy
      obtain rfl : z = y := Option.mem_unique hz hy
      obtain ⟨target, htarget, hstate⟩ := (Option.any_eq_true ..).mp hy_ready
      obtain ⟨replica, hreplica, hrole⟩ := hsource
      refine hprimary z0 hz0 ?_ ⟨replica, ?_, hrole⟩
      · rw [← hsame.target, hentries _ _ htarget]
        exact hstate
      · rw [← hsame.source]
        exact hentries _ _ hreplica
    | noted h =>
      obtain ⟨patch, -, heq⟩ := h.catalog_eq
      rw [heq]
      exact ih

lemma OnePrimary.repairRun (hs : OnePrimary (catalog s)) (hnamed : (catalog s).chunk "" = none)
    (hready : PrimariesReady (catalog s)) (h : RepairRun s t) : OnePrimary (catalog t) := by
  have hboth : OnePrimary (catalog t) ∧ PrimariesReady (catalog t) := by
    induction h with
    | refl => exact ⟨hs, hready⟩
    | tail hbefore hstep ih =>
      obtain ⟨chunk, hchange⟩ := hstep
      obtain ⟨hsame, hready⟩ := hchange.samePrimaries (RepairRun.named hbefore hnamed) ih.2
      exact ⟨ih.1.of_same hsame, hready⟩
  exact hboth.1

end Primaries

/-- Whole runs of controllers without a task producer, with heartbeats in between, from any
repository in which each chunk with replicas has one primary. It stays so if the repairer never
runs while a pending replica is primary and there is a ready one to copy from, and cleanup never
runs while a plan with a ready target moves a primary. -/
theorem onePrimary_kept {history : List (World × RoundAction)} {w : World}
    (hrun : Run (fun w => OnePrimary (catalog w.store) ∧ (catalog w.store).chunk "" = none)
      RoundStep history w)
    (hunattended : ∀ e ∈ history, Unattended e.2)
    (hspares : ∀ e ∈ history, SparesPrimaries e.1 e.2) : OnePrimary (catalog w.store) := by
  have hinv : OnePrimary (catalog w.store) ∧ (catalog w.store).chunk "" = none := by
    refine hrun.invariant_of (C := fun w action => Unattended action ∧ SparesPrimaries w action)
      (fun e he => ⟨hunattended e he, hspares e he⟩) (fun _ h => h) ?_
    rintro w action w' ⟨hprimary, hnamed⟩ ⟨haction, hspares⟩ hstep
    refine ⟨?_, named_of_unattended hnamed haction hstep⟩
    cases unattendedChange_of_step hnamed haction hstep with
    | kept _ hchunk =>
      intro k z hz
      rw [hchunk] at hz
      exact hprimary k z hz
    | planned h =>
      exact plannerRun_keeps (I := fun s => OnePrimary (catalog s)) hprimary h
        fun _ _ _ _ _ hr h => hr.of_same h.samePrimaries
    | repaired h => exact hprimary.repairRun hnamed hspares h
    | cleaned hdirect h => exact hprimary.cleanupRun hspares hdirect h
  exact hinv.1

def heldBy (replicas : List ReplicaMetadata) : MemoryState :=
  { lostReplica with
    chunks := (∅ : Records ChunkMetadata.id).put (heldChunk 2 replicas) }

def primariesCounted (s : MemoryState) : Bool :=
  s.chunks.values.all fun z =>
    ((replicaEntries z.replicas).filter (·.2.role = .primary)).length = 1

lemma onePrimary_of_counted (h : primariesCounted s = true) : OnePrimary (catalog s) := by
  intro k z hz _
  have hcount := all_eq_true.mp h z (Records.mem_values.mpr (chunk_id hz ▸ hz))
  obtain ⟨e, he⟩ := length_eq_one_iff.mp (of_decide_eq_true hcount)
  have hiff (n : NodeID) (replica : ReplicaMetadata) :
      replicaOn z.replicas n = some replica ∧ replica.role = .primary ↔ (n, replica) = e := by
    have hmem : (n, replica) ∈ (replicaEntries z.replicas).filter (·.2.role = .primary) ↔
        (n, replica) = e := by
      rw [he, mem_singleton]
    rw [← hmem, mem_filter, mem_replicaEntries, decide_eq_true_eq]
  refine ⟨e.1, ⟨e.2, (hiff e.1 e.2).mpr rfl⟩, ?_⟩
  rintro n ⟨replica, hreplica⟩
  rw [← (hiff n replica).mp hreplica]

def primariesSpared (w : World) : RoundAction → Bool
  | .controller (.repair _) => w.store.chunks.values.all fun z =>
    (replicaEntries z.replicas).all fun e => e.2.state = .pending → e.2.role ≠ .primary
  | .controller (.cleanup _) => w.store.replicaPlans.values.all fun p =>
    p.chunkID ≠ "" && (w.store.chunks.lookup p.chunkID).all fun z =>
      (replicaOn z.replicas p.sourceNodeID).all (·.role ≠ .primary)
  | _ => true

lemma sparesPrimaries_of_spared (h : primariesSpared w action = true) :
    SparesPrimaries w action := by
  cases action with
  | service action => trivial
  | controller run =>
    cases run with
    | repair r =>
      intro k z hz _ n replica hreplica
      have hall := all_eq_true.mp h z (Records.mem_values.mpr (chunk_id hz ▸ hz))
      exact of_decide_eq_true (all_eq_true.mp hall _ (mem_replicaEntries.mpr hreplica))
    | cleanup c =>
      intro k p hp _
      have hplan := all_eq_true.mp h p (Records.mem_values.mpr (plan_id hp ▸ hp))
      rw [Bool.and_eq_true, decide_eq_true_eq] at hplan
      refine ⟨hplan.1, fun z hz _ => ?_⟩
      rintro ⟨replica, hreplica, hrole⟩
      have hz : w.store.chunks.lookup p.chunkID = some z := hz
      have hsource := hplan.2
      rw [hz, Option.all_some, hreplica, Option.all_some, decide_eq_true_eq] at hsource
      exact hsource hrole
    | _ => trivial

lemma exists_of_heldBy (hstart : primariesCounted (heldBy replicas) = true)
    (h : (replay playRound id { store := heldBy replicas } actions).any check = true) :
    ∃ history w, Run (fun w => OnePrimary (catalog w.store) ∧
        (catalog w.store).chunk "" = none) RoundStep history w ∧
      history.map Prod.snd = actions.map id ∧ check (history, w) = true :=
  exists_run_of_replay ⟨onePrimary_of_counted hstart, rfl⟩ roundStep_of_playRound h

/-- The replica on the failed node is secondary, and another node takes its place. -/
theorem lostSecondary_keeps_primary :
    ∃ history w z, Run (fun w => OnePrimary (catalog w.store) ∧
        (catalog w.store).chunk "" = none) RoundStep history w ∧
      (∀ e ∈ history, Unattended e.2) ∧ (∀ e ∈ history, SparesPrimaries e.1 e.2) ∧
      (catalog w.store).chunk "k" = some z ∧ replicaOn z.replicas "n1" = none ∧
      (replicaOn z.replicas "n3").isSome ∧ OnePrimary (catalog w.store) := by
  obtain ⟨history, w, hrun, hactions, hcheck⟩ := exists_of_heldBy
    (by decide : primariesCounted (heldBy [readyReplica "n2" .primary,
      readyReplica "n1" .secondary]) = true)
    (by decide +kernel : (replay playRound id { store := heldBy [readyReplica "n2" .primary,
        readyReplica "n1" .secondary] } [cleanupAlone, repairAlone, failoverAlone]).any (fun run =>
      (run.1.all fun e => primariesSpared e.1 e.2) &&
        (run.2.store.chunks.lookup "k").any fun z =>
          (replicaOn z.replicas "n1").isNone && (replicaOn z.replicas "n3").isSome) = true)
  rw [Bool.and_eq_true] at hcheck
  have hunattended := unattended_of_map hactions (by simp [brokenMove])
  have hspares : ∀ e ∈ history, SparesPrimaries e.1 e.2 :=
    fun e he => sparesPrimaries_of_spared (all_eq_true.mp hcheck.1 e he)
  obtain ⟨z, hz, hreplicas⟩ := (Option.any_eq_true ..).mp hcheck.2
  rw [Bool.and_eq_true, Option.isNone_iff_eq_none] at hreplicas
  exact ⟨history, w, z, hrun, hunattended, hspares, hz, hreplicas.1, hreplicas.2,
    onePrimary_kept hrun hunattended hspares⟩

def headless (w : World) : Bool :=
  (w.store.chunks.lookup "k").any fun z =>
    (replicaOn z.replicas "n2").isSome && (replicaEntries z.replicas).all (·.2.role ≠ .primary)

lemma not_onePrimary_of_headless (h : headless w = true) :
    ∃ z, (catalog w.store).chunk "k" = some z ∧ (replicaOn z.replicas "n2").isSome ∧
      ∀ n, ¬PrimaryOn z n := by
  obtain ⟨z, hz, hreplicas⟩ := (Option.any_eq_true ..).mp h
  rw [Bool.and_eq_true] at hreplicas
  refine ⟨z, hz, hreplicas.1, ?_⟩
  rintro n ⟨replica, hreplica, hrole⟩
  have hall := all_eq_true.mp hreplicas.2 _ (mem_replicaEntries.mpr hreplica)
  exact of_decide_eq_true hall hrole

/-- The primary on a failed node is replaced by a secondary. And the repairer turns a pending
primary into a secondary. -/
theorem primary_lost :
    (∃ history w z, Run (fun w => OnePrimary (catalog w.store) ∧
        (catalog w.store).chunk "" = none) RoundStep history w ∧
      (∀ e ∈ history, Unattended e.2) ∧ (catalog w.store).chunk "k" = some z ∧
      (replicaOn z.replicas "n2").isSome ∧ ∀ n, ¬PrimaryOn z n) ∧
    ∃ history w z, Run (fun w => OnePrimary (catalog w.store) ∧
        (catalog w.store).chunk "" = none) RoundStep history w ∧
      history.map Prod.snd = [repairAlone] ∧ (catalog w.store).chunk "k" = some z ∧
      (replicaOn z.replicas "n2").isSome ∧ ∀ n, ¬PrimaryOn z n := by
  constructor
  · obtain ⟨history, w, hrun, hactions, hcheck⟩ := exists_of_heldBy
      (by decide : primariesCounted (heldBy [readyReplica "n2" .secondary,
        readyReplica "n1" .primary]) = true)
      (by decide +kernel : (replay playRound id { store := heldBy [readyReplica "n2" .secondary,
        readyReplica "n1" .primary] } [cleanupAlone, repairAlone, failoverAlone]).any
          (fun run => headless run.2) = true)
    obtain ⟨z, hz, hheld, hnone⟩ := not_onePrimary_of_headless hcheck
    exact ⟨history, w, z, hrun, unattended_of_map hactions (by simp [brokenMove]), hz, hheld, hnone⟩
  · have hplay : (replay playRound id { store := heldBy [readyReplica "n2" .secondary,
        { readyReplica "n3" .primary with state := .pending }] } [repairAlone]).any
          (fun run => headless run.2) = true := by
      decide +kernel
    obtain ⟨history, w, hrun, heq, hcheck⟩ := exists_of_heldBy (by decide) hplay
    obtain ⟨z, hz, hheld, hnone⟩ := not_onePrimary_of_headless hcheck
    exact ⟨history, w, z, hrun, heq, hz, hheld, hnone⟩

end AstraStorage.Proofs
