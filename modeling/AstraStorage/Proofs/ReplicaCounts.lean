import AstraStorage.Proofs.DanglingPlans

/-!
# The replica counter

Whoever adds a replica to a chunk writes the counter from a copy of the chunk. The copies of a
controller are fresh enough; a task may come after the chunk was committed anew.
-/

namespace AstraStorage.Proofs
open Lib Store Service Coordinator Allocator

variable {s : MemoryState} {c : Catalog}

structure Counted (c : Catalog) : Prop where
  named : c.chunk "" = none
  count : ∀ k z, c.chunk k = some z → z.replicaCount = replicaLen z

lemma Counted.effect (h : Counted (catalog s)) (hw : WellFormed (catalog t))
    (he : Effect ok s t a) : Counted (catalog t) := by
  refine ⟨hw.links.no_empty_chunk, fun k z' hz' => ?_⟩
  have hkept := he.chunksBy
    (R := fun z z' => z'.replicas = z.replicas ∧ z'.replicaCount = z.replicaCount)
    (fun _ => ⟨rfl, rfl⟩) fun _ _ => ⟨rfl, rfl⟩
  rcases hkept with hkept | ⟨now, req, y, file, replicas, -, -, hchunk⟩
  · obtain ⟨z, hz, hreplicas, hcount⟩ := hkept k z' hz'
    rw [hcount, h.count k z hz, replicaLen, replicaLen, hreplicas]
  · rw [hchunk] at hz'
    rcases update_some_eq_some.mp hz' with ⟨-, rfl⟩ | ⟨-, hz⟩
    · rw [replicaLen_eq]
      cases replicas with
      | none | some replicas => rfl
    · exact h.count k z' hz

section Changes

variable {now : Time}

lemma Counted.update (h : Counted c) (hk : k ≠ "") (hz : z.replicaCount = replicaLen z) :
    Counted { c with chunk := Function.update c.chunk k (some z) } := by
  refine ⟨(Function.update_of_ne hk.symm ..).trans h.named, fun j y hy => ?_⟩
  rcases update_some_eq_some.mp hy with ⟨-, rfl⟩ | ⟨-, hy⟩
  · exact hz
  · exact h.count j y hy

lemma Counted.of_chunk (h : Counted c) (hchunk : c'.chunk = c.chunk) : Counted c' :=
  ⟨hchunk ▸ h.named, hchunk ▸ h.count⟩

lemma isSome_replicaOn_made (n : NodeID) :
    (replicaOn ((pendingPatch .secondary plan chunk now).apply chunk).replicas n).isSome ↔
      n = plan.targetNodeID ∨ (replicaOn chunk.replicas n).isSome := by
  rw [replicaOn_made]
  split_ifs with hn
  · exact iff_of_true rfl (Or.inl hn)
  · exact (or_iff_right hn).symm

section

variable (h : Counted (catalog s))
include h

lemma counted_made (hmade : PlanMade s t plan chunk now) : Counted (catalog t) := by
  have hcount : ((pendingPatch .secondary plan chunk now).apply chunk).replicaCount =
      replicaLen ((pendingPatch .secondary plan chunk now).apply chunk) :=
    (replicaLen_succ hmade.free isSome_replicaOn_made).symm
  rw [hmade.catalog_eq]
  exact (h.update hmade.id_ne hcount).of_chunk rfl

lemma counted_revoked (hrevoked : PlanRevoked s t plan chunk now) : Counted (catalog t) := by
  obtain ⟨r, hmade, -⟩ := hrevoked.made
  have hcount : replicaLen ((rollbackPatch chunk plan.targetNodeID now).apply
      ((pendingPatch .secondary plan chunk now).apply chunk)) = replicaLen chunk :=
    replicaLen_congr fun n => by rw [hmade.replicas_revoked]
  rw [hrevoked.catalog_eq]
  exact h.update hmade.id_ne hcount.symm

lemma counted_copied (hcopied : Copied s t chunk nodeIDs now)
    (hlisted : ∀ n ∈ nodeIDs, (replicaOn chunk.replicas n).isSome) : Counted (catalog t) := by
  have hid := stored_id_ne h.named hcopied.stored
  obtain ⟨z, -, -, hcount, hentries, heq⟩ := hcopied.catalog_eq hid
  rw [heq]
  refine h.update hid (hcount.trans (replicaLen_congr fun n => ?_).symm)
  rcases hentries n with hsame | ⟨hn, replica, -, hreplica⟩
  · rw [hsame]
  · rw [hreplica]
    exact iff_of_true rfl (hlisted n hn)

lemma counted_finished (hfinished : PlanFinished s t plan now) : Counted (catalog t) := by
  obtain ⟨z, replicas, hz, -, -, heq⟩ := hfinished.catalog_eq
  have hcount : (withoutReplica z replicas plan.sourceNodeID now).replicaCount =
      replicaLen (withoutReplica z replicas plan.sourceNodeID now) := by
    rw [replicaLen_eq]
    rfl
  rw [heq]
  exact (h.update (stored_id_ne h.named (findChunk_stored hz)) hcount).of_chunk rfl

lemma counted_noted (hnoted : PlanNoted s t plan states) : Counted (catalog t) := by
  obtain ⟨patch, -, heq⟩ := hnoted.catalog_eq
  rw [heq]
  exact h.of_chunk rfl

lemma Counted.changes (hchanges : ControllerChanges known s t)
    (hlisted : ∀ z n, known z n → (replicaOn z.replicas n).isSome) : Counted (catalog t) := by
  induction hchanges with
  | refl => exact h
  | tail _ hstep ih =>
    cases hstep with
    | made hmade => exact counted_made ih hmade
    | revoked hrevoked => exact counted_revoked ih hrevoked
    | copied hcopied hknown =>
      exact counted_copied ih hcopied fun n hn => hlisted _ n (hknown n hn)
    | finished hfinished => exact counted_finished ih hfinished
    | noted hnoted => exact counted_noted ih hnoted

end

end Changes

def PlanTargetListed (s : MemoryState) (planID : ReplicaPlanID) : Prop :=
  ∀ p z, (catalog s).plan planID = some p → findChunk s { id := p.chunkID } = some z →
    (replicaOn z.replicas p.targetNodeID).isSome

def TargetListed (s : MemoryState) : Task → Prop
  | .replicaRepair task => ∀ z, findChunk s { id := task.chunkID } = some z →
      (replicaOn z.replicas task.targetNodeID).isSome
  | .rebalance task => PlanTargetListed s task.planID
  | .failover task => PlanTargetListed s task.planID
  | .cleanup _ => True

lemma TargetListed.copiesTo (h : TargetListed s task) :
    ∀ z n, CopiesTo s z n task → (replicaOn z.replicas n).isSome := by
  intro z n hcopies
  cases task with
  | replicaRepair task =>
    obtain ⟨hz, rfl⟩ := hcopies
    exact h z hz
  | cleanup task => exact hcopies.elim
  | rebalance _ | failover _ =>
    obtain ⟨p, hp, hz, rfl⟩ := hcopies
    exact h p z hp hz

def FindsTarget (w : World) : AtomicAction → Prop
  | .task _ _ task => TargetListed w.store task
  | .round _ => True

lemma step_wellFormed (o : CoordinatorOp) (w : World) (r : coordinatorSteps.Reply o) (w' : World)
    (_ho : Asked o) (hw : WellFormed (catalog w.store)) (h : coordinatorSemantics o w r w') :
    WellFormed (catalog w'.store) := by
  refine step_keeps (I := fun s => WellFormed (catalog s)) h hw ?_ ?_
  · exact fun _ _ _ _ _ _ hs hwrite => hs.rewritten (write_rewrites hwrite)
  · exact fun now call _ => hw.step (.call now call)

/-- In every run of calls, controllers and tasks in which each task finds its target among the
replicas of its chunk, the counter of every chunk is the number of its replicas. -/
theorem replicaCount_eq_replicaLen {history : List (World × AtomicAction)} {w : World}
    (hrun : AtomicRun history w) (htargets : ∀ e ∈ history, FindsTarget e.1 e.2) :
    ∀ k z, (catalog w.store).chunk k = some z → z.replicaCount = replicaLen z := by
  have hinv : WellFormed (catalog w.store) ∧ Counted (catalog w.store) := by
    refine hrun.invariant_of
      (I := fun w => WellFormed (catalog w.store) ∧ Counted (catalog w.store)) htargets ?_ ?_
    · rintro w ⟨s, hs, rfl⟩
      obtain ⟨now, rfl⟩ := bootstrapped_iff.mp hs
      refine ⟨wellFormed_rootState now, rfl, fun k z hz => ?_⟩
      cases hz
    · rintro w action w' ⟨hwell, hcounted⟩ htarget hstep
      cases hstep with
      | round h =>
        cases h with
        | service h =>
          have heffect := effect_of_step hwell h
          exact ⟨hwell.step h, hcounted.effect (hwell.step h) heffect⟩
        | controller h =>
          have hchanges := (changes_program _ hcounted.named).of_runs h
          exact ⟨((asked_program (.controller _)).ensures step_wellFormed hwell).of_runs h,
            hcounted.changes hchanges fun _ _ hlisted => hlisted⟩
      | task h =>
        have hchanges := (changes_handle _ _ _).of_runs h
        exact ⟨((asked_handle _ _ _).ensures step_wellFormed hwell).of_runs h,
          hcounted.changes hchanges (TargetListed.copiesTo htarget)⟩
  exact hinv.2.count

def playAtomic (w : World) : AtomicAction → Option World
  | .round action => playRound w action
  | .task r c task => ((handle r c task).run.execute obliging.perform w).map Prod.snd

lemma atomicStep_of_playAtomic (w : World) (action : AtomicAction) (w' : World)
    (h : playAtomic w action = some w') : AtomicStep w action w' := by
  cases action with
  | round action => exact .round (roundStep_of_playRound w action w' h)
  | task r c task =>
    obtain ⟨⟨result, w'⟩, hrun, rfl⟩ := Option.map_eq_some_iff.mp h
    exact .task (Prog.runs_of_execute (fun _ _ _ _ hstep => ⟨obliging, hstep⟩) hrun)

lemma exists_of_playAtomics
    (h : (replay playAtomic id { store := rootState 1 } actions).any check = true) :
    ∃ history w, AtomicRun history w ∧ history.map Prod.snd = actions.map id ∧
      check (history, w) = true :=
  exists_run_of_replay ⟨rootState 1, bootstrapped_iff.mpr ⟨1, rfl⟩, rfl⟩ atomicStep_of_playAtomic h

def commitOn (replicas : List ReplicaMetadata) : Call :=
  .commitChunk {
    sessionID := "u", chunkID := "k", size := 4
    replicas := replicaTable replicas }

def repairTask : ReplicaRepairTask := newReplicaRepairTask "k" "f" "n1" "n2"

def publishedRepair : List AtomicAction :=
  .round (.controller (.repair repairer)) ::
    ([commitOn [{ readyReplica "n1" .primary with storedSize := 4 },
        { readyReplica "n2" .secondary with state := .pending, storedSize := 0 }],
      .startUpload { sessionID := "u", fileID := "f", expectedSize := 4 },
      rootFile "i1" "f" "a" 4,
      newNode "n2" "a2" 0,
      newNode "n1" "a1" 0]
    : List Call).map fun call => .round (.service (.call 1 call))

def recommitted : List AtomicAction :=
  ([commitOn [{ readyReplica "n1" .primary with storedSize := 4 }],
    .retryUpload { sessionID := "u" },
    .failUploadVerification {
      sessionID := "u", chunkID := "k", errorCode := "e", retryable := true, maxAttempts := 3 }]
    : List Call).map fun call => .round (.service (.call 1 call))

def replicasAre (k : ChunkID) (replicaCount len : Int) (w : World) : Bool :=
  (w.store.chunks.lookup k).any fun z => z.replicaCount = replicaCount && replicaLen z = len

def finds (w : World) : AtomicAction → Bool
  | .round _ => true
  | .task _ _ (.replicaRepair task) => (findChunk w.store { id := task.chunkID }).all fun z =>
    (replicaOn z.replicas task.targetNodeID).isSome
  | .task .. => false

lemma findsTarget_of_finds (h : finds w action = true) : FindsTarget w action := by
  cases action with
  | round action => trivial
  | task r c task =>
    cases task with
    | replicaRepair task =>
      intro z hz
      have hall : (findChunk w.store { id := task.chunkID }).all (fun z =>
        (replicaOn z.replicas task.targetNodeID).isSome) = true := h
      rw [hz] at hall
      exact hall
    | _ => cases h

/-- The task is carried out in time, and the counters are right. -/
theorem promptRepair_counted :
    ∃ history w, AtomicRun history w ∧ (∀ e ∈ history, FindsTarget e.1 e.2) ∧
      replicasAre "k" 2 2 w = true ∧
      ∀ k z, (catalog w.store).chunk k = some z → z.replicaCount = replicaLen z := by
  have hrun : (replay playAtomic id { store := rootState 1 }
      (.task repairer cleaner (.replicaRepair repairTask) :: publishedRepair)).any (fun run =>
        (run.1.all fun e => finds e.1 e.2) && replicasAre "k" 2 2 run.2) = true := by
    decide +kernel
  obtain ⟨history, w, h, -, hcheck⟩ := exists_of_playAtomics hrun
  rw [Bool.and_eq_true] at hcheck
  have hfinds : ∀ e ∈ history, FindsTarget e.1 e.2 :=
    fun e he => findsTarget_of_finds (List.all_eq_true.mp hcheck.1 e he)
  exact ⟨history, w, h, hfinds, hcheck.2, replicaCount_eq_replicaLen h hfinds⟩

def published (w : World) : AtomicAction → Bool
  | .round _ => true
  | .task _ _ task => task ∈ w.tasks

/-- Only published tasks are carried out. The chunk is committed anew before its repair task
comes, and then has a replica that is not counted. -/
theorem lateRepair_miscounted :
    ∃ history w, AtomicRun history w ∧
      (∀ e ∈ history, ∀ r c task, e.2 = .task r c task → task ∈ e.1.tasks) ∧
      ∃ z, (catalog w.store).chunk "k" = some z ∧ z.replicaCount = 1 ∧ replicaLen z = 2 := by
  have hrun : (replay playAtomic id { store := rootState 1 }
      (.task repairer cleaner (.replicaRepair repairTask) :: (recommitted ++ publishedRepair))).any
        (fun run => (run.1.all fun e => published e.1 e.2) && replicasAre "k" 1 2 run.2) = true := by
    decide +kernel
  obtain ⟨history, w, h, -, hcheck⟩ := exists_of_playAtomics hrun
  rw [Bool.and_eq_true] at hcheck
  obtain ⟨z, hz, hbad⟩ := (Option.any_eq_true ..).mp hcheck.2
  rw [Bool.and_eq_true, decide_eq_true_eq, decide_eq_true_eq] at hbad
  refine ⟨history, w, h, fun e he r c task htask => ?_, z, hz, hbad⟩
  have hpublished := List.all_eq_true.mp hcheck.1 e he
  rw [htask] at hpublished
  exact of_decide_eq_true hpublished

end AstraStorage.Proofs
