import AstraStorage.Proofs.ControllerChanges
import AstraStorage.Proofs.FinishedPlans
import AstraStorage.Proofs.SilentChanges

/-!
# Plans and the chunks they name

The service takes chunks away without a look at the plans. As long as no call takes a chunk that
an unfinished plan names, every unfinished plan names a chunk of its file.
-/

namespace AstraStorage.Proofs
open Lib Store Service Coordinator Function

variable {c c' : Catalog} {call : Call} {k : ChunkID} {f : FileID} {s : MemoryState} {now : Time}

def owner (c : Catalog) (k : ChunkID) : Option FileID := (c.chunk k).map (·.fileID)

lemma owner_eq_some : owner c k = some f ↔ ∃ z, c.chunk k = some z ∧ z.fileID = f := by
  simp [owner]

def Takes (s : MemoryState) (z : ChunkMetadata) : Call → Prop
  | .deleteFile req => req.fileID = z.fileID
  | .deleteDirectory req => req.recursive = true ∧ req.inodeID ≠ rootInodeID ∧
      (∃ x, (catalog s).inode req.inodeID = some x ∧ x.type = .directory) ∧
      ∃ file, (catalog s).file z.fileID = some file ∧
        file.inodeID ∈ subtree (catalog s) req.inodeID
  | .commitChunk req => req.chunkID = z.id ∧
      ∃ y file, CommitAccepted s req y file ∧ y.fileID ≠ z.fileID
  | .retryUpload req =>
      ∃ y file, RetryAccepted s req y file ∧ y.fileID = z.fileID ∧
        y.retry.lastFailedOffset ≤ z.offset
  | _ => False

section Calls

variable {z : ChunkMetadata}

lemma owner_of_chunk_eq (hz : c.chunk k = some z) (h : c'.chunk = c.chunk) :
    owner c' k = some z.fileID :=
  owner_eq_some.mpr ⟨z, by rw [h, hz], rfl⟩

lemma owner_withUpload (hz : c.chunk k = some z)
    (hg : z.fileID = f → ∃ z', g z = some z' ∧ z'.fileID = z.fileID) :
    owner (withUpload c j f y file g) k = some z.fileID := by
  rw [owner_eq_some]
  by_cases hf : z.fileID = f
  · obtain ⟨z', hz', hfile⟩ := hg hf
    exact ⟨z', chunk_withUpload.mpr ⟨z, hz, by rw [if_pos hf, hz']⟩, hfile⟩
  · exact ⟨z, chunk_withUpload.mpr ⟨z, hz, by rw [if_neg hf]⟩, rfl⟩

lemma upload_owner (hz : (catalog s).chunk k = some z) (htakes : ¬Takes s z call)
    (h : UploadEffect s t (.call now call)) : owner (catalog t) k = some z.fileID := by
  cases h with
  | start _ ht | complete _ ht | verify _ ht | fail _ ht =>
    rw [ht]
    exact owner_withUpload hz fun _ => ⟨_, rfl, rfl⟩
  | @commit _ req y file replicas hacc ht =>
    rw [ht, owner_eq_some]
    by_cases hk : k = req.chunkID
    · have hy : y.fileID = z.fileID := by
        by_contra hne
        exact htakes ⟨hk.symm.trans (chunk_id hz).symm, y, file, hacc, hne⟩
      exact ⟨_, by rw [hk]; exact update_self .., hy⟩
    · exact ⟨z, (update_of_ne hk ..).trans hz, rfl⟩
  | @retry _ _ y file hacc ht =>
    rw [ht]
    refine owner_withUpload hz fun hf => ?_
    have hlt : z.offset < y.retry.lastFailedOffset := by
      by_contra hge
      exact htakes ⟨y, file, hacc, hf.symm, Int64.not_lt.mp hge⟩
    exact ⟨_, if_pos hlt, rfl⟩

section

variable (hw : WellFormed (catalog s)) (hz : (catalog s).chunk k = some z)
include hw hz

lemma deleteFile_owner (htakes : req.fileID ≠ z.fileID)
    (h : Yields (Service.deleteFile req) s () t) : owner (catalog t) k = some z.fileID := by
  obtain ⟨file, hfile, -, hremoved⟩ := deleteFile_removed hw h
  refine owner_eq_some.mpr ⟨z, (hremoved.chunk k z).mpr ⟨hz, fun file' hfile' hin => ?_⟩, rfl⟩
  exact htakes (hw.links.file_unique hfile' hfile hin).symm

lemma deleteDirectory_owner (htakes : ¬Takes s z (.deleteDirectory req))
    (h : Yields (Service.deleteDirectory req) s () t) : owner (catalog t) k = some z.fileID := by
  obtain ⟨x, ⟨hx, hdir⟩, ⟨-, hroot⟩, hleaf, hremoved⟩ := deleteDirectory_removed hw h
  refine owner_eq_some.mpr ⟨z, (hremoved.chunk k z).mpr ⟨hz, fun file hfile hin => ?_⟩, rfl⟩
  cases hrec : req.recursive with
  | true => exact htakes ⟨hrec, hroot, ⟨x, hx, hdir⟩, file, hfile, hin⟩
  | false =>
    -- only the directory is deleted, and it is not the inode of a file
    obtain ⟨y, hy, htype, -⟩ := hw.links.file_inode _ file hfile
    rw [hleaf hrec] at hin
    rw [hin] at hy
    obtain rfl := Option.mem_unique hx hy
    rw [hdir] at htype
    cases htype

lemma call_owner (htakes : ¬Takes s z call) (h : Yields (call.run now) s () t) :
    owner (catalog t) k = some z.fileID := by
  cases call with
  | deleteFile req => exact deleteFile_owner hw hz htakes h
  | deleteDirectory req => exact deleteDirectory_owner hw hz htakes h
  | registerNode req => exact owner_of_chunk_eq hz (registerNode_changes h).chunk
  | heartbeatNode req => exact owner_of_chunk_eq hz (heartbeatNode_changes h).chunk
  | createDirectory _ | createFile _ | renameInode _ | moveInode _ =>
    exact owner_of_chunk_eq hz (chunk_of_names hw (by simp [Call.names]) h)
  | _ => exact upload_owner hz htakes (run_uploadEffect hw rfl h)

end

lemma CatalogStep.plan (h : CatalogStep ok c c') : c'.plan = c.plan := by
  cases h with
  | upload h | nodes h => exact h.plan
  | namespaces h =>
    induction h with
    | refl => rfl
    | tail _ hlast ih =>
      rw [← ih]
      cases hlast with
      | rename _ _ _ _ h | move _ _ _ _ _ _ h => exact h.plan
      | _ => rfl

end Calls

def NoDangling (c : Catalog) : Prop :=
  ∀ k p, c.plan k = some p → isTerminalReplicaPlanState p.state = false →
    owner c p.chunkID = some p.fileID

structure Tended (c c' : Catalog) : Prop where
  inode : c'.inode = c.inode
  file : c'.file = c.file
  session : c'.session = c.session
  owners : owner c' = owner c
  plan : ∀ k p, c'.plan k = some p → c.plan k = some p ∨ owner c p.chunkID = some p.fileID

section Runs

variable {w w' : World} {chunk : ChunkMetadata} {plan : ReplicaPlan}

lemma Tended.noDangling (h : Tended c c') (hc : NoDangling c) : NoDangling c' := by
  intro k p hp hopen
  rw [h.owners]
  rcases h.plan k p hp with hold | hnew
  · exact hc k p hold hopen
  · exact hnew

lemma Tended.wellFormed (h : Tended c c') (hw : WellFormed c) : WellFormed c' := by
  refine hw.chunksOf h.inode h.file h.session fun k z hz => ?_
  rw [← owner_eq_some, ← h.owners, owner_eq_some]
  exact ⟨z, hz, rfl⟩

lemma tended_update (hz : c.chunk k = some z) (hfile : z'.fileID = z.fileID)
    (hplans : ∀ j p, plans j = some p → c.plan j = some p ∨ owner c p.chunkID = some p.fileID) :
    Tended c { c with chunk := update c.chunk k (some z'), plan := plans } := by
  refine ⟨rfl, rfl, rfl, ?_, hplans⟩
  funext j
  by_cases hj : j = k
  · subst hj
    simp [owner, hz, hfile]
  · simp [owner, update_of_ne hj]

lemma plan_or_owner (hq : owner c q.chunkID = some q.fileID) (j : ReplicaPlanID) (p : ReplicaPlan)
    (hp : update c.plan k (some q) j = some p) :
    c.plan j = some p ∨ owner c p.chunkID = some p.fileID := by
  rcases update_some_eq_some.mp hp with ⟨-, rfl⟩ | ⟨-, hp⟩
  · exact .inr hq
  · exact .inl hp

lemma PlannerChange.tended (h : PlannerChange kind producer now chunk s t) :
    Tended (catalog s) (catalog t) := by
  cases h with
  | @made plan _ h =>
    have howner : owner (catalog s) plan.chunkID = some plan.fileID := by
      rw [h.chunkID, h.fileID]
      exact owner_eq_some.mpr ⟨chunk, h.stored, rfl⟩
    rw [h.catalog_eq]
    exact tended_update h.stored rfl (plan_or_owner howner)
  | revoked _ _ h =>
    obtain ⟨r, hmade, -⟩ := h.made
    rw [h.catalog_eq]
    exact tended_update hmade.stored rfl fun _ _ hp => .inl hp

lemma RepairChange.tended (h : RepairChange chunk s t) (hnamed : (catalog s).chunk "" = none) :
    Tended (catalog s) (catalog t) := by
  obtain ⟨nodeIDs, now, -, hcopied⟩ := h.copied
  obtain ⟨z, -, hfile, -, -, heq⟩ := hcopied.catalog_eq (stored_id_ne hnamed hcopied.stored)
  rw [heq]
  exact tended_update hcopied.stored hfile fun _ _ hp => .inl hp

lemma CleanupChange.tended (h : CleanupChange producer plan s t) (hc : NoDangling (catalog s))
    (hopen : isTerminalReplicaPlanState plan.state = false) : Tended (catalog s) (catalog t) := by
  cases h with
  | @finished now _ _ h =>
    obtain ⟨z, replicas, hz, -, -, heq⟩ := h.catalog_eq
    have howner : owner (catalog s) (donePlan plan now).chunkID = some (donePlan plan now).fileID :=
      hc plan.id plan h.stored hopen
    rw [heq]
    exact tended_update (findChunk_stored hz) rfl (plan_or_owner howner)
  | noted h =>
    obtain ⟨patch, -, heq⟩ := h.catalog_eq
    have howner : owner (catalog s) (patch.apply plan).chunkID = some (patch.apply plan).fileID :=
      hc plan.id plan h.stored hopen
    rw [heq]
    exact ⟨rfl, rfl, rfl, rfl, plan_or_owner howner⟩

lemma controller_noDangling {run : Controller} {r : Except CoordinatorError Unit}
    (hw : WellFormed (catalog w.store)) (hc : NoDangling (catalog w.store))
    (h : run.program.run.Runs coordinatorSemantics w r w') :
    WellFormed (catalog w'.store) ∧ NoDangling (catalog w'.store) := by
  have hkeeps {change : MemoryState → MemoryState → Prop} {t : MemoryState}
      (hrun : Relation.ReflTransGen change w.store t)
      (hchange : ∀ s t, WellFormed (catalog s) → NoDangling (catalog s) → change s t →
        Tended (catalog s) (catalog t)) :
      WellFormed (catalog t) ∧ NoDangling (catalog t) := by
    induction hrun with
    | refl => exact ⟨hw, hc⟩
    | tail _ hlast ih =>
      have htended := hchange _ _ ih.1 ih.2 hlast
      exact ⟨htended.wellFormed ih.1, htended.noDangling ih.2⟩
  have hplanner {kind : ReplicaPlanType} {producer : Bool}
      (h : ∃ now, PlannerRun kind producer now w.store w'.store) :
      WellFormed (catalog w'.store) ∧ NoDangling (catalog w'.store) := by
    obtain ⟨now, h⟩ := h
    refine hkeeps h ?_
    rintro s t - - ⟨chunk, hchange⟩
    exact hchange.tended
  cases run with
  | failover f => exact hplanner ((runs_failover f).of_runs h)
  | rebalance r => exact hplanner ((runs_rebalance r).of_runs h)
  | repair r =>
    refine hkeeps ((runs_repair r hw.links.no_empty_chunk).of_runs h) ?_
    rintro s t hw - ⟨chunk, hchange⟩
    exact hchange.tended hw.links.no_empty_chunk
  | cleanup c =>
    refine hkeeps ((runs_cleanup c).of_runs h) ?_
    rintro s t - hc ⟨plan, hmatches, hchange⟩
    refine hchange.tended hc ?_
    rcases (of_matches_examined hmatches).2 with h | h | h <;> rw [h] <;> rfl

end Runs

def Spares (w : World) : RoundAction → Prop
  | .service (.call _ call) => ∀ k p z, (catalog w.store).plan k = some p →
      isTerminalReplicaPlanState p.state = false → (catalog w.store).chunk p.chunkID = some z →
      ¬Takes w.store z call
  | _ => True

lemma service_noDangling (hw : WellFormed (catalog s)) (hs : NoDangling (catalog s))
    (hspares : Spares { store := s } (.service action)) (h : Step s action t) :
    NoDangling (catalog t) := by
  intro k p hp hopen
  have hplan := (effect_of_step hw h).catalogStep.plan
  rw [hplan] at hp
  obtain ⟨z, hz, hfile⟩ := owner_eq_some.mp (hs k p hp hopen)
  rw [← hfile]
  cases h with
  | call now call =>
    rcases exec_cases now call s with hsame | hyields
    · exact owner_of_chunk_eq hz (by rw [hsame])
    · exact call_owner hw hz (hspares k p z hp hopen hz) hyields
  | reorder hsame => exact owner_of_chunk_eq hz (by rw [sameRecords_iff.mp hsame])

/-- In every run of calls and controllers in which no call takes the chunk of an unfinished
plan, every unfinished plan names a chunk that is stored and belongs to the plan's file. -/
theorem unfinished_plans_name_chunks {history : List (World × RoundAction)} {w : World}
    (hrun : RoundRun history w) (hspares : ∀ e ∈ history, Spares e.1 e.2) :
    ∀ k p, (catalog w.store).plan k = some p → p.state ≠ .done → p.state ≠ .failed →
      ∃ z, (catalog w.store).chunk p.chunkID = some z ∧ z.fileID = p.fileID := by
  have hinv : WellFormed (catalog w.store) ∧ NoDangling (catalog w.store) := by
    refine hrun.invariant_of (I := fun w =>
      WellFormed (catalog w.store) ∧ NoDangling (catalog w.store)) hspares ?_ ?_
    · rintro w ⟨s, hs, rfl⟩
      obtain ⟨now, rfl⟩ := bootstrapped_iff.mp hs
      refine ⟨wellFormed_rootState now, ?_⟩
      intro k p hp
      cases hp
    · rintro w action w' ⟨hw, hdangling⟩ hC hstep
      cases hstep with
      | service h => exact ⟨hw.step h, service_noDangling hw hdangling hC h⟩
      | controller h => exact controller_noDangling hw hdangling h
  intro k p hp hdone hfailed
  have hopen : isTerminalReplicaPlanState p.state = false := by
    simp [isTerminalReplicaPlanState, hdone, hfailed]
  exact owner_eq_some.mp (hinv.2 k p hp hopen)

def playRound (w : World) : RoundAction → Option World
  | .service (.call now call) => some { w with store := call.exec now w.store }
  | .service .reorder => some w
  | .controller run => (run.program.run.execute obliging.perform w).map Prod.snd

lemma roundStep_of_playRound (w : World) (action : RoundAction) (w' : World)
    (h : playRound w action = some w') : RoundStep w action w' := by
  cases action with
  | controller run =>
    obtain ⟨⟨r, w'⟩, hrun, rfl⟩ := Option.map_eq_some_iff.mp h
    exact .controller (Prog.runs_of_execute (fun _ _ _ _ hstep => ⟨obliging, hstep⟩) hrun)
  | service action =>
    cases action with
    | call now call =>
      cases h
      exact .service (.call now call)
    | reorder =>
      cases h
      exact .service (.reorder ⟨rfl, rfl, rfl, rfl, rfl, rfl⟩)

lemma exists_of_playRounds
    (h : (replay playRound id { store := rootState 1 } actions).any check = true) :
    ∃ history w, RoundRun history w ∧ history.map Prod.snd = actions.map id ∧
      check (history, w) = true :=
  exists_run_of_replay ⟨rootState 1, bootstrapped_iff.mpr ⟨1, rfl⟩, rfl⟩ roundStep_of_playRound h

def plannedChunk : List RoundAction :=
  .controller (.failover { planner with taskProducer := false }) ::
    ([.heartbeatNode { nodeID := "n1", capacity := 100, used := 0, healthy := false },
      .commitChunk {
        sessionID := "u", chunkID := "k", size := 4
        replicas := some ((∅ : Table NodeID ReplicaMetadata).insert "n1"
          { readyReplica "n1" .primary with storedSize := 4 }) },
      .startUpload { sessionID := "u", fileID := "f", expectedSize := 4 },
      rootFile "i2" "g" "b" 4,
      rootFile "i1" "f" "a" 4,
      newNode "n2" "a2" 0,
      newNode "n1" "a1" 0]
    : List Call).map fun call => .service (.call 1 call)

def harmless (w : World) : RoundAction → Bool
  | .service (.call _ (.deleteFile req)) =>
    w.store.chunks.values.all fun chunk => chunk.fileID ≠ req.fileID
  | .service _ => w.store.replicaPlans.values.isEmpty
  | .controller _ => true

lemma spares_of_harmless (h : harmless w action = true) : Spares w action := by
  have hempty (h : w.store.replicaPlans.values.isEmpty = true) {k : ReplicaPlanID}
      {p : ReplicaPlan} (hp : (catalog w.store).plan k = some p) : False := by
    have hmem := Records.mem_values_iff_exists.mpr ⟨k, hp⟩
    rw [List.isEmpty_iff.mp h] at hmem
    exact absurd hmem List.not_mem_nil
  cases action with
  | controller run => trivial
  | service action =>
    cases action with
    | reorder => trivial
    | call now call =>
      intro k p z hp _ hz
      cases call with
      | deleteFile req =>
        have hmem := Records.mem_values_iff_exists.mpr ⟨_, hz⟩
        have hne := List.all_eq_true.mp h z hmem
        exact fun heq => of_decide_eq_true hne heq.symm
      | _ => exact (hempty h hp).elim

/-- The empty file is deleted and the plan keeps its chunk. -/
theorem plan_keeps_chunk :
    ∃ history w, RoundRun history w ∧ (∀ e ∈ history, Spares e.1 e.2) ∧
      planIs "failover-k-n2-7" .materialized w = true ∧
      ∀ k p, (catalog w.store).plan k = some p → p.state ≠ .done → p.state ≠ .failed →
        ∃ z, (catalog w.store).chunk p.chunkID = some z ∧ z.fileID = p.fileID := by
  have hrun : (replay playRound id { store := rootState 1 }
      (.service (.call 1 (.deleteFile { fileID := "g" })) :: plannedChunk)).any (fun run =>
        (run.1.all fun e => harmless e.1 e.2) &&
          planIs "failover-k-n2-7" .materialized run.2) = true := by decide +kernel
  obtain ⟨history, w, h, -, hcheck⟩ := exists_of_playRounds hrun
  rw [Bool.and_eq_true] at hcheck
  have hspares : ∀ e ∈ history, Spares e.1 e.2 :=
    fun e he => spares_of_harmless (List.all_eq_true.mp hcheck.1 e he)
  exact ⟨history, w, h, hspares, hcheck.2, unfinished_plans_name_chunks h hspares⟩

/-- The file of the chunk is deleted and the plan stays. -/
theorem plan_loses_chunk :
    ∃ history w, RoundRun history w ∧
      ∃ p, (catalog w.store).plan "failover-k-n2-7" = some p ∧ p.state = .materialized ∧
        (catalog w.store).chunk p.chunkID = none := by
  have hrun : (replay playRound id { store := rootState 1 }
      (.service (.call 1 (.deleteFile { fileID := "f" })) :: plannedChunk)).any (fun run =>
        (run.2.store.replicaPlans.lookup "failover-k-n2-7").any fun p =>
          p.state = .materialized && (run.2.store.chunks.lookup p.chunkID).isNone) = true := by
    decide +kernel
  obtain ⟨history, w, h, -, hcheck⟩ := exists_of_playRounds hrun
  obtain ⟨p, hp, hbad⟩ := (Option.any_eq_true ..).mp hcheck
  rw [Bool.and_eq_true, decide_eq_true_eq, Option.isNone_iff_eq_none] at hbad
  exact ⟨history, w, h, p, hp, hbad.1, hbad.2⟩

end AstraStorage.Proofs
