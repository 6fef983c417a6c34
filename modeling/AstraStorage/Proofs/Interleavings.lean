import AstraStorage.Proofs.CleanupSafety
import AstraStorage.Proofs.ReplicaCounts

/-!
# The system step by step

Clients, controllers and deliveries interleave in any order, whatever datanodes and broker answer.
-/

namespace AstraStorage.Proofs
open Lib Store Service Coordinator Function

variable {ι : Type} [DecidableEq ι] {s t : MemoryState}

def bare (z : ChunkMetadata) : ChunkMetadata :=
  { z with replicas := none, replicaCount := 0, replicaPolicy := {}, updatedAt := 0 }

/-- What clients have put into the repository. -/
def content (c : Catalog) := (c.inode, c.file, c.session, fun k => (c.chunk k).map bare)

lemma content_putChunk (hz : (catalog s).chunk z.id = some z) (hid : z'.id = z.id)
    (hbare : bare z' = bare z) :
    content (catalog { s with chunks := s.chunks.put z' }) = content (catalog s) := by
  have hchunk : (fun k => (update (catalog s).chunk z.id (some z') k).map bare) =
      fun k => ((catalog s).chunk k).map bare := by
    funext k
    by_cases hk : k = z.id
    · rw [hk, update_self, hz, Option.map_some, hbare, Option.map_some]
    · rw [update_of_ne hk]
  rw [catalog_putChunk, hid, content, hchunk]
  rfl

lemma content_write {v : Write} (h : Yields v.run s () t) :
    content (catalog t) = content (catalog s) := by
  rcases write_cases h with ⟨plans, rfl⟩ | ⟨z, _, _, _, _, hz, -, rfl⟩
  · rfl
  · exact content_putChunk hz rfl rfl

/-- A step of the abstract machine: what a call does, or one that leaves the content alone. -/
def SystemStep (c c' : Catalog) : Prop :=
  CatalogStep (fun _ => True) c c' ∨ content c' = content c

section AnyPrograms

variable {α : Type} {programs : ι → Prog coordinatorSteps α} {w : World} {c : SystemPool ι α}
  {tr : List (SystemPool ι α × (ι × AtomicOp))} (hstart : Regular w.store)
  (h : SystemRun programs w tr c)
include hstart h

lemma interleaving_keeps : Regular c.2.store ∧
    Relation.ReflTransGen SystemStep (catalog w.store) (catalog c.2.store) := by
  refine (run_keeps h (J := fun s => Regular s ∧
    Relation.ReflTransGen SystemStep (catalog w.store) (catalog s)) (fun i => ?_)
    ⟨hstart, .refl⟩).1
  apply Prog.asks_of_forall
  rintro (call | _ | _ | _ | _ | _ | _ | _ | _ | _ | ⟨now, call⟩)
  · rintro v _ s t ⟨hregular, hreach⟩ hwrite
    exact ⟨hregular.rewritten (write_rewrites hwrite), hreach.tail (.inr (content_write hwrite))⟩
  iterate 9 · trivial
  · rintro s t ⟨hregular, hreach⟩ hyields
    have hexec : call.exec now s = t := exec_of_yields hyields
    have heffect := effect_of_step hregular.wellFormed (.call now call)
    rw [← hexec]
    exact ⟨hregular.exec now call, hreach.tail (.inl heffect.catalogStep)⟩

/-- At every moment the directories form a tree, no reference between the tables dangles, no two
chunks of a file share an index, and a file record names the parent of its inode. -/
theorem regular_of_interleaving : Regular c.2.store :=
  (interleaving_keeps hstart h).1

end AnyPrograms

def directoryClients (i : Bool) : Prog coordinatorSteps (Except CoordinatorError Unit) :=
  (step (.service 1 (.createDirectory
    { inodeID := if i then "d" else "e"
      parentID := rootInodeID
      name := if i then "a" else "b" }))).run

lemma directoryClients_overlap : ∃ tr c, SystemRun directoryClients { store := rootState 1 } tr c ∧
    ((catalog c.2.store).inode "d").isSome ∧ (catalog c.2.store).inode "e" = none := by
  have hrun : runPasses directoryClients { store := rootState 1 }
      (obligingTurns [(true, 1), (false, 1), (true, 1), (false, 1)]) (fun p =>
        (p.2.2.store.inodes.lookup "d").isSome && (p.2.2.store.inodes.lookup "e").isNone) =
          true := by
    decide +kernel
  obtain ⟨tr, c, h, hcheck⟩ := exists_of_runPasses hrun
  obtain ⟨hmade, hlost⟩ := Bool.and_eq_true_iff.mp hcheck
  exact ⟨tr, c, h, hmade, Option.isNone_iff_eq_none.mp hlost⟩

theorem regular_afterOverlap : ∃ tr c,
    SystemRun directoryClients { store := rootState 1 } tr c ∧
      ((catalog c.2.store).inode "d").isSome ∧ (catalog c.2.store).inode "e" = none ∧
      Regular c.2.store := by
  obtain ⟨tr, c, h, hmade, hlost⟩ := directoryClients_overlap
  exact ⟨tr, c, h, hmade, hlost, regular_of_interleaving (regular_rootState 1) h⟩

/-- Controllers, deliveries and heartbeats leave directories, files and sessions alone. They make
and lose no chunk, and change nothing of a chunk but its replicas and its update time. -/
theorem background_keepsContent {activities : ι → Activity} {w : World} {c : ControllerPool ι}
    {tr : List (ControllerPool ι × (ι × AtomicOp))} (h : ControllerRun activities w tr c) :
    content (catalog c.2.store) = content (catalog w.store) := by
  refine (run_keeps h (J := fun s => content (catalog s) = content (catalog w.store))
    (fun i => (asked_program (activities i)).asks.mono fun o ho => ?_) rfl).1
  cases o with
  | repo call => exact fun _ _ _ _ hs hwrite => (content_write hwrite).trans hs
  | service now call =>
    obtain ⟨req, rfl⟩ := ho
    intro s t hs hyields
    have hnodes := heartbeatNode_changes hyields
    rw [← hs, content, hnodes.inode, hnodes.file, hnodes.session, hnodes.chunk]
    rfl
  | _ => trivial

theorem content_afterRebalance :
    ∃ tr c, ControllerRun crowdedNodeActivities { store := crowdedNode } tr c ∧
      tr.length = 25 ∧ content (catalog c.2.store) = content (catalog crowdedNode) := by
  have hrun : runPasses (fun i => (crowdedNodeActivities i).program.run) { store := crowdedNode }
      (obligingTurns [(3, 4), (4, 2), (3, 3), (1, 9), (0, 7)]) (·.1.length = 25) = true := by
    decide +kernel
  obtain ⟨tr, c, h, hlength⟩ := exists_of_runPasses hrun
  exact ⟨tr, c, h, of_decide_eq_true hlength, background_keepsContent h⟩

/-- An upload call returns exactly if its guards hold, and then has its effect on the catalog. One
that is refused changes nothing. -/
theorem upload_decided {call : Call} {k : UploadSessionID} (hw : WellFormed (catalog s))
    (hk : sessionNamed call = some k) (now : Time) :
    ((∃ t, Yields (call.run now) s () t) ↔ UploadAccepted s call) ∧
      (UploadAccepted s call → UploadEffect s (call.exec now s) (.call now call)) ∧
      (¬UploadAccepted s call → call.exec now s = s) := by
  refine ⟨⟨?_, fun h => h.returns now hw⟩, fun h => h.effect hw, exec_of_refused hw hk⟩
  rintro ⟨t, h⟩
  exact (run_uploadEffect hw hk h).accepted

theorem upload_decided_start : ∃ history s, ServiceRun history s ∧
    UploadAccepted s (.startUpload { sessionID := "u", fileID := "f" }) := by
  refine ⟨_, _, serviceRun_play 1 [.createFile
    { inodeID := "i", fileID := "f", parentID := rootInodeID, name := "a" }], ?_⟩
  by_contra hrefused
  have hsame := (upload_decided (wellFormed_of_run (serviceRun_play 1 _)) rfl 1).2.2 hrefused
  have hsession := congrArg (fun s => ((catalog s).session "u").isSome) hsame
  exact absurd hsession (by decide +kernel)

end AstraStorage.Proofs
