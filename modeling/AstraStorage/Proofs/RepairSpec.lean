import AstraStorage.Proofs.ControllerSteps
import AstraStorage.Proofs.Placement

/-!
# What the repairer writes

Copying a chunk leaves the repository as it was, or it writes a new entry for each target into the
replicas of the chunk, ready if the datanode says so and pending otherwise.
-/

namespace AstraStorage.Proofs
open Lib Prog Store Coordinator Allocator Table

section Patches

variable {nodeID : NodeID}

lemma replicaOn_apply (patch : ChunkReplicaPatch) (z : ChunkMetadata) (nodeID : NodeID) :
    replicaOn (patch.apply z).replicas nodeID =
      if nodeID ∈ patch.removeNodeIDs then none
      else (replicaOn patch.upserts nodeID).or (replicaOn z.replicas nodeID) := by
  rw [← lookup_replicas patch.upserts, ← lookup_replicas z.replicas, ← lookup_foldl_insert,
    ← lookup_foldl_erase]
  rfl

lemma replicaLen_eq (z : ChunkMetadata) :
    replicaLen z = (Table.size (z.replicas.getD ∅) : Int) := by
  simp [replicaLen, replicaEntries, size]

lemma replicaLen_congr
    (h : ∀ n, (replicaOn z'.replicas n).isSome ↔ (replicaOn z.replicas n).isSome) :
    replicaLen z' = replicaLen z := by
  rw [replicaLen_eq, replicaLen_eq]
  congr 1
  refine size_congr fun n => ?_
  rw [lookup_replicas, lookup_replicas]
  exact h n

lemma replicaLen_succ (hnew : replicaOn z.replicas nodeID = none)
    (h : ∀ n, (replicaOn z'.replicas n).isSome ↔ n = nodeID ∨ (replicaOn z.replicas n).isSome) :
    replicaLen z' = replicaLen z + 1 := by
  rw [replicaLen_eq, replicaLen_eq]
  norm_cast
  refine size_succ (k := nodeID) ?_ fun n => ?_
  · rw [lookup_replicas]
    exact hnew
  · rw [lookup_replicas, lookup_replicas]
    exact h n

end Patches

def CopyReady (results : List ReplicaWriteResult) (nodeID : NodeID) : Bool :=
  (results.reverse.find? (·.nodeID = nodeID)).any (·.state = .ready)

lemma CopyReady.exists_ready {results : List ReplicaWriteResult}
    (h : CopyReady results n = true) :
    ∃ result ∈ results, result.nodeID = n ∧ result.state = .ready := by
  obtain ⟨result, hresult, hready⟩ := (Option.any_eq_true ..).mp h
  have hnode := List.find?_some hresult
  exact ⟨result, List.mem_reverse.mp (List.mem_of_find?_eq_some hresult), of_decide_eq_true hnode,
    of_decide_eq_true hready⟩

def servedReplica (chunk : ChunkMetadata) (now : Time) (results : List ReplicaWriteResult)
    (nodeID : NodeID) : ReplicaMetadata :=
  if CopyReady results nodeID then
    { copiedReplica chunk now nodeID with
      state := .ready, storedSize := chunk.size, verifiedAt := some now }
  else { copiedReplica chunk now nodeID with state := .pending }

def copyPatch (chunk : ChunkMetadata) (now : Time) (upserts : Table NodeID ReplicaMetadata) :
    ChunkReplicaPatch :=
  { selector := { id := chunk.id }
    upserts := some upserts
    replicaCount := some (replicaLen chunk)
    updatedAt := now }

section Copies

variable {sem : Semantics coordinatorSteps World}
  (hsem : ∀ {o w r w'}, sem o w r w' → coordinatorSemantics o w r w') (r : PendingReplicaRepairer)
  (chunk : ChunkMetadata) (now : Time)
include hsem

lemma ensures_elsewhere_bind {α : Type} {f : coordinatorSteps.Reply o → CoordinatorM α}
    {Q : α → World → Prop}
    (ho : touchesStore o = false)
    (hf : ∀ reply w', w'.store = w.store → Ensures sem w' (f reply) Q E) :
    Ensures sem w (step o >>= f) Q E := by
  have hstep : Ensures sem w (step o) (fun _ w' => w'.store = w.store) E := by
    refine ensures_step fun reply w' h => ?_
    obtain ⟨env, henv⟩ := hsem h
    exact perform_elsewhere ho henv
  exact hstep.bind fun reply w' hw' => hf reply w' hw'

def ResultsRecorded (results : List ReplicaWriteResult) (targets : List ReplicaTarget)
    (outcome : RepairOutcome) (upserts : Table NodeID ReplicaMetadata)
    (out : RepairOutcome × Table NodeID ReplicaMetadata) : Prop :=
  (out.1.succeeded = outcome.succeeded ∨ ∃ target ∈ targets, CopyReady results target.nodeID) ∧
  ∀ nodeID, out.2.lookup nodeID =
    if nodeID ∈ targets.map (·.nodeID) then some (servedReplica chunk now results nodeID)
    else upserts.lookup nodeID

lemma ensures_recordResults (results : List ReplicaWriteResult) (targets : List ReplicaTarget)
    (outcome : RepairOutcome) (upserts : Table NodeID ReplicaMetadata) :
    Ensures sem w (r.recordResults chunk now results targets outcome upserts)
      (fun out w' => w'.store = w.store ∧
        ResultsRecorded chunk now results targets outcome upserts out) E := by
  induction targets generalizing w outcome upserts with
  | nil => exact ensures_pure ⟨rfl, .inl rfl, fun nodeID => rfl⟩
  | cons target targets ih =>
    have hnext {replica : ReplicaMetadata}
        (hreplica : replica = servedReplica chunk now results target.nodeID)
        {w' : World} (hw' : w'.store = w.store) {outcome' : RepairOutcome}
        (hcount : outcome'.succeeded = outcome.succeeded ∨ CopyReady results target.nodeID) :
        Ensures sem w' (r.recordResults chunk now results targets outcome'
          (upserts.insert target.nodeID replica)) (fun out w'' => w''.store = w.store ∧
            ResultsRecorded chunk now results (target :: targets) outcome upserts out) E := by
      refine (ih outcome' _).mono ?_ fun _ h => h
      rintro out w'' ⟨hw'', hrest, hlookup⟩
      refine ⟨hw''.trans hw', ?_, fun nodeID => ?_⟩
      · rcases hcount with hcount | hserved
        · refine hrest.imp (·.trans hcount) ?_
          rintro ⟨other, hmem, hother⟩
          exact ⟨other, List.mem_cons_of_mem _ hmem, hother⟩
        · exact .inr ⟨target, List.mem_cons_self, hserved⟩
      · rw [hlookup nodeID, hreplica]
        exact lookup_insert_ite (servedReplica chunk now results) _ _ _ _
    refine ensures_ite (fun hready => ?_) fun hready => ?_
    · refine ensures_elsewhere_bind hsem rfl fun _ w' hw' => hnext ?_ hw' (.inr hready)
      exact (if_pos hready).symm
    · refine ensures_elsewhere_bind hsem rfl fun _ w' hw' => hnext ?_ hw' (.inl rfl)
      exact (if_neg hready).symm

lemma ensures_recordSkipped (nodeIDs : List NodeID) (outcome : RepairOutcome)
    (upserts : Table NodeID ReplicaMetadata) :
    Ensures sem w (r.recordSkipped chunk now nodeIDs outcome upserts)
      (fun out w' => w'.store = w.store ∧ out.1.succeeded = outcome.succeeded ∧
        ∀ nodeID, out.2.lookup nodeID =
          if nodeID ∈ nodeIDs then some { copiedReplica chunk now nodeID with state := .pending }
          else upserts.lookup nodeID) E := by
  induction nodeIDs generalizing w outcome upserts with
  | nil => exact ensures_pure ⟨rfl, rfl, fun nodeID => rfl⟩
  | cons skipped nodeIDs ih =>
    refine ensures_elsewhere_bind hsem rfl fun _ w' hw' => (ih _ _).mono ?_ fun _ h => h
    rintro out w'' ⟨hw'', hcount, hlookup⟩
    refine ⟨hw''.trans hw', hcount, fun nodeID => ?_⟩
    rw [hlookup nodeID]
    exact lookup_insert_ite (fun nodeID =>
      { copiedReplica chunk now nodeID with state := .pending }) _ _ _ _

def Recorded (chunk : ChunkMetadata) (now : Time) (served skipped : List NodeID)
    (results : List ReplicaWriteResult) (s t : MemoryState) : Prop :=
  ∃ upserts : Table NodeID ReplicaMetadata,
    (∀ nodeID, upserts.lookup nodeID =
      if nodeID ∈ skipped then some { copiedReplica chunk now nodeID with state := .pending }
      else if nodeID ∈ served then some (servedReplica chunk now results nodeID) else none) ∧
    Yields (updateChunkReplicas (copyPatch chunk now upserts)) s () t

lemma ensures_recordCopy (targets : List ReplicaTarget) (skipped : List NodeID)
    (results : List ReplicaWriteResult) :
    Ensures sem w (r.recordCopy chunk now targets skipped results)
      (fun out w' => (out.1.succeeded = 0 ∨ ∃ target ∈ targets, CopyReady results target.nodeID) ∧
        (Recorded chunk now (targets.map (·.nodeID)) skipped results w.store w'.store ∨
          w'.store = w.store)) E := by
  refine (ensures_recordResults hsem r chunk now results targets _ ∅).bind ?_
  rintro ⟨outcome, upserts⟩ w1 ⟨hw1, hcount, hserved⟩
  refine (ensures_recordSkipped hsem r chunk now skipped outcome upserts).bind ?_
  rintro ⟨outcome', upserts'⟩ w2 ⟨hw2, hcount', hskipped⟩
  have hwrite : Ensures sem w2 (repo (.write (.updateChunkReplicas
      (copyPatch chunk now upserts'))))
      (fun _ w' => Yields (updateChunkReplicas (copyPatch chunk now upserts')) w.store () w'.store)
      (fun w' => w'.store = w.store) := by
    refine ensures_call hsem (fun a s hrun => ?_) (hw2.trans hw1)
    rw [← hw1, ← hw2]
    exact hrun
  refine hwrite.attempt.bind fun written w3 hwritten => ?_
  cases written with
  | ok _ =>
    refine ensures_pure ⟨hcount.imp_left hcount'.trans, .inl ⟨upserts', fun nodeID => ?_, hwritten⟩⟩
    rw [hskipped nodeID, hserved nodeID]
    rfl
  | error err => exact ensures_pure ⟨hcount.imp_left hcount'.trans, .inr hwritten⟩

lemma ensures_targetNodes (nodeIDs : List NodeID) (hw : Q w) :
    Ensures sem w
      (nodeIDs.mapM fun nodeID => do
        let node ← repo (.getNode nodeID)
        return (nodeID, node))
      (fun nodes w' => List.Forall₂ (fun nodeID e => e.1 = nodeID ∧ e.2.id = nodeID) nodeIDs nodes ∧
        Q w') Q := by
  refine ensures_mapM hw fun nodeID _ w' hw' => ?_
  have hread : Ensures sem w' (repo (.getNode nodeID))
      (fun (node : NodeInfo) w1 => node.id = nodeID ∧ Q w1) Q := by
    refine ensures_read hsem rfl (fun node hget => ⟨?_, hw'⟩) hw'
    exact node_id (yields_getNode.mp hget).1
  exact hread.bind fun node w1 hnode => ensures_pure ⟨⟨rfl, hnode.1⟩, hnode.2⟩

lemma ensures_giveUp (nodeIDs : List NodeID) (attempted : Int) (err : Option CoordinatorError) :
    Ensures sem w (r.giveUp chunk nodeIDs now attempted err)
      (fun out w' => out.1.succeeded = 0 ∧ w'.store = w.store) E :=
  ensures_elsewhere_bind hsem rfl fun _ _ hw' => ensures_pure ⟨rfl, hw'⟩

structure CopyExecuted (Answer : List ReplicaWriteResult → Prop) (nodeIDs : List NodeID)
    (s : MemoryState) (out : RepairOutcome × Option CoordinatorError) (t : MemoryState) :
    Prop where
  count : out.1.succeeded = 0 ∨ ∃ results, Answer results ∧
    ∃ result ∈ results, result.nodeID ∈ nodeIDs ∧ result.state = .ready
  store : t = s ∨ ∃ served skipped results, served ⊆ nodeIDs ∧ skipped ⊆ nodeIDs ∧
    Recorded chunk now served skipped results s t

theorem ensures_executeReplicaCopy {Answer : List ReplicaWriteResult → Prop}
    (hanswer : ∀ {address req w w' results},
      sem (.replicateChunk address req) w (.ok results) w' → Answer results)
    (source : NodeID) (nodeIDs : List NodeID) :
    Ensures sem w (r.executeReplicaCopy now chunk source nodeIDs)
      (fun out w' => CopyExecuted chunk now Answer nodeIDs w.store out w'.store) E := by
  have hgiveUp {w' : World} (hw' : w'.store = w.store) (attempted : Int)
      (err : Option CoordinatorError) :
      Ensures sem w' (r.giveUp chunk nodeIDs now attempted err)
        (fun out w' => CopyExecuted chunk now Answer nodeIDs w.store out w'.store) E :=
    (ensures_giveUp hsem r chunk now nodeIDs attempted err).mono
      (fun _ _ hout => ⟨.inl hout.1, .inl (hout.2.trans hw')⟩) fun _ h => h
  have hsource : Ensures sem w (repo (.getNode source)) (fun _ w' => w' = w) (· = w) :=
    ensures_read hsem rfl (fun _ _ => rfl) rfl
  refine hsource.attempt.bind fun found w' hw' => ?_
  cases found with
  | error err => exact hgiveUp (congrArg World.store hw') _ _
  | ok sourceNode =>
    subst w'
    refine ensures_ite (fun _ => hgiveUp rfl _ _) fun _ => ?_
    have hnodes : Ensures sem w _ _ (· = w) := ensures_targetNodes hsem nodeIDs rfl
    refine hnodes.attempt.bind fun found w' hfound => ?_
    cases found with
    | error err => exact hgiveUp (congrArg World.store hfound) _ _
    | ok nodes =>
      obtain ⟨hnodes, hsame⟩ := hfound
      subst w'
      refine ensures_ite (fun _ => hgiveUp rfl _ _) fun _ => ?_
      have hcopy {address : String} {req : ReplicateChunkRequest} :
          Ensures sem w (PendingReplicaRepairer.replicateChunk address req)
            (fun results w1 => Answer results ∧ w1.store = w.store)
            (fun w1 => w1.store = w.store) := by
        rintro (e | results) w1 hstep
        · obtain ⟨env, henv⟩ := hsem hstep
          exact perform_elsewhere rfl henv
        · obtain ⟨env, henv⟩ := hsem hstep
          exact ⟨hanswer hstep, perform_elsewhere rfl henv⟩
      refine hcopy.attempt.bind fun answer w1 hw1 => ?_
      cases answer with
      | error err => exact hgiveUp hw1 _ _
      | ok results =>
        obtain ⟨hresults, hw1⟩ := hw1
        have hasked {node : NodeInfo} (hnode : node ∈ PendingReplicaRepairer.selectedNodes nodes) :
            node.id ∈ nodeIDs := by
          obtain ⟨key, hkey⟩ := mem_of_mem_selectedNodes hnode
          obtain ⟨target, htarget, -, hid⟩ := forall₂_exists_left hnodes hkey
          have htargetID : node.id = target := hid
          rwa [htargetID]
        refine (ensures_recordCopy hsem r chunk now _ _ results).mono ?_ fun _ h => h
        rintro out w2 ⟨hcount, hrecorded⟩
        refine ⟨hcount.imp_right ?_, ?_⟩
        · rintro ⟨target, htarget, hserved⟩
          obtain ⟨node, hnode, rfl⟩ := List.mem_map.mp htarget
          obtain ⟨result, hmem, hid, hready⟩ := CopyReady.exists_ready hserved
          exact ⟨results, hresults, result, hmem, hid ▸ hasked hnode, hready⟩
        rcases hrecorded with hrecorded | hw2
        · rw [hw1] at hrecorded
          refine .inr ⟨_, _, results, ?_, ?_, hrecorded⟩
          · intro nodeID hmem
            simp only [List.map_map, List.mem_map] at hmem
            obtain ⟨node, hnode, rfl⟩ := hmem
            exact hasked hnode
          · intro nodeID hmem
            obtain ⟨e, he, rfl⟩ := mem_of_mem_skippedNodeIDs hmem
            obtain ⟨target, htarget, hfst, -⟩ := forall₂_exists_left hnodes he
            exact hfst ▸ htarget
        · exact .inl (hw2.trans hw1)

end Copies

end AstraStorage.Proofs
