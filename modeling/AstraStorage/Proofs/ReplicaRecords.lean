import AstraStorage.Proofs.ChunkedUploads
import AstraStorage.Proofs.CleanupSafety
import AstraStorage.Proofs.RegisteredNodes
import AstraStorage.Proofs.ReplicaCounts

/-!
# What the replica records say

Commits, planners and copies write down which chunk, file and node an entry is for. The IDs keep
entries apart as long as no node's ID ends in the ID of another; a copy for an entry that is gone
leaves the ID empty.
-/

namespace AstraStorage.Proofs
open Lib Store Service Coordinator Allocator List String

variable {n : NodeID} {replica : ReplicaMetadata} {z : ChunkMetadata} {now : Time}

def Entries (P : ChunkID → FileID → NodeID → ReplicaMetadata → Prop) (c : Catalog) : Prop :=
  ∀ k z, c.chunk k = some z → ∀ n replica, replicaOn z.replicas n = some replica →
    P k z.fileID n replica

section Entries

variable {P : ChunkID → FileID → NodeID → ReplicaMetadata → Prop} {s : MemoryState}

lemma Entries.step (hs : Entries P (catalog s)) (hw : WellFormed (catalog s)) (h : Step s a t)
    (hcommit : ∀ now req f n replica, a = .call now (.commitChunk req) →
      replicaOn req.replicas n = some replica →
        P req.chunkID f n (fillReplica f req.chunkID n replica)) : Entries P (catalog t) := by
  have hkept := (effect_of_step hw h).chunksBy
    (R := fun z z' => z'.replicas = z.replicas ∧ z'.fileID = z.fileID)
    (fun _ => ⟨rfl, rfl⟩) fun _ _ => ⟨rfl, rfl⟩
  intro k z' hz' n replica hreplica
  rcases hkept with hkept | ⟨now, req, -, -, -, rfl, -⟩
  · obtain ⟨z, hz, hreplicas, hfile⟩ := hkept k z' hz'
    rw [hreplicas] at hreplica
    rw [hfile]
    exact hs k z hz n replica hreplica
  · cases h with
    | call =>
      rcases exec_cases now (.commitChunk req) s with hsame | hyields
      · rw [hsame] at hz'
        exact hs k z' hz' n replica hreplica
      · obtain ⟨chunk, hcommitted, -⟩ := yields_map.mp hyields
        obtain ⟨y, file, replicas, -, ht, hnormal, -⟩ := commitChunk_spec hw hcommitted
        rw [ht] at hz'
        rcases update_some_eq_some.mp hz' with ⟨rfl, rfl⟩ | ⟨-, hz⟩
        · have hfilled : replicaOn replicas n = some replica := hreplica
          rw [normalizeChunkReplicas_eq hnormal, replicaOn_filledReplicas] at hfilled
          obtain ⟨given, hgiven, rfl⟩ := Option.map_eq_some_iff.mp hfilled
          exact hcommit now req y.fileID n given rfl hgiven
        · exact hs k z' hz n replica hreplica

lemma Entries.changes (hs : Entries P (catalog s)) (hnamed : (catalog s).chunk "" = none)
    (h : ControllerChanges known s t)
    (hplanned : ∀ z n now, ((catalog s).node n).isSome →
      P z.id z.fileID n (pendingReplica .secondary z n now))
    (hcopied : ∀ z n now replica, known z n →
      (∀ m r, replicaOn z.replicas m = some r → P z.id z.fileID m r) →
        CopyEntry z now n replica → P z.id z.fileID n replica) : Entries P (catalog t) := by
  induction h with
  | refl => exact hs
  | @tail r t hbefore hstep ih =>
    obtain ⟨hnamed, hnode⟩ := ControllerChanges.named_and_node_eq hbefore hnamed
    intro k z' hz' n replica hreplica
    obtain ⟨z, hz, -, hfile, hentries⟩ := hstep.entries hnamed hz'
    have hid := chunk_id hz
    rw [hfile, ← hid]
    cases hentries n replica hreplica with
    | kept h => exact hid.symm ▸ ih k z hz n replica h
    | planned h => exact hplanned z n _ (hnode ▸ h ▸ rfl)
    | copied hknown h =>
      exact hcopied z n _ replica hknown (fun m r hr => hid.symm ▸ ih k z hz m r hr) h

end Entries

structure DescribesItself (k : ChunkID) (f : FileID) (n : NodeID) (replica : ReplicaMetadata) :
    Prop where
  nodeID : replica.nodeID = n
  chunkID : replica.chunkID = k
  fileID : replica.fileID = f

lemma CopyEntry.describesItself (h : CopyEntry z now n replica) :
    DescribesItself z.id z.fileID n replica := by
  cases h with
  | ready | pending => exact ⟨rfl, rfl, rfl⟩

lemma describesItself_changes (hs : Entries DescribesItself (catalog s))
    (hnamed : (catalog s).chunk "" = none) (h : ControllerChanges known s t) :
    Entries DescribesItself (catalog t) :=
  hs.changes hnamed h (fun _ _ _ _ => ⟨rfl, rfl, rfl⟩) fun _ _ _ _ _ _ hcopy => hcopy.describesItself

/-- In every run of calls, controllers and tasks, each entry of a chunk names the node that it is
stored under, the chunk and its file. -/
theorem replica_describes_itself {history : List (World × AtomicAction)} {w : World}
    (hrun : AtomicRun history w) {k : ChunkID} {z : ChunkMetadata}
    (hz : (catalog w.store).chunk k = some z) {n : NodeID} {replica : ReplicaMetadata}
    (hreplica : replicaOn z.replicas n = some replica) :
    replica.nodeID = n ∧ replica.chunkID = z.id ∧ replica.fileID = z.fileID := by
  have hinv : WellFormed (catalog w.store) ∧ Entries DescribesItself (catalog w.store) := by
    refine hrun.invariant
      (I := fun w => WellFormed (catalog w.store) ∧ Entries DescribesItself (catalog w.store)) ?_ ?_
    · rintro w ⟨s, hs, rfl⟩
      obtain ⟨now, rfl⟩ := bootstrapped_iff.mp hs
      refine ⟨wellFormed_rootState now, fun k z hz => ?_⟩
      cases hz
    · rintro w action w' ⟨hwell, hentries⟩ hstep
      have hnamed := hwell.links.no_empty_chunk
      cases hstep with
      | round h =>
        cases h with
        | service h =>
          refine ⟨hwell.step h, hentries.step hwell h ?_⟩
          exact fun _ _ _ _ _ _ _ => ⟨rfl, rfl, rfl⟩
        | controller h =>
          exact ⟨((asked_program (.controller _)).ensures step_wellFormed hwell).of_runs h,
            describesItself_changes hentries hnamed ((changes_program _ hnamed).of_runs h)⟩
      | task h =>
        exact ⟨((asked_handle _ _ _).ensures step_wellFormed hwell).of_runs h,
          describesItself_changes hentries hnamed ((changes_handle _ _ _).of_runs h)⟩
  obtain ⟨hnode, hchunk, hfile⟩ := hinv.2 k z hz n replica hreplica
  exact ⟨hnode, hchunk.trans (chunk_id hz).symm, hfile⟩

/-- A chunk whose second replica is repaired by a task. -/
theorem repairedReplica_describes_itself :
    ∃ history w z replica, AtomicRun history w ∧ (catalog w.store).chunk "k" = some z ∧
      replicaOn z.replicas "n2" = some replica ∧ replica.state = .ready ∧
      replica.nodeID = "n2" ∧ replica.chunkID = z.id ∧ replica.fileID = z.fileID := by
  have hrun : (replay playAtomic id { store := rootState 1 }
      (.task repairer cleaner (.replicaRepair repairTask) :: publishedRepair)).any (fun run =>
        (run.2.store.chunks.lookup "k").any fun z =>
          (replicaOn z.replicas "n2").any (·.state = .ready)) = true := by
    decide +kernel
  obtain ⟨history, w, h, -, hcheck⟩ := exists_of_playAtomics hrun
  obtain ⟨z, hz, hready⟩ := (Option.any_eq_true ..).mp hcheck
  obtain ⟨replica, hreplica, hstate⟩ := (Option.any_eq_true ..).mp hready
  exact ⟨history, w, z, replica, h, hz, hreplica, of_decide_eq_true hstate,
    replica_describes_itself h hz hreplica⟩

def IsReplicaID (k : ChunkID) (n : NodeID) (id : String) : Prop :=
  id = Gateway.replicaID k n ∨ id = k ++ "-" ++ n

def EndsIn (n m : NodeID) : Prop := ∃ x, n = x ++ "-" ++ m ∨ n = x ++ "@" ++ m

section IDs

variable {k k' : ChunkID} {n' : NodeID} {id : String}

lemma IsReplicaID.toList (h : IsReplicaID k n id) :
    ∃ c, (c = '-' ∨ c = '@') ∧ id.toList = k.toList ++ c :: n.toList := by
  rcases h with rfl | rfl
  · exact ⟨'@', .inr rfl, by simp [Gateway.replicaID, toList_append]⟩
  · exact ⟨'-', .inl rfl, by simp [toList_append]⟩

lemma IsReplicaID.ne_empty (h : IsReplicaID k n id) : id ≠ "" := by
  rintro rfl
  obtain ⟨c, -, hlist⟩ := h.toList
  simp at hlist

lemma endsIn_of_toList (hc : c = '-' ∨ c = '@') (h : n.toList = x ++ c :: n'.toList) :
    EndsIn n n' := by
  refine ⟨ofList x, ?_⟩
  rcases hc with rfl | rfl
  · refine .inl (toList_inj.mp ?_)
    rw [h]
    simp [toList_append]
  · refine .inr (toList_inj.mp ?_)
    rw [h]
    simp [toList_append]

lemma IsReplicaID.eq_or_endsIn (h : IsReplicaID k n id) (h' : IsReplicaID k' n' id) :
    k = k' ∧ n = n' ∨ EndsIn n n' ∨ EndsIn n' n := by
  obtain ⟨c, hc, hlist⟩ := h.toList
  obtain ⟨c', hc', hlist'⟩ := h'.toList
  rcases append_eq_append_iff.mp (hlist.symm.trans hlist') with
    ⟨_ | ⟨d, x⟩, hk, hn⟩ | ⟨_ | ⟨d, x⟩, hk, hn⟩
  · rw [append_nil] at hk
    rw [nil_append, cons.injEq] at hn
    exact .inl ⟨(toList_inj.mp hk).symm, toList_inj.mp hn.2⟩
  · rw [cons_append, cons.injEq] at hn
    exact .inr (.inl (endsIn_of_toList hc' hn.2))
  · rw [append_nil] at hk
    rw [nil_append, cons.injEq] at hn
    exact .inl ⟨toList_inj.mp hk, (toList_inj.mp hn.2).symm⟩
  · rw [cons_append, cons.injEq] at hn
    exact .inr (.inr (endsIn_of_toList hc hn.2))

end IDs

def FromGateway (req : CommitChunkRequest) : Prop :=
  ∃ now fileID primary secondaryTargets results checksum size, req.replicas =
    some (Gateway.buildChunkReplicas now fileID req.chunkID primary secondaryTargets results
      checksum size)

def nodeIDsOf : AtomicAction → List NodeID
  | .round (.service (.call _ (.registerNode req))) => [req.id]
  | .round (.service (.call _ (.commitChunk req))) => (replicaEntries req.replicas).map Prod.fst
  | _ => []

structure IDFits (nodes : NodeID → Prop) (k : ChunkID) (_f : FileID) (n : NodeID)
    (replica : ReplicaMetadata) : Prop where
  node : nodes n
  id : IsReplicaID k n replica.id

section Fits

variable {nodes : NodeID → Prop} {s : MemoryState}

lemma idFits_commit (hgateway : FromGateway req)
    (hnodes : ∀ m ∈ (replicaEntries req.replicas).map Prod.fst, nodes m)
    (hreplica : replicaOn req.replicas n = some replica) :
    IDFits nodes req.chunkID f n (fillReplica f req.chunkID n replica) := by
  refine ⟨hnodes n (mem_map.mpr ⟨_, mem_replicaEntries.mpr hreplica, rfl⟩), .inl ?_⟩
  obtain ⟨now, fileID, primary, targets, results, checksum, size, hreplicas⟩ := hgateway
  rw [hreplicas] at hreplica
  obtain ⟨role, state, rfl, -⟩ := entry_of_buildChunkReplicas hreplica
  have hid : (Gateway.chunkReplica now fileID req.chunkID checksum size n role state).id =
    Gateway.replicaID req.chunkID n := rfl
  exact (if_neg (IsReplicaID.ne_empty (.inl hid))).trans hid

lemma CopyEntry.id_eq (h : CopyEntry z now n replica) (hold : replicaOn z.replicas n = some old) :
    replica.id = old.id := by
  cases h with
  | ready | pending => simp only [copiedReplica, hold, Option.getD_some]

lemma idFits_changes (hs : Entries (IDFits nodes) (catalog s))
    (hnamed : (catalog s).chunk "" = none) (hnodes : ∀ n, ((catalog s).node n).isSome → nodes n)
    (h : ControllerChanges known s t) (hlisted : ∀ z n, known z n → (replicaOn z.replicas n).isSome) :
    Entries (IDFits nodes) (catalog t) := by
  refine hs.changes hnamed h (fun z n now hn => ⟨hnodes n hn, .inr rfl⟩) ?_
  intro z n now replica hknown hall hcopy
  obtain ⟨old, hold⟩ := Option.isSome_iff_exists.mp (hlisted z n hknown)
  obtain ⟨hnode, hid⟩ := hall n old hold
  exact ⟨hnode, hcopy.id_eq hold ▸ hid⟩

end Fits

structure KeepsIDs (nodes : NodeID → Prop) (w : World) (action : AtomicAction) : Prop where
  gateway : ∀ now req, action = .round (.service (.call now (.commitChunk req))) → FromGateway req
  brings : ∀ n ∈ nodeIDsOf action, nodes n
  target : FindsTarget w action

structure IDsFit (nodes : NodeID → Prop) (w : World) : Prop where
  well : WellFormed (catalog w.store)
  registered : ∀ n, ((catalog w.store).node n).isSome → nodes n
  entries : Entries (IDFits nodes) (catalog w.store)

lemma IDsFit.step (hw : IDsFit nodes w) (hkeeps : KeepsIDs nodes w action)
    (h : AtomicStep w action w') : IDsFit nodes w' := by
  obtain ⟨hwell, hnodes, hentries⟩ := hw
  have hnamed := hwell.links.no_empty_chunk
  have hchanged {known : ChunkMetadata → NodeID → Prop}
      (hchanges : ControllerChanges known w.store w'.store)
      (hwell' : WellFormed (catalog w'.store))
      (hlisted : ∀ z n, known z n → (replicaOn z.replicas n).isSome) : IDsFit nodes w' := by
    refine ⟨hwell', fun n hn => ?_, idFits_changes hentries hnamed hnodes hchanges hlisted⟩
    exact hnodes n ((hchanges.named_and_node_eq hnamed).2 ▸ hn)
  cases h with
  | round h =>
    cases h with
    | service h =>
      refine ⟨hwell.step h, fun n hn => ?_, hentries.step hwell h ?_⟩
      · obtain ⟨node, hnode⟩ := Option.isSome_iff_exists.mp hn
        rcases node_of_step hwell h hnode with hbefore | ⟨now, req, rfl, rfl, -⟩
        · exact hnodes n hbefore
        · exact hkeeps.brings req.id mem_cons_self
      · rintro now req f n replica rfl hreplica
        exact idFits_commit (hkeeps.gateway now req rfl) hkeeps.brings hreplica
    | controller h =>
      exact hchanged ((changes_program _ hnamed).of_runs h)
        (((asked_program (.controller _)).ensures step_wellFormed hwell).of_runs h)
        fun _ _ hlisted => hlisted
  | task h =>
    exact hchanged ((changes_handle _ _ _).of_runs h)
      (((asked_handle _ _ _).ensures step_wellFormed hwell).of_runs h)
      (TargetListed.copiesTo hkeeps.target)

/-- In every run of calls, controllers and tasks, where commits come from the gateway, no node's ID
ends in another one's, and each task finds its target among the replicas of its chunk, every
replica has an ID and no other replica has the same. -/
theorem replicaIDs_unique {history : List (World × AtomicAction)} {w : World}
    (hrun : AtomicRun history w)
    (hgateway : ∀ e ∈ history, ∀ now req, e.2 = .round (.service (.call now (.commitChunk req))) →
      FromGateway req)
    (hnames : ∀ e ∈ history, ∀ e' ∈ history, ∀ n ∈ nodeIDsOf e.2, ∀ m ∈ nodeIDsOf e'.2,
      ¬EndsIn n m)
    (htargets : ∀ e ∈ history, FindsTarget e.1 e.2) :
    ∀ k z n replica, (catalog w.store).chunk k = some z → replicaOn z.replicas n = some replica →
      replica.id ≠ "" ∧ ∀ k' z' n' replica', (catalog w.store).chunk k' = some z' →
        replicaOn z'.replicas n' = some replica' → replica.id = replica'.id → k = k' ∧ n = n' := by
  let nodes (n : NodeID) : Prop := ∃ e ∈ history, n ∈ nodeIDsOf e.2
  have hfit : IDsFit nodes w := by
    refine hrun.invariant_of (C := KeepsIDs nodes) ?_ ?_ ?_
    · exact fun e he => ⟨hgateway e he, fun n hn => ⟨e, he, hn⟩, htargets e he⟩
    · rintro w ⟨s, hs, rfl⟩
      obtain ⟨now, rfl⟩ := bootstrapped_iff.mp hs
      refine ⟨wellFormed_rootState now, fun n hn => ?_, fun k z hz => ?_⟩
      · cases hn
      · cases hz
    · exact fun w action w' hw hkeeps h => hw.step hkeeps h
  intro k z n replica hz hreplica
  obtain ⟨⟨e, he, hn⟩, hid⟩ := hfit.entries k z hz n replica hreplica
  refine ⟨hid.ne_empty, fun k' z' n' replica' hz' hreplica' heq => ?_⟩
  obtain ⟨⟨e', he', hn'⟩, hid'⟩ := hfit.entries k' z' hz' n' replica' hreplica'
  rcases hid.eq_or_endsIn (heq ▸ hid') with hsame | hends | hends
  · exact hsame
  · exact absurd hends (hnames e he e' he' n hn n' hn')
  · exact absurd hends (hnames e' he' e he n' hn' n hn)

def registrations (nodes : List (NodeID × Int64)) : List AtomicAction :=
  nodes.map fun node => .round (.service (.call 1 (newNode node.1 node.1 node.2)))

def gatewayUpload (f : FileID) (k : ChunkID) (primary : NodeID) (others : List NodeID) :
    List AtomicAction :=
  ([.commitChunk {
      sessionID := k, chunkID := k, size := 4
      replicas := some (Gateway.buildChunkReplicas 1 f k ⟨primary, primary⟩
        (others.map fun n => ⟨n, n⟩) [] {} 4) },
    .startUpload { sessionID := k, fileID := f, expectedSize := 4 },
    rootFile f f f 4]
    : List Call).map fun call => .round (.service (.call 1 call))

def copyTo (n : NodeID) : AtomicAction :=
  .task repairer cleaner (.replicaRepair (newReplicaRepairTask "k" "f" "n1" n))

def GatewayOnly (actions : List AtomicAction) : Prop :=
  ∀ now req, .round (.service (.call now (.commitChunk req))) ∈ actions → FromGateway req

section GatewayOnly

variable {actions : List AtomicAction}

lemma GatewayOnly.append (h : GatewayOnly actions) (hrest : GatewayOnly rest) :
    GatewayOnly (actions ++ rest) := by
  intro now req hmem
  rcases mem_append.mp hmem with hmem | hmem
  · exact h now req hmem
  · exact hrest now req hmem

lemma gatewayOnly_registrations (nodes : List (NodeID × Int64)) :
    GatewayOnly (registrations nodes) := by
  intro now req hmem
  obtain ⟨node, -, heq⟩ := mem_map.mp hmem
  cases heq

lemma gatewayOnly_gatewayUpload (f : FileID) (k : ChunkID) (primary : NodeID)
    (others : List NodeID) : GatewayOnly (gatewayUpload f k primary others) := by
  intro now req hmem
  obtain ⟨call, hcall, heq⟩ := mem_map.mp hmem
  cases heq
  simp only [rootFile, mem_cons, Call.commitChunk.injEq, reduceCtorEq, not_mem_nil,
    or_false] at hcall
  subst hcall
  exact ⟨_, _, _, _, _, _, _, rfl⟩

lemma exists_of_playGateway (hgateway : GatewayOnly actions)
    (h : (replay playAtomic id { store := rootState 1 } actions).any check = true) :
    ∃ history w, AtomicRun history w ∧
      (∀ e ∈ history, ∀ now req, e.2 = .round (.service (.call now (.commitChunk req))) →
        FromGateway req) ∧ check (history, w) = true := by
  obtain ⟨history, w, hrun, hactions, hcheck⟩ := exists_of_playAtomics h
  refine ⟨history, w, hrun, fun e he now req heq => hgateway now req ?_, hcheck⟩
  rw [← map_id actions, ← hactions, ← heq]
  exact mem_map_of_mem he

end GatewayOnly

lemma EndsIn.length_lt (h : EndsIn n m) : m.length < n.length := by
  have hdash : "-".length = 1 := by decide
  have hat : "@".length = 1 := by decide
  obtain ⟨x, rfl | rfl⟩ := h
  · rw [String.length_append, String.length_append]
    omega
  · rw [String.length_append, String.length_append]
    omega

/-- The second replica of an upload is repaired. -/
theorem repairedUpload_unique :
    ∃ history w, AtomicRun history w ∧
      (∃ z, (catalog w.store).chunk "k" = some z ∧ replicaLen z = 2) ∧
      ∀ k z n replica, (catalog w.store).chunk k = some z →
        replicaOn z.replicas n = some replica →
        replica.id ≠ "" ∧ ∀ k' z' n' replica', (catalog w.store).chunk k' = some z' →
          replicaOn z'.replicas n' = some replica' → replica.id = replica'.id →
            k = k' ∧ n = n' := by
  have hrun : (replay playAtomic id { store := rootState 1 }
      ([copyTo "n2", .round (.controller (.repair repairer))] ++ gatewayUpload "f" "k" "n1" ["n2"] ++
        registrations [("n2", 0), ("n1", 0)])).any (fun run =>
      (run.1.all fun e => finds e.1 e.2 && (nodeIDsOf e.2).all (·.length = 2)) &&
        (run.2.store.chunks.lookup "k").any (replicaLen · = 2)) = true := by
    decide +kernel
  have hgateway : GatewayOnly
      ([copyTo "n2", .round (.controller (.repair repairer))] ++ gatewayUpload "f" "k" "n1" ["n2"] ++
        registrations [("n2", 0), ("n1", 0)]) := by
    refine (GatewayOnly.append ?_ (gatewayOnly_gatewayUpload _ _ _ _)).append
      (gatewayOnly_registrations _)
    intro now req hmem
    simp [copyTo] at hmem
  obtain ⟨history, w, h, hcommits, hcheck⟩ := exists_of_playGateway hgateway hrun
  rw [Bool.and_eq_true] at hcheck
  obtain ⟨hall, hlen⟩ := hcheck
  obtain ⟨z, hz, htwo⟩ := (Option.any_eq_true ..).mp hlen
  have hsteps (e) (he : e ∈ history) : FindsTarget e.1 e.2 ∧ ∀ n ∈ nodeIDsOf e.2, n.length = 2 := by
    have hstep := all_eq_true.mp hall e he
    rw [Bool.and_eq_true] at hstep
    exact ⟨findsTarget_of_finds hstep.1,
      fun n hn => of_decide_eq_true (all_eq_true.mp hstep.2 n hn)⟩
  refine ⟨history, w, h, ⟨z, hz, of_decide_eq_true htwo⟩,
    replicaIDs_unique h hcommits ?_ fun e he => (hsteps e he).1⟩
  intro e he e' he' n hn m hm hends
  have hlt := hends.length_lt
  rw [(hsteps e he).2 n hn, (hsteps e' he').2 m hm] at hlt
  exact lt_irrefl 2 hlt

structure Ordinary (history : List (World × AtomicAction)) : Prop where
  gateway : ∀ e ∈ history, ∀ now req,
    e.2 = .round (.service (.call now (.commitChunk req))) → FromGateway req
  published : ∀ e ∈ history, ∀ r c task, e.2 = .task r c task → task ∈ e.1.tasks

lemma exists_ordinary {actions : List AtomicAction} {p : World → Bool}
    (hgateway : GatewayOnly actions)
    (h : (replay playAtomic id { store := rootState 1 } actions).any (fun run =>
      (run.1.all fun e => published e.1 e.2) && p run.2) = true) :
    ∃ history w, AtomicRun history w ∧ Ordinary history ∧ p w = true := by
  obtain ⟨history, w, hrun, hcommits, hcheck⟩ := exists_of_playGateway hgateway h
  rw [Bool.and_eq_true] at hcheck
  refine ⟨history, w, hrun, ⟨hcommits, fun e he r c task htask => ?_⟩, hcheck.2⟩
  have hpublished := all_eq_true.mp hcheck.1 e he
  rw [htask] at hpublished
  exact of_decide_eq_true hpublished

def repeatedRepair : List AtomicAction :=
  [copyTo "n2",
    .task repairer cleaner (.cleanup ⟨"rebalance-k-n4-7", "f", "n2", .rebalance⟩),
    .round (.controller (.cleanup cleaner)), copyTo "n4",
    .round (.controller (.repair repairer)),
    .round (.controller (.rebalance { rebalancer with taskProducer := true })),
    copyTo "n3", copyTo "n2", .round (.controller (.repair repairer))] ++
    gatewayUpload "f" "k" "n1" ["n2", "n3"] ++
    registrations [("n4", 0), ("n3", 0), ("n2", 90), ("n1", 0)]

lemma repeatedRepair_leaves_emptyID :
    ∃ history w z replica, AtomicRun history w ∧ Ordinary history ∧
      (catalog w.store).chunk "k" = some z ∧ replicaOn z.replicas "n2" = some replica ∧
      replica.id = "" := by
  have hgateway : GatewayOnly repeatedRepair := by
    refine (GatewayOnly.append ?_ (gatewayOnly_gatewayUpload _ _ _ _)).append
      (gatewayOnly_registrations _)
    intro now req hmem
    simp [copyTo] at hmem
  obtain ⟨history, w, hrun, hordinary, hcheck⟩ := exists_ordinary
    (p := fun w => (w.store.chunks.lookup "k").any fun z =>
      (replicaOn z.replicas "n2").any (·.id = "")) hgateway (by decide +kernel)
  obtain ⟨z, hz, hreplica⟩ := (Option.any_eq_true ..).mp hcheck
  obtain ⟨replica, hreplica, hid⟩ := (Option.any_eq_true ..).mp hreplica
  exact ⟨history, w, z, replica, hrun, hordinary, hz, hreplica, of_decide_eq_true hid⟩

lemma gatewayUploads_share_id :
    ∃ history w z z' replica replica', AtomicRun history w ∧ Ordinary history ∧
      (catalog w.store).chunk "a" = some z ∧ replicaOn z.replicas "b@c" = some replica ∧
      (catalog w.store).chunk "a@b" = some z' ∧ replicaOn z'.replicas "c" = some replica' ∧
      replica.id = replica'.id := by
  have hgateway : GatewayOnly (gatewayUpload "g" "a@b" "c" [] ++ gatewayUpload "f" "a" "b@c" [] ++
      registrations [("c", 0), ("b@c", 0)]) :=
    ((gatewayOnly_gatewayUpload _ _ _ _).append (gatewayOnly_gatewayUpload _ _ _ _)).append
      (gatewayOnly_registrations _)
  obtain ⟨history, w, hrun, hordinary, hcheck⟩ := exists_ordinary
    (p := fun w => (w.store.chunks.lookup "a").any fun z =>
      (w.store.chunks.lookup "a@b").any fun z' => (replicaOn z.replicas "b@c").any fun replica =>
        (replicaOn z'.replicas "c").any (replica.id = ·.id)) hgateway (by decide +kernel)
  obtain ⟨z, hz, hcheck⟩ := (Option.any_eq_true ..).mp hcheck
  obtain ⟨z', hz', hcheck⟩ := (Option.any_eq_true ..).mp hcheck
  obtain ⟨replica, hreplica, hcheck⟩ := (Option.any_eq_true ..).mp hcheck
  obtain ⟨replica', hreplica', hid⟩ := (Option.any_eq_true ..).mp hcheck
  exact ⟨history, w, z, z', replica, replica', hrun, hordinary, hz, hreplica, hz', hreplica',
    of_decide_eq_true hid⟩

/-- A repair task that is delivered again after the replica was moved away makes an entry without
an ID. And the gateway gives the replicas of two chunks one ID, as the ID of one node ends in the
other's. -/
theorem replicaIDs_empty_and_equal :
    (∃ history w z replica, AtomicRun history w ∧ Ordinary history ∧
      (catalog w.store).chunk "k" = some z ∧ replicaOn z.replicas "n2" = some replica ∧
      replica.id = "") ∧
    ∃ history w z z' replica replica', AtomicRun history w ∧ Ordinary history ∧
      (catalog w.store).chunk "a" = some z ∧ replicaOn z.replicas "b@c" = some replica ∧
      (catalog w.store).chunk "a@b" = some z' ∧ replicaOn z'.replicas "c" = some replica' ∧
      replica.id = replica'.id :=
  ⟨repeatedRepair_leaves_emptyID, gatewayUploads_share_id⟩

end AstraStorage.Proofs
