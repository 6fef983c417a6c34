import AstraStorage.Proofs.FinishedPlans
import AstraStorage.Proofs.PlannerSpec

/-!
# Which lost replicas a failover run notices

The planner counts the replicas that are left by the health flag of their nodes alone. A chunk with
a lost replica gets a plan exactly if that count is short and some node is admitted as a target.
-/

namespace AstraStorage.Proofs
open Lib Prog Store Coordinator Allocator List Option FailoverPlanner

variable {s t : MemoryState} {c chunk : ChunkMetadata} {nodeID : NodeID} {node : NodeInfo}
  {chunkID : ChunkID} {ids : List ReplicaPlanID} {f : FailoverPlanner} {file : FileMetadata}
  {w : World}

section LostCopies

variable (f : FailoverPlanner) (now : Time)

def Unavailable (s : MemoryState) (nodeID : NodeID) : Prop :=
  ∃ node, (catalog s).node nodeID = some node ∧ f.isNodeUnavailable node now = true

def availableReadyReplicas (s : MemoryState) (chunk : ChunkMetadata) : Int :=
  (replicaEntries chunk.replicas).countP fun e =>
    e.2.state = .ready && (s.nodes.lookup e.1).any fun node => !f.isNodeUnavailable node now

structure LostCopy (s : MemoryState) (chunk : ChunkMetadata) (file : FileMetadata) : Prop where
  stored : (catalog s).chunk chunk.id = some chunk
  file_found : findFile s { id := chunk.fileID } = some file
  lost : ∃ nodeID, Unavailable f now s nodeID ∧ (replicaOn chunk.replicas nodeID).isSome
  short : availableReadyReplicas f now s chunk < FailoverPlanner.desiredReplicaCount chunk file
  unplanned : ∀ k p, (catalog s).plan k = some p → p.type = .failover → p.chunkID = chunk.id →
    isTerminalReplicaPlanState p.state = true
  candidate : ∃ node, (catalog s).node node.id = some node ∧
    f.isNodeUnavailable node now = false ∧ replicaOn chunk.replicas node.id = none ∧
    trimSpace node.address ≠ "" ∧ requiredPlacementBytes chunk ≤ availableCapacity node

def NewPlan (s t : MemoryState) (chunkID : ChunkID) (k : ReplicaPlanID) : Prop :=
  (catalog s).plan k = none ∧
    ∃ p, (catalog t).plan k = some p ∧ p.type = .failover ∧ p.chunkID = chunkID

def Ahead (s : MemoryState) (c chunk : ChunkMetadata) : Prop :=
  ∃ nodeID, Unavailable f now s nodeID ∧ (replicaOn c.replicas nodeID).isSome ∧
    ∀ m, Unavailable f now s m → (replicaOn chunk.replicas m).isSome →
      nodeID < m ∨ nodeID = m ∧ chunkOrder c chunk

def BudgetUsedUp (s t : MemoryState) (chunk : ChunkMetadata) : Prop :=
  ∃ ids : List ReplicaPlanID, ids.Nodup ∧ (ids.length : Int) = f.maxPlansPerRun ∧
    ∀ k ∈ ids, ∃ c, (catalog s).chunk c.id = some c ∧ c.id ≠ chunk.id ∧
      Ahead f now s c chunk ∧ NewPlan s t c.id k

end LostCopies

section Untouched

structure Untouched (s t : MemoryState) (chunk : ChunkMetadata) : Prop where
  nodes : t.nodes = s.nodes
  files : t.files = s.files
  chunk_kept : (catalog t).chunk chunk.id = some chunk
  no_plan : ∀ k p, (catalog t).plan k = some p → p.chunkID = chunk.id →
    (catalog s).plan k = some p

lemma Untouched.refl (h : (catalog s).chunk chunk.id = some chunk) : Untouched s s chunk :=
  ⟨rfl, rfl, h, fun _ _ hp _ => hp⟩

lemma Untouched.added (h : Untouched s r chunk) (hadd : PlanAdded r t plan)
    (hne : plan.chunkID ≠ chunk.id) : Untouched s t chunk := by
  refine ⟨hadd.nodes.trans h.nodes, hadd.files.trans h.files, ?_, fun k p hp hchunk => ?_⟩
  · rw [hadd.chunk_of_ne hne.symm]
    exact h.chunk_kept
  · rcases hadd.plan_cases hp with rfl | hp
    · exact absurd hchunk hne
    · exact h.no_plan k p hp hchunk

lemma Untouched.not_new (h : Untouched s t chunk) (k : ReplicaPlanID) :
    ¬NewPlan s t chunk.id k := by
  rintro ⟨hnone, p, hp, -, hchunk⟩
  rw [h.no_plan k p hp hchunk] at hnone
  cases hnone

def Noticed (s : MemoryState) (chunk : ChunkMetadata) (file : FileMetadata) : Prop :=
  countEffectiveReadyReplicas chunk (allNodes s) <
      FailoverPlanner.desiredReplicaCount chunk file ∧
    ∃ node, (catalog s).node node.id = some node ∧
      (FailoverPlanner.placementRequest chunk (allNodes s)).admits node = true

lemma matches_activePlans (h : (FailoverPlanner.activePlans chunk).matches p = true) :
    p.type = .failover ∧ isTerminalReplicaPlanState p.state = false ∧
      (chunk.id = "" ∨ p.chunkID = chunk.id) := by
  simp only [ReplicaPlanFilter.matches, activePlans, Bool.and_eq_true] at h
  obtain ⟨⟨⟨⟨⟨htype, hstate⟩, hchunk⟩, -⟩, -⟩, -⟩ := h
  have hactive : p.state = .planned ∨ p.state = .materialized ∨ p.state = .copyReady ∨
      p.state = .cleanupReady := by simpa [activeReplicaPlanStates] using hstate
  rw [Bool.or_eq_true] at hchunk
  refine ⟨by simpa using htype, ?_, hchunk.imp of_decide_eq_true of_decide_eq_true⟩
  rcases hactive with h | h | h | h
  · rw [h]
    rfl
  · rw [h]
    rfl
  · rw [h]
    rfl
  · rw [h]
    rfl

lemma Untouched.wanted_iff (h : Untouched s t chunk) (hid : chunk.id ≠ "")
    (hunplanned : ∀ k p, (catalog s).plan k = some p → p.type = .failover →
      p.chunkID = chunk.id → isTerminalReplicaPlanState p.state = true) :
    Wanted t chunk file ↔ Noticed s chunk file := by
  have hnodes : allNodes t = allNodes s := by rw [allNodes, h.nodes, allNodes]
  have hfree : ¬ActivelyPlanned t chunk := by
    rintro ⟨k, p, hp, hmatches⟩
    obtain ⟨htype, hactive, hchunk⟩ := matches_activePlans hmatches
    have hof := hchunk.resolve_left hid
    rw [hunplanned k p (h.no_plan k p hp hof) htype hof] at hactive
    cases hactive
  have hplaced : selectPlacementTargets (placementRequest chunk (allNodes t)) ≠ []
      ↔ ∃ node, (catalog s).node node.id = some node ∧
        (placementRequest chunk (allNodes s)).admits node = true := by
    rw [hnodes, select_ne_nil Int.one_pos]
    simp only [placementRequest, mem_allNodes]
  constructor
  · intro hwanted
    exact ⟨hnodes ▸ hwanted.short, hplaced.mp hwanted.placed⟩
  · rintro ⟨hshort, htarget⟩
    exact ⟨hnodes.symm ▸ hshort, hfree, hplaced.mpr htarget⟩

end Untouched

section Seeking

variable (f : FailoverPlanner) (now : Time) {remaining : Int}

structure Seeking (s : MemoryState) (chunk : ChunkMetadata) (ids : List ReplicaPlanID)
    (remaining : Int) (t : MemoryState) : Prop extends Untouched s t chunk where
  nodup : ids.Nodup
  count : (ids.length : Int) + remaining = f.maxPlansPerRun
  ahead : ∀ k ∈ ids, ∃ c, (catalog s).chunk c.id = some c ∧ c.id ≠ chunk.id ∧
    Ahead f now s c chunk ∧ NewPlan s t c.id k
  kept : ∀ k p, (catalog s).plan k = some p → (catalog t).plan k = some p
  planned : ∀ c, (catalog t).chunk c.id = some c →
    (catalog s).chunk c.id = some c ∨ ActivelyPlanned t c

variable {f now}

lemma ActivelyPlanned.added (h : ActivelyPlanned s chunk) (hadd : PlanAdded s t plan) :
    ActivelyPlanned t chunk := by
  obtain ⟨k, p, hp, hmatches⟩ := h
  exact ⟨k, p, hadd.plan_kept hp, hmatches⟩

lemma NewPlan.added (h : NewPlan s r chunkID k) (hadd : PlanAdded r t plan) :
    NewPlan s t chunkID k := by
  obtain ⟨hnone, p, hp, hfailover⟩ := h
  exact ⟨hnone, p, hadd.plan_kept hp, hfailover⟩

lemma Seeking.fresh (h : Seeking f now s chunk ids remaining r) (hadd : PlanAdded r t plan) :
    (catalog s).plan plan.id = none := by
  by_contra hsome
  obtain ⟨p, hp⟩ := ne_none_iff_exists'.mp hsome
  have hfresh := hadd.accepted.fresh
  rw [h.kept _ _ hp] at hfresh
  cases hfresh

lemma Seeking.added (h : Seeking f now s chunk ids remaining r) (hadd : PlanAdded r t plan)
    (htype : plan.type = .failover) (hstate : plan.state = .materialized)
    (hchunk : plan.chunkID = c.id) (hstored : (catalog s).chunk c.id = some c)
    (hne : c.id ≠ chunk.id) (hahead : Ahead f now s c chunk) :
    Seeking f now s chunk (plan.id :: ids) (remaining - 1) t := by
  refine { h.toUntouched.added hadd (hchunk.trans_ne hne) with
    nodup := ?_, count := ?_, ahead := ?_, kept := ?_, planned := ?_ }
  · refine nodup_cons.mpr ⟨fun hmem => ?_, h.nodup⟩
    obtain ⟨-, -, -, -, -, p, hp, -⟩ := h.ahead _ hmem
    rw [hadd.accepted.fresh] at hp
    cases hp
  · have hcount := h.count
    rw [length_cons]
    omega
  · intro k hk
    rcases mem_cons.mp hk with rfl | hk
    · exact ⟨c, hstored, hne, hahead, h.fresh hadd, plan, hadd.stored, htype, hchunk⟩
    · obtain ⟨c', hstored', hne', hahead', hnew⟩ := h.ahead k hk
      exact ⟨c', hstored', hne', hahead', hnew.added hadd⟩
  · exact fun k p hp => hadd.plan_kept (h.kept k p hp)
  · intro z hz
    by_cases hzc : z.id = c.id
    · refine .inr ⟨plan.id, plan, hadd.stored, ?_⟩
      simp [ReplicaPlanFilter.matches, activePlans, activeReplicaPlanStates,
        htype, hstate, hchunk, hzc]
    · rw [hadd.chunk_of_ne (hchunk ▸ hzc)] at hz
      exact (h.planned z hz).imp_right fun hactive => hactive.added hadd

end Seeking

section Runs

variable {sem : Semantics coordinatorSteps World} {now : Time}

lemma FailoverPlanned.added (h : FailoverPlanned s t c nodeID now) :
    ∃ plan, PlanAdded s t plan ∧ plan.type = .failover ∧ plan.state = .materialized ∧
      plan.chunkID = c.id := by
  obtain ⟨target, rest, -, hwrites⟩ := h
  exact ⟨_, planAdded_of_writes rfl hwrites, rfl, rfl, rfl⟩

lemma Untouched.eq_of_id (h : Untouched s t chunk) (hc : (catalog t).chunk c.id = some c)
    (hid : c.id = chunk.id) : c = chunk := by
  rw [hid, h.chunk_kept, some.injEq] at hc
  exact hc.symm

lemma Untouched.file_eq (h : Untouched s t chunk)
    (hfile : findFile s { id := chunk.fileID } = some file)
    (hfile' : findFile t { id := chunk.fileID } = some file') : file' = file := by
  unfold findFile at hfile hfile'
  rw [h.files, hfile, some.injEq] at hfile'
  exact hfile'.symm

variable (hsem : ∀ {o w r w'}, sem o w r w' → coordinatorSemantics o w r w')
include hsem

lemma ensures_node_found (h : ∃ k, NewPlan s w.store chunkID k) :
    Ensures sem w (f.planNodeFailover node now r)
      (fun _ w' => ∃ k, NewPlan s w'.store chunkID k) (fun _ => True) := by
  refine ensures_read_bind hsem rfl (fun chunks _ => ?_) trivial
  refine (ensures_planChunks f now node.id
    (P := fun _ _ w => ∃ k, NewPlan s w.store chunkID k) h ?_).mono ?_ fun _ h => h
  · rintro done c rest r' w1 - - ⟨k, hnew⟩
    refine (ensures_planChunkFailover hsem f node.id now).mono ?_ fun _ h => h
    rintro planned w2 ⟨file', -, ⟨-, -, hplanned⟩ | ⟨-, -, hsame⟩⟩
    · obtain ⟨plan, hadd, -⟩ := hplanned.added
      exact ⟨k, hnew.added hadd⟩
    · exact hsame ▸ ⟨k, hnew⟩
  · rintro n w' ⟨done, rest, -, hnew, -⟩
    exact hnew

variable (hfile : findFile s { id := chunk.fileID } = some file)
  (hunplanned : ∀ k p, (catalog s).plan k = some p → p.type = .failover → p.chunkID = chunk.id →
    isTerminalReplicaPlanState p.state = true)
include hfile hunplanned

lemma ensures_visit_untouched (hno : chunk.id ≠ "" → ¬Noticed s chunk file)
    (h : Untouched s w.store chunk) (hc : c.id = chunk.id → c = chunk) :
    Ensures sem w (f.planChunkFailover c nodeID now)
      (fun _ w' => Untouched s w'.store chunk) (fun _ => True) := by
  refine (ensures_planChunkFailover hsem f nodeID now).mono ?_ fun _ h => h
  rintro planned w' ⟨file', hfile', ⟨-, hwanted, hplanned⟩ | ⟨-, -, hsame⟩⟩
  · obtain ⟨plan, hadd, -, -, hchunk⟩ := hplanned.added
    refine h.added hadd fun heq => ?_
    obtain rfl := hc (hchunk.symm.trans heq)
    have hid : c.id ≠ "" := hchunk ▸ hadd.accepted.chunk_ne
    obtain rfl := h.file_eq hfile hfile'
    exact hno hid ((h.wanted_iff hid hunplanned).mp hwanted)
  · rw [hsame]
    exact h

lemma ensures_planOnce_untouched (hno : chunk.id ≠ "" → ¬Noticed s chunk file)
    (h : Untouched s w.store chunk) :
    Ensures sem w f.planOnce (fun _ w' => Untouched s w'.store chunk) (fun _ => True) := by
  refine ensures_timeNow_bind hsem fun now => ?_
  refine (ensures_listUnavailableNodes f now hsem).bind ?_
  rintro nodes w ⟨-, rfl⟩
  refine (ensures_planNodes_visits f now (P := fun _ _ w => Untouched s w.store chunk) h ?_).mono
    ?_ fun _ h => h
  · intro done node rest r w hnodes hr hun
    refine ensures_read_bind hsem rfl (fun chunks hchunks => ?_) trivial
    obtain rfl := (yields_listChunksByNode.mp hchunks).1
    refine (ensures_planChunks f now node.id (P := fun _ _ w => Untouched s w.store chunk)
      hun ?_).mono ?_ fun _ h => h
    · intro done c rest r w1 hsplit hr hun1
      have hmem : c ∈ chunksOn w.store node.id := hsplit ▸ mem_append_right _ mem_cons_self
      exact ensures_visit_untouched hsem hfile hunplanned hno hun1
        (hun.eq_of_id (mem_chunksOn.mp hmem).1)
    · rintro n w1 ⟨done, rest, -, hun1, -⟩
      exact hun1
  · rintro _ w' ⟨done, rest, r, -, hun, -⟩
    exact hun

def SeekingAfter (f : FailoverPlanner) (now : Time) (s base : MemoryState) (chunk : ChunkMetadata)
    (done : List ChunkMetadata) (remaining : Int) (t : MemoryState) : Prop :=
  (∃ k, NewPlan s t chunk.id k) ∨
    ∃ ids, Seeking f now s chunk ids remaining t ∧ (∀ c ∈ done, c.id ≠ chunk.id) ∧
      ∀ c, ActivelyPlanned base c → ActivelyPlanned t c

lemma ensures_visit_seeking {base : MemoryState} {r0 : Int} {done rest : List ChunkMetadata}
    (hid : chunk.id ≠ "") (hnoticed : Noticed s chunk file)
    (hbase : Seeking f now s chunk ids r0 base) (hnode : Unavailable f now s nodeID)
    (hfirst : ∀ m, Unavailable f now s m → (replicaOn chunk.replicas m).isSome →
      nodeID < m ∨ nodeID = m)
    (hsplit : chunksOn base nodeID = done ++ c :: rest)
    (h : SeekingAfter f now s base chunk done r w.store) :
    Ensures sem w (f.planChunkFailover c nodeID now)
      (fun planned w' => SeekingAfter f now s base chunk (done ++ [c])
        (if planned then r - 1 else r) w'.store) (fun _ => True) := by
  have hmem : c ∈ chunksOn base nodeID := hsplit ▸ mem_append_right _ mem_cons_self
  obtain ⟨hstored, hreplica⟩ := mem_chunksOn.mp hmem
  refine (ensures_planChunkFailover hsem f nodeID now).mono ?_ fun _ h => h
  rintro planned w' ⟨file', hfile', ⟨rfl, hwanted, hplanned⟩ | ⟨rfl, hunwanted, hsame⟩⟩
  · obtain ⟨plan, hadd, htype, hstate, hchunk⟩ := hplanned.added
    rcases h with ⟨k, hnew⟩ | ⟨ids', hseek, hdone, hactive⟩
    · exact .inl ⟨k, hnew.added hadd⟩
    by_cases hc : c.id = chunk.id
    · exact .inl ⟨plan.id, hseek.fresh hadd, plan, hadd.stored, htype, hchunk.trans hc⟩
    -- the record that was listed is the first one, or the chunk would be planned already
    have hfirstRecord : (catalog s).chunk c.id = some c :=
      (hbase.planned c hstored).resolve_right fun hp => hwanted.unplanned (hactive c hp)
    have hahead : Ahead f now s c chunk := by
      refine ⟨nodeID, hnode, hreplica, fun m hm hholds => (hfirst m hm hholds).imp_right ?_⟩
      rintro rfl
      have hlisted : chunk ∈ chunksOn base nodeID := mem_chunksOn.mpr ⟨hbase.chunk_kept, hholds⟩
      have hsorted := chunksOn_sorted (s := base) nodeID
      rw [hsplit] at hlisted hsorted
      rcases mem_append.mp hlisted with hlisted | hlisted
      · exact absurd rfl (hdone chunk hlisted)
      · have hlater : chunk ∈ rest := (mem_cons.mp hlisted).resolve_left fun heq => hc (heq ▸ rfl)
        exact ⟨rfl, rel_of_pairwise_cons (pairwise_append.mp hsorted).2.1 hlater⟩
    refine .inr ⟨plan.id :: ids', hseek.added hadd htype hstate hchunk hfirstRecord hc hahead, ?_,
      fun z hz => (hactive z hz).added hadd⟩
    intro z hz
    rcases mem_append.mp hz with hz | hz
    · exact hdone z hz
    · exact mem_singleton.mp hz ▸ hc
  · rw [hsame]
    rcases h with hnew | ⟨ids', hseek, hdone, hactive⟩
    · exact .inl hnew
    refine .inr ⟨ids', hseek, fun z hz => ?_, hactive⟩
    rcases mem_append.mp hz with hz | hz
    · exact hdone z hz
    · obtain rfl := mem_singleton.mp hz
      intro heq
      obtain rfl := hbase.eq_of_id hstored heq
      obtain rfl := hseek.file_eq hfile hfile'
      exact hunwanted ((hseek.wanted_iff hid hunplanned).mpr hnoticed)

lemma ensures_node_seeking (hid : chunk.id ≠ "") (hnoticed : Noticed s chunk file)
    (h : Seeking f now s chunk ids r w.store) (hnode : Unavailable f now s node.id)
    (hfirst : ∀ m, Unavailable f now s m → (replicaOn chunk.replicas m).isSome →
      node.id < m ∨ node.id = m) :
    Ensures sem w (f.planNodeFailover node now r)
      (fun n w' => (∃ k, NewPlan s w'.store chunk.id k) ∨
        ∃ ids, Seeking f now s chunk ids (r - n) w'.store ∧
          (r - n = 0 ∨ (replicaOn chunk.replicas node.id).isNone)) (fun _ => True) := by
  refine ensures_read_bind hsem rfl (fun chunks hchunks => ?_) trivial
  obtain rfl := (yields_listChunksByNode.mp hchunks).1
  refine (ensures_planChunks f now node.id
    (P := fun done r w1 => SeekingAfter f now s w.store chunk done r w1.store) ?_ ?_).mono ?_
    fun _ h => h
  · exact .inr ⟨ids, h, fun _ hc => absurd hc not_mem_nil, fun _ hp => hp⟩
  · intro done c rest r' w1 hsplit _ hafter
    exact ensures_visit_seeking hsem hfile hunplanned hid hnoticed h hnode hfirst hsplit hafter
  · rintro n w' ⟨done, rest, hsplit, hnew | ⟨ids', hseek, hdone, -⟩, hend⟩
    · exact .inl hnew
    refine .inr ⟨ids', hseek, hend.symm.imp_right ?_⟩
    rintro rfl
    rw [append_nil] at hsplit
    by_contra hsome
    have hholds : (replicaOn chunk.replicas node.id).isSome := by
      rwa [isSome_iff_ne_none, ne_eq, ← isNone_iff_eq_none]
    have hlisted := mem_chunksOn.mpr ⟨h.chunk_kept, hholds⟩
    exact hdone chunk (hsplit ▸ hlisted) rfl

end Runs

section Noticing

variable {f : FailoverPlanner} {now : Time} {w w' : World} {chunk : ChunkMetadata}
  {file : FileMetadata}

lemma ensures_clock (hnow : ∀ env, envs env → env.now = now) :
    Ensures (semanticsIn envs) w timeNow (fun t w' => t = now ∧ w' = w) E := by
  rintro t w' ⟨env, henv, ⟨⟩⟩
  exact ⟨hnow env henv, rfl⟩

lemma mem_unavailable :
    node ∈ (allNodes s).filter (f.isNodeUnavailable · now) ↔
      (catalog s).node node.id = some node ∧ f.isNodeUnavailable node now = true := by
  rw [mem_filter, mem_allNodes]

lemma ensures_planOnce_noticed (hlost : LostCopy f now w.store chunk file) (hid : chunk.id ≠ "")
    (hnoticed : Noticed w.store chunk file) :
    Ensures (semanticsIn fun env => env.now = now) w f.planOnce
      (fun _ w' => (∃ k, NewPlan w.store w'.store chunk.id k) ∨
        BudgetUsedUp f now w.store w'.store chunk) (fun _ => True) := by
  refine (ensures_clock fun _ h => h).bind ?_
  rintro t w ⟨rfl, rfl⟩
  refine (ensures_listUnavailableNodes f t semanticsIn_le).bind ?_
  rintro nodes w ⟨rfl, rfl⟩
  have hsorted := (allNodes_sorted (s := w.store)).filter (f.isNodeUnavailable · t)
  refine (ensures_planNodes_visits f t (P := fun done r w' =>
    (∃ k, NewPlan w.store w'.store chunk.id k) ∨
      ∃ ids, Seeking f t w.store chunk ids r w'.store ∧
        (r = 0 ∨ ∀ node ∈ done, (replicaOn chunk.replicas node.id).isNone)) ?_ ?_).mono ?_
    fun _ h => h
  · refine .inr ⟨[], ?_, .inr fun _ h => absurd h not_mem_nil⟩
    exact { Untouched.refl hlost.stored with
      nodup := nodup_nil
      count := Int.zero_add _
      ahead := fun _ h => absurd h not_mem_nil
      kept := fun _ _ h => h
      planned := fun _ h => .inl h }
  · rintro done node rest r w1 hsplit hr (⟨k, hnew⟩ | ⟨ids, hseek, hdone⟩)
    · refine (ensures_node_found semanticsIn_le ⟨k, hnew⟩).mono ?_ fun _ h => h
      exact fun _ _ hnew => .inl hnew
    replace hdone := hdone.resolve_left hr
    have hmem : node ∈ (allNodes w.store).filter (f.isNodeUnavailable · t) :=
      hsplit ▸ mem_append_right _ mem_cons_self
    obtain ⟨hnode, hdown⟩ := mem_unavailable.mp hmem
    refine (ensures_node_seeking semanticsIn_le hlost.file_found hlost.unplanned hid hnoticed hseek
      ⟨node, hnode, hdown⟩ ?_).mono ?_ fun _ h => h
    · rintro m ⟨other, hother, hotherDown⟩ hholds
      obtain rfl := node_id hother
      have hlisted := mem_unavailable.mpr ⟨hother, hotherDown⟩
      rw [hsplit] at hlisted hsorted
      rcases mem_append.mp hlisted with hlisted | hlisted
      · rw [isSome_iff_ne_none] at hholds
        exact absurd (isNone_iff_eq_none.mp (hdone other hlisted)) hholds
      rcases mem_cons.mp hlisted with rfl | hlisted
      · exact .inr rfl
      · exact .inl (rel_of_pairwise_cons (pairwise_append.mp hsorted).2.1 hlisted)
    · rintro n w2 (hnew | ⟨ids', hseek', hend⟩)
      · exact .inl hnew
      refine .inr ⟨ids', hseek', hend.imp_right fun hnone other hother => ?_⟩
      rcases mem_append.mp hother with hother | hother
      · exact hdone other hother
      · exact mem_singleton.mp hother ▸ hnone
  · rintro _ w' ⟨done, rest, r, hsplit, hnew | ⟨ids, hseek, hdone⟩, hend⟩
    · exact .inl hnew
    have hzero : r = 0 := by
      by_contra hr
      obtain rfl := hend.resolve_right hr
      obtain ⟨nodeID, ⟨node, hnode, hdown⟩, hholds⟩ := hlost.lost
      obtain rfl := node_id hnode
      have hlisted := mem_unavailable.mpr ⟨hnode, hdown⟩
      rw [hsplit, append_nil] at hlisted
      rw [isNone_iff_eq_none.mp (hdone.resolve_left hr node hlisted)] at hholds
      cases hholds
    have hcount := hseek.count
    rw [hzero] at hcount
    exact .inr ⟨ids, hseek.nodup, hcount, hseek.ahead⟩

/-- A run without an error creates a plan for the chunk only if its ID is not empty, it has too
few Ready replicas on nodes that are marked healthy, and a node is admitted as the target; then it
does so if the budget lasts. -/
theorem failover_notices_iff (hlost : LostCopy f now w.store chunk file)
    (hrun : f.planOnce.run.Runs (semanticsIn fun env => env.now = now) w (.ok ()) w') :
    ((∃ k, NewPlan w.store w'.store chunk.id k) →
      chunk.id ≠ "" ∧
      countEffectiveReadyReplicas chunk (allNodes w.store) <
        FailoverPlanner.desiredReplicaCount chunk file ∧
      ∃ node, (catalog w.store).node node.id = some node ∧
        (FailoverPlanner.placementRequest chunk (allNodes w.store)).admits node = true) ∧
    (¬BudgetUsedUp f now w.store w'.store chunk →
      ((∃ k, NewPlan w.store w'.store chunk.id k) ↔
        chunk.id ≠ "" ∧
        countEffectiveReadyReplicas chunk (allNodes w.store) <
          FailoverPlanner.desiredReplicaCount chunk file ∧
        ∃ node, (catalog w.store).node node.id = some node ∧
          (FailoverPlanner.placementRequest chunk (allNodes w.store)).admits node = true)) := by
  have hnecessary : (∃ k, NewPlan w.store w'.store chunk.id k) →
      chunk.id ≠ "" ∧ Noticed w.store chunk file := by
    rintro ⟨k, hnew⟩
    by_contra hno
    have huntouched := wp_iff_runs.mp (ensures_planOnce_untouched semanticsIn_le
      hlost.file_found hlost.unplanned (not_and.mp hno) (Untouched.refl hlost.stored)) _ _ hrun
    exact huntouched.not_new k hnew
  refine ⟨hnecessary, fun hbudget => ⟨hnecessary, ?_⟩⟩
  rintro ⟨hid, hnoticed⟩
  have hfound := ensures_planOnce_noticed hlost hid hnoticed
  exact (wp_iff_runs.mp hfound _ _ hrun).resolve_right hbudget

end Noticing

def seenNode (id : NodeID) (address : String) (seen : Time) : NodeInfo :=
  { workingNode id address with lastSeenAt := some seen }

def lateHeartbeat : MemoryState :=
  holding [lostChunk] [seenNode "n3" "a3" obliging.now, seenNode "n2" "a2" obliging.now,
    seenNode "n1" "a1" 0]

def timeoutPlanner : FailoverPlanner := newFailoverPlanner 10 0

def planOutcome (f : FailoverPlanner) (s : MemoryState) : Option World :=
  match f.planOnce.run.execute obliging.perform { store := s } with
  | some (.ok _, w) => some w
  | _ => none

lemma runs_of_planOutcome (h : planOutcome f s = some w) :
    f.planOnce.run.Runs (semanticsIn fun env => env.now = obliging.now) { store := s } (.ok ()) w := by
  unfold planOutcome at h
  split at h
  · rename_i hrun
    cases h
    exact runs_of_execute (fun _ _ _ _ hstep => ⟨obliging, rfl, hstep⟩) hrun
  · cases h

lemma not_budgetUsedUp (h : t.replicaPlans.values.all (·.chunkID = chunk.id) = true) :
    ¬BudgetUsedUp f now s t chunk := by
  rintro ⟨ids, -, hcount, hnew⟩
  have hpos := f.maxPlansPerRun_pos
  obtain ⟨k, hk⟩ := exists_mem_of_length_pos (l := ids) (by omega)
  obtain ⟨c, -, hne, -, -, p, hp, -, hchunk⟩ := hnew k hk
  have hmem := all_eq_true.mp h p (Records.mem_values_iff_exists.mpr ⟨k, hp⟩)
  exact hne (hchunk.symm.trans (of_decide_eq_true hmem))

/-- The node of the lost replica is marked unhealthy, and the plan is made. -/
theorem plan_forUnhealthyNode :
    ∃ w, LostCopy planner obliging.now lostReplica lostChunk { id := "f", path := "/f" } ∧
      planner.planOnce.run.Runs (semanticsIn fun env => env.now = obliging.now)
        { store := lostReplica } (.ok ()) w ∧
      ¬BudgetUsedUp planner obliging.now lostReplica w.store lostChunk ∧
      ∃ k, NewPlan lostReplica w.store lostChunk.id k := by
  have hrun : (planOutcome planner lostReplica).any (fun w =>
      w.store.replicaPlans.values.all (·.chunkID = "k")) = true := by decide +kernel
  obtain ⟨w, hplanned, hplans⟩ := (Option.any_eq_true ..).mp hrun
  have hlost : LostCopy planner obliging.now lostReplica lostChunk { id := "f", path := "/f" } :=
    { stored := rfl
      file_found := rfl
      lost := ⟨"n1", ⟨_, rfl, rfl⟩, rfl⟩
      short := by decide
      unplanned := fun _ _ hp => by cases hp
      candidate := ⟨workingNode "n3" "a3", rfl, rfl, rfl,
        by decide, by decide⟩ }
  have hbudget : ¬BudgetUsedUp planner obliging.now lostReplica w.store lostChunk :=
    not_budgetUsedUp hplans
  refine ⟨w, hlost, runs_of_planOutcome hplanned, hbudget, ?_⟩
  refine ((failover_notices_iff hlost (runs_of_planOutcome hplanned)).2 hbudget).mpr ?_
  exact ⟨by decide, by decide, workingNode "n3" "a3",
    rfl, by decide⟩

/-- The heartbeat of the node is older than the timeout, but its health flag is still set: the
replica counts as effective, and the run makes no plan. -/
theorem lateHeartbeat_unnoticed :
    ∃ file w, LostCopy timeoutPlanner obliging.now lateHeartbeat lostChunk file ∧
      timeoutPlanner.planOnce.run.Runs (semanticsIn fun env => env.now = obliging.now)
        { store := lateHeartbeat } (.ok ()) w ∧
      ¬BudgetUsedUp timeoutPlanner obliging.now lateHeartbeat w.store lostChunk ∧
      ∀ k, ¬NewPlan lateHeartbeat w.store lostChunk.id k := by
  have hrun : (planOutcome timeoutPlanner lateHeartbeat).any (fun w =>
      w.store.replicaPlans.values.isEmpty) = true := by decide +kernel
  obtain ⟨w, hplanned, hempty⟩ := (Option.any_eq_true ..).mp hrun
  have hnil := isEmpty_iff.mp hempty
  refine ⟨{ id := "f", path := "/f" }, w, ?_, runs_of_planOutcome hplanned, ?_, ?_⟩
  · exact
      { stored := rfl
        file_found := rfl
        lost := ⟨"n1", ⟨_, rfl, by decide⟩, rfl⟩
        short := by decide
        unplanned := fun _ _ hp => by cases hp
        candidate := ⟨seenNode "n3" "a3" obliging.now, rfl, by decide, rfl, by decide, by decide⟩ }
  · exact not_budgetUsedUp (by rw [hnil]; rfl)
  · rintro k ⟨-, p, hp, -⟩
    have hmem := Records.mem_values_iff_exists.mpr ⟨k, hp⟩
    rw [hnil] at hmem
    exact absurd hmem not_mem_nil

end AstraStorage.Proofs
