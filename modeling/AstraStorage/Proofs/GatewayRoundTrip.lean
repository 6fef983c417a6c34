import AstraStorage.Lib.Segments
import AstraStorage.Proofs.DownloadIntegrity
import AstraStorage.Proofs.RegisteredNodes
import AstraStorage.Proofs.RetriedUploads

/-!
# Upload and download through the gateway

The gateway cuts the content into pieces of 4 MiB, and the download puts them together again. What
may stand in the way is the file ID: a download takes only one that fits into its path.
-/

namespace AstraStorage.Proofs
open Lib Store Service Gateway Allocator List Yields

variable {δ α : Type} {s t : MemoryState} {d d' : δ} {req request : UploadRequest}
  {file file0 : FileMetadata} {i n offset j : Nat} {sha256 : Bytes → String} {now clock : Time}
  {primary : UploadTarget} {targets : List UploadTarget} {results : List ReplicaWriteResult}
  {data : Bytes} {nodeID : NodeID} {base : ChunkID} {y0 : UploadSession}
  {done : List CommitChunkRequest} {datanodes : Datanodes δ} {servers : ChunkServers δ}
  {stored : δ → String → Bytes → Option Bytes}

/-! ### Datanodes that keep what they get -/

abbrev baseURL (target : UploadTarget) : String := trimRightSlash target.address

/-- Each datanode maps chunk IDs to bytes, and all its calls succeed. `stored d a k` are the bytes
that the datanode with the base URL `a` has for chunk `k`. -/
structure ChunkMaps (servers : ChunkServers δ) (stored : δ → String → Bytes → Option Bytes) :
    Prop where
  put : ∀ base k f data d, ∃ d', servers.putChunk base k f data d = (.ok (), d') ∧
    ∀ a l, stored d' a l = if a = base ∧ l = k then some data else stored d a l
  replicate : ∀ base k targets data d, stored d base k = some data →
    ∃ results d', servers.replicateChunk base k targets d = (.ok results, d') ∧
      (∀ target ∈ targets, ∃ result ∈ results, result.nodeID = target.nodeID) ∧
      (∀ result ∈ results, result.state = .ready) ∧
      ∀ a l, stored d' a l = if l = k ∧ a ∈ targets.map baseURL then some data else stored d a l
  get : ∀ base k data d, stored d base k = some data → (servers.getChunk base k d).1 = .ok data
  read : ∀ base k d, (servers.getChunk base k d).2 = d

lemma utf8_injective : Function.Injective utf8 := by
  intro s t h
  have hbytes : s.toUTF8 = t.toUTF8 := ByteArray.ext (Array.toList_inj.mp h)
  exact String.toByteArray_inj.mp hbytes

lemma chunkCall_of_arrives (h : arrives k = true) : chunkCall operation k handler d = handler
    (utf8 k) d := by
  obtain ⟨path, hpath, hrouted⟩ := Option.bind_eq_some_iff.mp (of_decide_eq_true h)
  simp only [chunkCall, hpath, hrouted]

lemma chunkCall_read {handler : Bytes → δ → Except UpstreamError α × δ}
    (h : ∀ id d, (handler id d).2 = d) : (chunkCall operation k handler d).2 = d := by
  unfold chunkCall
  split
  · rfl
  · split
    · rfl
    · exact h _ d

def eligible (node : NodeInfo) : Bool :=
  ({ candidates := [], count := 1 } : PlacementRequest).admits node

def Addressed (s : MemoryState) (nodeID : NodeID) (address : String) : Prop :=
  nodeID ≠ "" ∧ ∃ node, (catalog s).node nodeID = some node ∧ node.address = address ∧
    trimSpace address ≠ ""

/-! ### Nodes -/

theorem named_of_run (hrun : ServiceRun history s) : (catalog s).node "" = none := by
  refine kept_of_serviceRun (I := fun s => (catalog s).node "" = none) hrun (fun _ => rfl) ?_
  intro s a t hw hs hstep
  cases ht : (catalog t).node "" with
  | none => rfl
  | some node =>
    rcases node_of_step hw hstep ht with hbefore | ⟨now, req, -, -, hne⟩
    · rw [hs] at hbefore
      cases hbefore
    · exact absurd rfl hne

/-! ### Targets -/

lemma listHealthyNodes_spec (s : MemoryState) :
    ∃ nodes, Yields (listNodes { healthyOnly := true }) s nodes s ∧
      ∀ node, node ∈ nodes ↔ (catalog s).node node.id = some node ∧ node.healthy = true := by
  have hlabels (labels : StringMap) : hasLabels labels none = true := rfl
  refine ⟨_, rfl, fun node => ?_⟩
  rw [applyListWindow_all, mem_insertionSort, mem_filter, Records.mem_values]
  simp [hlabels, catalog]

lemma allocateUploadTargets_spec {req : AllocateUploadTargetsRequest} (hf : req.fileID ≠ "")
    (hindex : 0 ≤ req.chunkIndex) (hfile : (catalog s).file req.fileID = some file)
    (hempty : (catalog s).node "" = none)
    (hnode : ∃ nodeID node, (catalog s).node nodeID = some node ∧ eligible node = true) :
    ∃ target targets, Yields (allocateUploadTargets req) s (target :: targets) s ∧
      ∀ target' ∈ target :: targets, Addressed s target'.nodeID target'.address := by
  obtain ⟨nodes, hlist, hnodes⟩ := listHealthyNodes_spec s
  obtain ⟨nodeID, node, hstored, heligible⟩ := hnode
  obtain rfl := node_id hstored
  set count := if file.replicaPolicy.desiredReplicaCount ≤ 0 then 1
    else file.replicaPolicy.desiredReplicaCount with hcount
  have hpos : 0 < count := by
    rw [hcount]
    split_ifs with hdesired
    · exact Int.one_pos
    · exact not_le.mp hdesired
  have hhealthy : node.healthy = true := by
    unfold eligible PlacementRequest.admits at heligible
    simp only [Bool.and_eq_true] at heligible
    exact heligible.1.1.1.1.1.1
  have hmem : node ∈ nodes := (hnodes node).mpr ⟨hstored, hhealthy⟩
  have hselected : selectCapacityAwareNodes nodes count ≠ [] :=
    (select_ne_nil hpos).mpr ⟨node, hmem, heligible⟩
  obtain ⟨first, rest, heq⟩ := exists_cons_of_ne_nil hselected
  have hall : ∀ node' ∈ first :: rest, Addressed s node'.id node'.address := by
    intro node' hnode'
    rw [← heq] at hnode'
    obtain ⟨hlisted, hadmitted⟩ := admitted_of_mem_select hnode'
    obtain ⟨hstored', _⟩ := (hnodes node').mp hlisted
    refine ⟨?_, node', hstored', rfl, ?_⟩
    · intro hid
      rw [hid, hempty] at hstored'
      cases hstored'
    · simp only [PlacementRequest.admits, Bool.and_eq_true, decide_eq_true_eq] at hadmitted
      exact hadmitted.1.1.1.1.1.2
  refine ⟨⟨first.id, first.address⟩, rest.map fun node => ⟨node.id, node.address⟩, ?_, ?_⟩
  · simp only [allocateUploadTargets, validateAllocateUploadTargetsRequest, bind_assoc,
      yields_reject_bind, yields_getFile_bind hf]
    refine ⟨hf, Int64.not_lt.mpr hindex, file, hfile, yields_bind.mpr ⟨nodes, s, hlist, ?_⟩⟩
    simp only [yields_reject_bind, yields_pure, length_eq_zero_iff]
    refine ⟨ne_nil_of_mem hmem, hselected, ?_, trivial⟩
    rw [heq]
    rfl
  · intro target' htarget'
    rcases mem_cons.mp htarget' with rfl | htarget'
    · exact hall first mem_cons_self
    · obtain ⟨node', hnode', rfl⟩ := mem_map.mp htarget'
      exact hall node' (mem_cons_of_mem first hnode')

section Commits

variable {f : FileID} {k : ChunkID} {checksum : Checksum} {size : Int64}

lemma secondaryState_ready (hready : ∀ result ∈ results, result.state = .ready)
    (hnode : ∃ result ∈ results, result.nodeID = nodeID) :
    secondaryState results nodeID = .ready := by
  obtain ⟨result, hresult, hid⟩ := hnode
  obtain ⟨last, hlast⟩ : ∃ last, results.reverse.find? (·.nodeID = nodeID) = some last :=
    Option.isSome_iff_exists.mp (find?_isSome.mpr
      ⟨result, mem_reverse.mpr hresult, by simpa using hid⟩)
  have hstate : last.state = .ready :=
    hready last (mem_reverse.mp (mem_of_find?_eq_some hlast))
  unfold secondaryState
  rw [hlast]
  simp only [hstate]
  exact if_neg ReplicaState.noConfusion

structure ReadyReplica (f : FileID) (k : ChunkID) (nodeID : NodeID) (replica : ReplicaMetadata) :
    Prop where
  state : replica.state = .ready
  nodeID : replica.nodeID = nodeID
  fileID : replica.fileID = f
  chunkID : replica.chunkID = k

abbrev nthChunkID (req : UploadRequest) (i : Nat) : ChunkID :=
  chunkIDForIndex req.chunkID i (chunkCount req.content.length)

def gatewayCommit (sha256 : Bytes → String) (now : Time) (req : UploadRequest) (i offset : Nat)
    (primary : UploadTarget) (targets : List UploadTarget) (results : List ReplicaWriteResult) :
    CommitChunkRequest :=
  let data := (req.content.drop offset).take chunkBytes
  let k := chunkIDForIndex req.chunkID i (chunkCount req.content.length)
  { sessionID := req.sessionID
    chunkID := k
    index := Int64.ofNat i
    offset := Int64.ofNat offset
    size := Int64.ofNat data.length
    checksum := some (checksumForBytes sha256 now data)
    replicas := some (buildChunkReplicas now req.fileID k primary targets results
      (checksumForBytes sha256 now data) (Int64.ofNat data.length))
    committedAt := now }

lemma chunkIDForIndex_ne (hbase : base ≠ "") (i total : Nat) :
    chunkIDForIndex base i total ≠ "" := by
  unfold chunkIDForIndex
  split_ifs
  · exact hbase
  · intro h
    have hlist := congrArg String.toList h
    simp at hlist

lemma gatewayCommit_replicas (sha256 : Bytes → String) (now : Time) (req : UploadRequest)
    (i offset : Nat) (primary : UploadTarget)
    (hready : ∀ target ∈ targets, secondaryState results target.nodeID = .ready) :
    (∀ n replica,
      replicaOn (gatewayCommit sha256 now req i offset primary targets results).replicas n =
        some replica →
      ReadyReplica req.fileID
        (gatewayCommit sha256 now req i offset primary targets results).chunkID n replica ∧
        ∃ target ∈ primary :: targets, target.nodeID = n) ∧
    (replicaOn (gatewayCommit sha256 now req i offset primary targets results).replicas
      primary.nodeID).isSome := by
  refine ⟨fun n replica hlookup => ?_, ?_⟩
  · obtain ⟨role, state, rfl, ⟨-, rfl, rfl⟩ | ⟨target, htarget, rfl, rfl⟩⟩ :=
      entry_of_buildChunkReplicas hlookup
    · exact ⟨⟨rfl, rfl, rfl, rfl⟩, primary, mem_cons_self, rfl⟩
    · exact ⟨⟨hready target htarget, rfl, rfl, rfl⟩, target, mem_cons_of_mem _ htarget, rfl⟩
  · refine Table.isSome_lookup_foldl_insert_of _ _ ?_
    rw [AList.lookup_insert]
    rfl

lemma one_le_healthyReplicaCount (h : replicaOn replicas nodeID = some replica)
    (hready : replica.state = .ready) : 1 ≤ healthyReplicaCount replicas := by
  cases replicas with
  | none => cases h
  | some table =>
    have hmem : replica ∈ table.values :=
      mem_map_of_mem (AList.mem_lookup_iff.mp h)
    have hpos : 0 < table.values.countP (·.state = .ready) :=
      countP_pos_iff.mpr ⟨replica, hmem, decide_eq_true hready⟩
    exact Int.ofNat_le.mpr hpos

lemma soundCommit_gatewayCommit (hbase : req.chunkID ≠ "")
    (hready : ∀ target ∈ targets, secondaryState results target.nodeID = .ready)
    (hnamed : ∀ target ∈ primary :: targets, target.nodeID ≠ "") :
    SoundCommit req.sessionID req.fileID 1
      (gatewayCommit sha256 now req i offset primary targets results) := by
  obtain ⟨hentries, hprimary⟩ := gatewayCommit_replicas sha256 now req i offset primary hready
  refine ⟨rfl, chunkIDForIndex_ne hbase _ _, ⟨_, rfl, rfl⟩, ?_, ?_, ChunkStatus.noConfusion,
    ChunkStatus.noConfusion⟩
  · rintro table ⟨⟩ e he
    obtain ⟨hreplica, target, htarget, hid⟩ := hentries e.1 e.2 (AList.mem_lookup_iff.mpr he)
    refine ⟨?_, .inr hreplica.nodeID, .inr hreplica.fileID, .inr hreplica.chunkID⟩
    rw [← hid]
    exact hnamed target htarget
  · obtain ⟨replica, hreplica⟩ := Option.isSome_iff_exists.mp hprimary
    exact one_le_healthyReplicaCount hreplica (hentries _ _ hreplica).1.state

end Commits

/-! ### The chunk loop -/

def piece (content : Bytes) (i : Nat) : Bytes := (content.drop (i * chunkBytes)).take chunkBytes

structure Holds (s : MemoryState) (stored : String → Bytes → Option Bytes)
    (commit : CommitChunkRequest) (data : Bytes) : Prop where
  named : ∃ n, (replicaOn commit.replicas n).isSome
  held : ∀ n, (replicaOn commit.replicas n).isSome →
    ∃ address, Addressed s n address ∧
      stored (trimRightSlash address) (utf8 commit.chunkID) = some data

structure Storing (stored : δ → String → Bytes → Option Bytes) (s : MemoryState)
    (req : UploadRequest) (complete : CompleteUploadRequest) (y0 : UploadSession)
    (file0 : FileMetadata) (t : MemoryState) (d : δ) (i : Nat) (done : List CommitChunkRequest) :
    Prop where
  underway : ∃ y file, Underway req.sessionID complete y0 file0 t y file done
  nodes : (catalog t).node = (catalog s).node
  places : done.map place = (List.range i).map (chunkPlace req.content.length)
  chunkIDs : done.map (·.chunkID) = (List.range i).map fun j =>
    chunkIDForIndex req.chunkID j (chunkCount req.content.length)
  held : List.Forall₂ (Holds s (stored d)) done ((List.range i).map (piece req.content))

lemma chunkIDForIndex_inj {total : Nat} (hi : i < total) (hj : j < total)
    (h : chunkIDForIndex base i total = chunkIDForIndex base j total) : i = j := by
  by_cases htotal : total ≤ 1
  · omega
  · unfold chunkIDForIndex at h
    rw [if_neg htotal, if_neg htotal, String.append_right_inj] at h
    exact toString_injective (congrArg String.toList h)

lemma nodup_chunkIDs {m total : Nat} (hm : m ≤ total) :
    ((List.range m).map fun j => chunkIDForIndex base j total).Nodup := by
  refine List.Nodup.map_on ?_ nodup_range
  intro i hi j hj heq
  rw [mem_range] at hi hj
  exact chunkIDForIndex_inj (hi.trans_le hm) (hj.trans_le hm) heq

lemma chunkCount_spec (n : Nat) :
    n ≤ chunkCount n * chunkBytes ∧ chunkCount n * chunkBytes < n + chunkBytes := by
  unfold chunkCount
  by_cases hrest : n % chunkBytes = 0
  · rw [if_neg (not_not.mpr hrest)]
    simp only [chunkBytes] at hrest ⊢
    omega
  · rw [if_pos hrest]
    simp only [chunkBytes] at hrest ⊢
    omega

lemma lt_chunkCount (hi : i * chunkBytes < n) : i < chunkCount n :=
  Nat.lt_of_mul_lt_mul_right (hi.trans_le (chunkCount_spec n).1)

lemma eq_chunkCount (hle : n ≤ j * chunkBytes) (hlt : j * chunkBytes < n + chunkBytes) :
    j = chunkCount n := by
  have hcount := chunkCount_spec n
  simp only [chunkBytes] at hle hlt hcount
  omega

lemma chunkPlaces_eq (n : Nat) :
    chunkPlaces n = (List.range (chunkCount n)).map (chunkPlace n) := by
  have hcount : (((n : Int) + 4194303) / 4194304).toNat = chunkCount n := by
    apply eq_chunkCount <;> simp only [chunkBytes] <;> omega
  rw [chunkPlaces, hcount]

lemma flatten_pieces (content : Bytes) (m : Nat) :
    ((List.range m).map (piece content)).flatten = content.take (m * chunkBytes) := by
  induction m with
  | zero => simp
  | succ m ih =>
    rw [range_succ, map_append, flatten_append, ih, Nat.succ_mul, take_add]
    simp [piece]

lemma range_initial (h : i ≤ n) : List.range i <+: List.range n := by
  obtain ⟨k, rfl⟩ := Nat.exists_eq_add_of_le h
  rw [range_add]
  exact prefix_append _ _

lemma chunkPlaces_prefix (hi : i * chunkBytes < n) :
    (List.range (i + 1)).map (chunkPlace n) <+: chunkPlaces n := by
  refine (range_initial ?_).map _
  simp only [chunkBytes] at hi
  omega

lemma place_gatewayCommit (hlength : req.content.length < 2 ^ 63)
    (hi : i * chunkBytes < req.content.length) :
    place (gatewayCommit sha256 now req i (i * chunkBytes) primary targets results) =
      chunkPlace req.content.length i := by
  have hpiece : ((req.content.drop (i * chunkBytes)).take chunkBytes).length =
      min chunkBytes (req.content.length - i * chunkBytes) := by
    rw [length_take, length_drop]
  simp only [chunkBytes] at hi hpiece
  simp only [place, gatewayCommit, chunkPlace, chunkBytes, Prod.mk.injEq]
  rw [Int64.toInt_ofNat_of_lt (by omega), Int64.toInt_ofNat_of_lt (by omega),
    Int64.toInt_ofNat_of_lt (by omega)]
  omega

section Loop

variable {complete : CompleteUploadRequest}

lemma callDatanode_of_eq (h : x d = (reply, d')) : callDatanode x (s, d) = (reply, (s, d')) := by
  simp only [callDatanode, h]

lemma Holds.of_eq (h : Holds s stored' commit data)
    (heq : ∀ a, stored'' a (utf8 commit.chunkID) = stored' a (utf8 commit.chunkID)) :
    Holds s stored'' commit data := by
  refine ⟨h.named, fun n hn => ?_⟩
  obtain ⟨address, haddress, hdata⟩ := h.held n hn
  exact ⟨address, haddress, (heq _).trans hdata⟩

lemma uploadChunk_run (sha256 : Bytes → String) (now clock : Time)
    (hmaps : ChunkMaps servers stored) (harrives : arrives (nthChunkID req i) = true)
    (hheader : isHeaderValue req.fileID = true) (hallocate : Yields
      (allocateUploadTargets { fileID := req.fileID, chunkIndex := Int64.ofNat i }) t
      (primary :: targets) t) (d : δ) :
    ∃ results d', (∀ target ∈ targets, secondaryState results target.nodeID = .ready) ∧
      (∀ a l, stored d' a l = if l = utf8 (nthChunkID req i) ∧ a ∈ (primary :: targets).map baseURL
        then some (piece req.content i) else stored d a l) ∧
      ∀ {chunk t'}, Yields (Service.commitChunk clock
        (gatewayCommit sha256 now req i (i * chunkBytes) primary targets results)) t chunk t' →
      ∃ uploaded,
        (uploadChunk sha256 now (servers.datanodes.client clock) req i (i * chunkBytes)).run
          (t, d) = (.ok uploaded, (t', d')) := by
  obtain ⟨d1, hput, hstored1⟩ :=
    hmaps.put (baseURL primary) (utf8 (nthChunkID req i)) req.fileID (piece req.content i) d
  have hallocated : (servers.datanodes.client clock).allocateUploadTargets
      { fileID := req.fileID, chunkIndex := Int64.ofNat i } (t, d) =
        (.ok (primary :: targets), (t, d)) := callMDS_of_yields hallocate
  have hwritten : (servers.datanodes.client clock).putChunk primary.address (nthChunkID req i)
      req.fileID (checksumForBytes sha256 now (piece req.content i)) (piece req.content i) (t, d) =
        (.ok (), (t, d1)) := by
    refine callDatanode_of_eq ((chunkCall_of_arrives harrives).trans ?_)
    rw [if_pos hheader]
    exact hput
  have hcommitted {results d2 chunk t'} (hcommit : Yields (Service.commitChunk clock
      (gatewayCommit sha256 now req i (i * chunkBytes) primary targets results)) t chunk t') :
      (servers.datanodes.client clock).commitChunk
        (gatewayCommit sha256 now req i (i * chunkBytes) primary targets results) (t, d2) =
        (.ok chunk, (t', d2)) := callMDS_of_yields hcommit
  by_cases hnone : targets = []
  · subst hnone
    refine ⟨[], d1, by simp, fun a l => ?_, fun hcommit => ?_⟩
    · simp [hstored1, and_comm]
    · exact ⟨_, (run_bind_ok _ (run_upstream_ok hallocated)).trans
        ((run_bind_ok _ (run_upstream_ok hwritten)).trans
          (run_bind_ok _ (run_upstream_ok (hcommitted hcommit))))⟩
  · have hfirst := hstored1 (baseURL primary) (utf8 (nthChunkID req i))
    rw [if_pos ⟨rfl, rfl⟩] at hfirst
    obtain ⟨results, d2, hcall, hnodes, hready, hstored2⟩ :=
      hmaps.replicate (baseURL primary) (utf8 (nthChunkID req i)) targets _ d1 hfirst
    have hreplicated : (servers.datanodes.client clock).replicateChunk primary.address
        (nthChunkID req i) targets (t, d1) = (.ok results, (t, d2)) := callDatanode_of_eq hcall
    refine ⟨results, d2, fun target htarget => secondaryState_ready hready (hnodes target htarget),
      fun a l => ?_, fun hcommit => ?_⟩
    · grind
    · let runAt (x : HandlerM (ClusterM δ) UploadedChunk) := x.run (t, d1)
      exact ⟨_, (run_bind_ok _ (run_upstream_ok hallocated)).trans
        ((run_bind_ok _ (run_upstream_ok hwritten)).trans
          ((congrArg runAt (if_neg hnone)).trans
            ((run_bind_ok _ (run_upstream_ok hreplicated)).trans
              (run_bind_ok _ (run_upstream_ok (hcommitted hcommit))))))⟩

lemma holds_gatewayCommit
    (hready : ∀ target ∈ targets, secondaryState results target.nodeID = .ready)
    (haddressed : ∀ target ∈ primary :: targets, Addressed s target.nodeID target.address)
    (hstored : ∀ target ∈ primary :: targets,
      stored' (baseURL target) (utf8 (nthChunkID req i)) = some data) :
    Holds s stored' (gatewayCommit sha256 now req i offset primary targets results) data := by
  obtain ⟨hentries, hprimary⟩ := gatewayCommit_replicas sha256 now req i offset primary hready
  refine ⟨⟨primary.nodeID, hprimary⟩, fun n hn => ?_⟩
  obtain ⟨replica, hreplica⟩ := Option.isSome_iff_exists.mp hn
  obtain ⟨_, target, htarget, rfl⟩ := hentries n replica hreplica
  exact ⟨target.address, haddressed target htarget, hstored target htarget⟩

variable (hmaps : ChunkMaps servers stored) (hbase : req.chunkID ≠ "")
  (harrives : ∀ i < chunkCount req.content.length, arrives (nthChunkID req i) = true)
  (hheader : isHeaderValue req.fileID = true) (hfileID : y0.fileID = req.fileID)
  (hsize : y0.expectedSize.toInt = req.content.length) (hrequired : requiredReplicas file0 = 1)
  (hempty : (catalog s).node "" = none)
  (hnode : ∃ nodeID node, (catalog s).node nodeID = some node ∧ eligible node = true)
  (hlength : req.content.length < 2 ^ 63)
include hmaps hbase harrives hheader hfileID hsize hrequired hempty hnode hlength

lemma Storing.step (sha256 : Bytes → String) (now clock : Time)
    (h : Storing stored s req complete y0 file0 t d i done)
    (hi : i * chunkBytes < req.content.length) :
    ∃ uploaded t' d' commit,
      (uploadChunk sha256 now (servers.datanodes.client clock) req i (i * chunkBytes)).run (t, d) =
        (.ok uploaded, (t', d')) ∧
      Storing stored s req complete y0 file0 t' d' (i + 1) (done ++ [commit]) := by
  obtain ⟨y, file, hunderway⟩ := h.underway
  have huploads := hunderway.uploading.uploads
  have hy : y.fileID = req.fileID := hunderway.fileID.trans hfileID
  have hf : req.fileID ≠ "" := hy ▸ huploads.fileID_ne hunderway.uploading.wellFormed
  have hindex : (0 : Int64) ≤ Int64.ofNat i := by
    simp only [chunkBytes] at hi
    rw [Int64.le_iff_toInt_le, Int64.toInt_ofNat_of_lt (by omega)]
    exact Int.natCast_nonneg i
  obtain ⟨primary, targets, hallocate, haddressed⟩ :
      ∃ primary targets, Yields (allocateUploadTargets
          { fileID := req.fileID, chunkIndex := Int64.ofNat i }) t (primary :: targets) t ∧
        ∀ target ∈ primary :: targets, Addressed t target.nodeID target.address :=
    allocateUploadTargets_spec hf hindex (hy ▸ huploads.stored) (h.nodes ▸ hempty) (h.nodes ▸ hnode)
  have hreached : ∀ target ∈ primary :: targets, Addressed s target.nodeID target.address := by
    intro target htarget
    obtain ⟨hne, node, hstored, haddress⟩ := haddressed target htarget
    exact ⟨hne, node, h.nodes ▸ hstored, haddress⟩
  obtain ⟨results, d', hready, hstored, hchunk⟩ :=
    uploadChunk_run sha256 now clock hmaps (harrives i (lt_chunkCount hi)) hheader hallocate d
  have hsound : SoundCommit req.sessionID y0.fileID (requiredReplicas file0)
      (gatewayCommit sha256 now req i (i * chunkBytes) primary targets results) := by
    rw [hfileID, hrequired]
    exact soundCommit_gatewayCommit hbase hready fun target htarget => (hreached target htarget).1
  have hplaces : (done ++ [gatewayCommit sha256 now req i (i * chunkBytes) primary targets
      results]).map place = (range (i + 1)).map (chunkPlace req.content.length) := by
    rw [map_append, h.places, range_succ, map_append, map_singleton,
      place_gatewayCommit hlength hi]
    rfl
  have hids : (done ++ [gatewayCommit sha256 now req i (i * chunkBytes) primary targets
      results]).map (·.chunkID) = (range (i + 1)).map (nthChunkID req) := by
    rw [map_append, h.chunkIDs, range_succ, map_append]
    rfl
  obtain ⟨t', y', file', hcommit, hunderway'⟩ := hunderway.commit clock hsound
    (by rw [hplaces, hsize]; exact chunkPlaces_prefix hi)
    (by rw [hids]; exact nodup_chunkIDs (lt_chunkCount hi))
  obtain ⟨chunk, hcommitted, -⟩ := yields_map.mp hcommit
  obtain ⟨uploaded, hrun⟩ := hchunk hcommitted
  refine ⟨uploaded, t', d', _, hrun, ⟨y', file', hunderway'⟩, ?_, hplaces, hids, ?_⟩
  · rw [node_of_uploadCall hunderway.uploading.wellFormed rfl hcommit]
    exact h.nodes
  · have hother : ∀ commit ∈ done, ∀ a,
        stored d' a (utf8 commit.chunkID) = stored d a (utf8 commit.chunkID) := by
      intro commit hmem a
      obtain ⟨j, hj, hid⟩ := mem_map.mp (h.chunkIDs ▸ mem_map_of_mem hmem)
      have hlt := mem_range.mp hj
      have hcount := lt_chunkCount hi
      rw [hstored, if_neg fun hk =>
        hlt.ne (chunkIDForIndex_inj (hlt.trans hcount) hcount
          (hid.trans (utf8_injective hk.1)))]
    rw [range_succ, map_append]
    refine rel_append ?_ (.cons ?_ .nil)
    · exact ((forall₂_and_left _ _).mpr ⟨hother, h.held⟩).imp
        fun commit data hdata => hdata.2.of_eq hdata.1
    · refine holds_gatewayCommit hready hreached fun target htarget => ?_
      rw [hstored, if_pos ⟨rfl, mem_map_of_mem htarget⟩]

lemma Storing.loop (sha256 : Bytes → String) (now clock : Time)
    (h : Storing stored s req complete y0 file0 t d i done)
    (hrounds : req.content.length ≤ (i + rounds) * chunkBytes)
    (hi : i * chunkBytes < req.content.length + chunkBytes) :
    ∃ uploaded t' d' done',
      (uploadChunks sha256 now (servers.datanodes.client clock) req rounds i
        (i * chunkBytes)).run (t, d) = (.ok uploaded, (t', d')) ∧
      Storing stored s req complete y0 file0 t' d' (chunkCount req.content.length) done' := by
  induction rounds generalizing t d i done with
  | zero =>
    have hcount := eq_chunkCount hrounds hi
    exact ⟨[], t, d, done, rfl, hcount ▸ h⟩
  | succ rounds ih =>
    by_cases hmore : i * chunkBytes < req.content.length
    · obtain ⟨uploaded, t1, d1, commit, hrun, hnext⟩ := Storing.step hmaps hbase harrives hheader
        hfileID hsize hrequired hempty hnode hlength sha256 now clock h hmore
      obtain ⟨rest, t', d', done', hrest, hend⟩ := ih hnext (by rw [add_right_comm]; exact hrounds)
        (by rw [Nat.succ_mul]; omega)
      refine ⟨uploaded :: rest, t', d', done', ?_, hend⟩
      rw [uploadChunks, if_pos hmore, run_bind_ok _ hrun]
      rw [Nat.succ_mul] at hrest
      exact run_bind_ok _ hrest
    · have hcount := eq_chunkCount (not_lt.mp hmore) hi
      refine ⟨[], t, d, done, ?_, hcount ▸ h⟩
      rw [uploadChunks, if_neg hmore]
      rfl

end Loop

section Download

variable {n : NodeID}

lemma mem_foldl_append_new [DecidableEq α] (xs acc : List α) :
    a ∈ xs.foldl (fun acc x => if acc.contains x then acc else acc ++ [x]) acc ↔
      a ∈ acc ∨ a ∈ xs := by
  induction xs generalizing acc with
  | nil => simp
  | cons x xs ih =>
    rw [foldl_cons, ih, mem_cons]
    by_cases hx : x ∈ acc
    · rw [if_pos (contains_iff_mem.mpr hx)]
      constructor
      · rintro (ha | ha)
        · exact .inl ha
        · exact .inr (.inr ha)
      · rintro (ha | rfl | ha)
        · exact .inl ha
        · exact .inl hx
        · exact .inr ha
    · rw [if_neg (fun h => hx (contains_iff_mem.mp h)), mem_append, mem_singleton,
        or_assoc]

lemma mem_replicaNodes :
    n ∈ (replicaEntries replicas).map Prod.fst ↔ (replicaOn replicas n).isSome := by
  rw [mem_map, Option.isSome_iff_exists]
  constructor
  · rintro ⟨⟨n', replica⟩, hmem, rfl⟩
    exact ⟨replica, mem_replicaEntries.mp hmem⟩
  · rintro ⟨replica, hreplica⟩
    exact ⟨(n, replica), mem_replicaEntries.mpr hreplica, rfl⟩

lemma mem_orderedCandidateNodeIDs :
    n ∈ orderedCandidateNodeIDs (planChunk z) ↔ (replicaOn z.replicas n).isSome := by
  set nodeIDs := ((replicaEntries z.replicas).insertionSort fun a b =>
    candidateLess b a = false).map Prod.fst with hnodeIDs
  have hplan : orderedCandidateNodeIDs (planChunk z) =
      nodeIDs.foldl (fun acc x => if acc.contains x then acc else acc ++ [x])
        (if nodeIDs.headD "" ≠ "" then [nodeIDs.headD ""] else []) := rfl
  have hentries : n ∈ nodeIDs ↔ (replicaOn z.replicas n).isSome :=
    ((perm_insertionSort ..).map Prod.fst).mem_iff.trans mem_replicaNodes
  rw [hplan, mem_foldl_append_new, ← hentries, or_iff_right_iff_imp]
  intro hfirst
  split_ifs at hfirst with hhead
  · obtain rfl := mem_singleton.mp hfirst
    cases hcases : nodeIDs with
    | nil =>
      rw [hcases] at hhead
      exact absurd rfl hhead
    | cons first rest => exact mem_cons_self
  · cases hfirst

lemma findSome?_eq_of_forall {β : Type} {f : α → Option β} {b : β} (hne : xs ≠ [])
    (h : ∀ a ∈ xs, f a = some b) : xs.findSome? f = some b := by
  cases xs with
  | nil => exact absurd rfl hne
  | cons a xs => rw [findSome?_cons, h a mem_cons_self]

lemma firstAnswer_of_holds {commit : CommitChunkRequest} (hmaps : ChunkMaps servers stored)
    (harrives : arrives commit.chunkID = true)
    (hnodes : (catalog t).node = (catalog s).node) (h : Holds s (stored d) commit data)
    (hid : z.id = commit.chunkID)
    (hreplicas : ∀ n, (replicaOn z.replicas n).isSome = (replicaOn commit.replicas n).isSome) :
    firstAnswer servers.datanodes t d (planChunk z) = some data := by
  apply findSome?_eq_of_forall
  · obtain ⟨n, hn⟩ := h.named
    exact ne_nil_of_mem (mem_orderedCandidateNodeIDs.mpr ((hreplicas n).trans hn))
  · intro n hn
    have hn' := (hreplicas n).symm.trans (mem_orderedCandidateNodeIDs.mp hn)
    obtain ⟨address, ⟨-, node, hnode, rfl, haddress⟩, hdata⟩ := h.held n hn'
    have hlookup : t.nodes.lookup n = some node := by
      rw [← hnodes] at hnode
      exact hnode
    have hanswer : (servers.datanodes.getChunk n node.address (planChunk z).chunkID d).1 =
        .ok data := by
      rw [show (planChunk z).chunkID = commit.chunkID from hid]
      refine (congrArg Prod.fst (chunkCall_of_arrives harrives)).trans ?_
      exact hmaps.get _ _ data d hdata
    simp only [answerOf, hlookup, if_neg haddress, hanswer]
    rfl

lemma download_of_settled (now : Time) (hmaps : ChunkMaps servers stored)
    (harrives : ∀ commit ∈ done, arrives commit.chunkID = true)
    (haddress : ¬Unaddressable y0.fileID)
    (hsettled : SettledUpload u complete verify y0 file0 checksum t done)
    (hnodes : (catalog t).node = (catalog s).node)
    (hheld : List.Forall₂ (Holds s (stored d)) done datas) (hdone : done ≠ [])
    (hsize : y0.expectedSize.toInt = total datas) :
    ∃ length, downloadResponse servers.datanodes now t d y0.fileID = .data length datas := by
  have hf : y0.fileID ≠ "" := by
    intro hf
    exact haddress (.inl (by rw [hf]; decide))
  obtain ⟨file, hfile, hrecord⟩ := Option.map_eq_some_iff.mp hsettled.record
  have hchunks : chunksOfFile t y0.fileID ≠ [] := by
    intro hnil
    have hmap := hsettled.chunks
    rw [hnil] at hmap
    exact hdone (map_eq_nil_iff.mp hmap.symm)
  have hanswers : ((chunksOfFile t y0.fileID).map planChunk).mapM
      (firstAnswer servers.datanodes t d) = some datas := by
    have hread : List.Forall₂ (fun z' data => ∀ z, untimedChunk z = z' →
        firstAnswer servers.datanodes t d (planChunk z) = some data)
        (done.map (availableChunk y0.fileID file0.replicaPolicy)) datas := by
      rw [forall₂_map_left_iff]
      refine ((forall₂_and_left _ _).mpr ⟨harrives, hheld⟩).imp fun commit data hdata z hz => ?_
      have hid : z.id = commit.chunkID := (congrArg ChunkMetadata.id hz :)
      have hreplicas : z.replicas = filledReplicas y0.fileID commit.chunkID commit.replicas :=
        (congrArg ChunkMetadata.replicas hz :)
      refine firstAnswer_of_holds hmaps hdata.1 hnodes hdata.2 hid fun n => ?_
      rw [hreplicas, replicaOn_filledReplicas, Option.isSome_map]
    rw [← hsettled.chunks, forall₂_map_left_iff] at hread
    rw [mapM_eq_some, forall₂_map_left_iff]
    exact hread.imp fun z data hz => hz z rfl
  have hplan := (yields_buildDownloadPlan hf).mpr ⟨file, hfile, hchunks, rfl, rfl⟩
  have hfits : writeChunks (contentLength (planOfChunks file (chunksOfFile t y0.fileID))) 0 datas =
      datas := by
    have hfileSize : file.size = y0.expectedSize := (congrArg FileMetadata.size hrecord :)
    unfold contentLength
    split_ifs
    · exact writeChunks_all (by simp [planOfChunks, hfileSize, hsize])
    · exact writeChunks_none 0 datas
  have hcases : (∃ datas', _ ∧ downloadResponse servers.datanodes now t d y0.fileID = _) ∨ _ :=
    download_cases (fun _ _ _ _ => chunkCall_read (hmaps.read _)) haddress hplan
  rcases hcases with ⟨datas', hdatas', hresponse⟩ | ⟨hnone, -⟩
  · obtain rfl : datas' = datas := Option.mem_unique hdatas' hanswers
    rw [hfits] at hresponse
    exact ⟨_, hresponse⟩
  · exact absurd (hnone.symm.trans hanswers) (by simp)

end Download

section Upload

structure CreateAccepted (s : MemoryState) (req : CreateFileRequest) (parent : InodeMetadata) :
    Prop where
  inodeID_ne : req.inodeID ≠ ""
  fileID_ne : req.fileID ≠ ""
  parentID_ne : req.parentID ≠ ""
  name : trimSpace req.name ≠ ""
  size : 0 ≤ req.size
  stored : (catalog s).inode req.parentID = some parent
  directory : parent.type = .directory
  inode_fresh : (catalog s).inode req.inodeID = none
  file_fresh : (catalog s).file req.fileID = none
  free : NameFree (catalog s) req.parentID req.name req.inodeID

section Create

variable {req : CreateFileRequest} {parent : InodeMetadata}

lemma yields_createInode (hid : x.id ≠ "") (hroot : x.id ≠ rootInodeID) (hname : x.name ≠ "")
    (htype : x.type = .file) (hfresh : (catalog s).inode x.id = none)
    (hparent : (catalog s).inode x.parentID = some parent) (hdir : parent.type = .directory)
    (hfree : NameFree (catalog s) x.parentID x.name x.id) :
    Yields (createInode (some x)) s () { s with inodes := s.inodes.put x } := by
  have htaken : nameTaken s x.parentID x.name x.id ≠ true := by
    rw [ne_eq, nameTaken_iff]
    rintro ⟨i, y, hy, hp, hn, hi, hd⟩
    exact hd (hfree i y hy hp hn hi)
  have hfresh' : s.inodes.lookup x.id = none := hfresh
  have hnotdir : x.type ≠ .directory := by
    rw [htype]
    exact InodeType.noConfusion
  simp only [createInode, yields_expect_bind, yields_reject_bind, yields_get_bind, hroot,
    if_false, Option.some.injEq, exists_eq_left', yields_putInode, if_neg hnotdir]
  refine ⟨hid, fun h => hname h.1, fun h => h.2 htype, ?_, parent, hparent, ?_, htaken, trivial⟩
  · rw [hfresh']
    exact Bool.false_ne_true
  · exact not_not.mpr hdir

lemma yields_createFile (hid : file.id ≠ "") (hinodeID : file.inodeID ≠ "")
    (hsize : file.chunkSize = fixedChunkSizeBytes) (hfresh : (catalog s).file file.id = none)
    (hunused : ∀ f file', (catalog s).file f = some file' → file'.inodeID ≠ file.inodeID)
    (hinode : ∃ x, (catalog s).inode file.inodeID = some x ∧ x.type = .file) :
    Yields (Store.createFile (some file)) s () { s with files := s.files.put file } := by
  obtain ⟨x, hx, htype⟩ := hinode
  have hfresh' : s.files.lookup file.id = none := hfresh
  have hnone : s.files.values.find? (·.inodeID = file.inodeID) = none := by
    rw [find?_eq_none]
    intro file' hmem hid'
    exact hunused file'.id file' (Records.mem_values.mp hmem) (of_decide_eq_true hid')
  have hne : fixedChunkSizeBytes ≠ 0 := by decide
  simp only [Store.createFile, yields_get_bind, yields_expect_bind, yields_reject_bind,
    yields_putFile, Option.some.injEq, exists_eq_left', hsize, hne, if_false, hfresh', hnone]
  refine ⟨not_or.mpr ⟨hid, hinodeID⟩, Bool.false_ne_true, Bool.false_ne_true, x, hx,
    not_not.mpr htype, not_not.mpr rfl, trivial⟩

theorem CreateAccepted.returns (h : CreateAccepted s req parent) (hw : WellFormed (catalog s)) :
    Returns (Service.createFile now req) s := by
  have hroot : req.inodeID ≠ rootInodeID := by
    intro hroot
    obtain ⟨r, hr, -⟩ := hw.tree.root
    have hfresh := h.inode_fresh
    rw [hroot, hr] at hfresh
    cases hfresh
  have hblank : req.name ≠ "" := by
    intro hblank
    have hname := h.name
    rw [hblank] at hname
    exact hname (by decide)
  have hids : ¬(req.inodeID = "" ∨ req.fileID = "" ∨ req.parentID = "") :=
    not_or.mpr ⟨h.inodeID_ne, not_or.mpr ⟨h.fileID_ne, h.parentID_ne⟩⟩
  rw [Service.createFile, validateCreateFileRequest, bind_assoc, bind_assoc]
  refine unitThen (yields_reject.mpr ⟨hids, rfl⟩) ?_
  refine unitThen (yields_reject.mpr ⟨h.name, rfl⟩) ?_
  refine unitThen (yields_reject.mpr ⟨Int64.not_lt.mpr h.size, rfl⟩) (returns_inTx.mpr ?_)
  refine andThen ((yields_getInode h.parentID_ne).mpr ⟨h.stored, rfl⟩) ?_
  refine unitThen (yields_reject.mpr ⟨not_not.mpr h.directory, rfl⟩) ?_
  refine unitThen (yields_createInode h.inodeID_ne hroot hblank rfl h.inode_fresh h.stored
    h.directory h.free) ?_
  refine unitThen (yields_createFile h.fileID_ne h.inodeID_ne rfl ?_ ?_ ?_) returns_pure
  · rw [catalog_putInode]
    exact h.file_fresh
  · intro f file hfile hid
    obtain ⟨x, hx, -⟩ := hw.links.file_inode f file hfile
    rw [hid, h.inode_fresh] at hx
    cases hx
  · rw [catalog_putInode]
    exact ⟨_, Function.update_self _ _ _, rfl⟩

lemma createFile_required (hpolicy : req.replicaPolicy = none)
    (h : Yields (Service.createFile now req) s file t) : requiredReplicas file = 1 := by
  simp only [Service.createFile, validateCreateFileRequest, bind_assoc, yields_reject_bind,
    yields_inTx, not_or] at h
  obtain ⟨hids, _, _, h⟩ := h
  simp only [yields_getInode_bind hids.2.2, yields_reject_bind] at h
  obtain ⟨_, _, _, h⟩ := h
  obtain ⟨_, _, _, h⟩ := yields_bind.mp h
  obtain ⟨_, _, _, h⟩ := yields_bind.mp h
  obtain ⟨rfl, rfl⟩ := yields_pure.mp h
  rw [hpolicy]
  rfl

end Create

/-- What an upload with the given IDs and name needs of the repository. The first three hold in
every run of the service. -/
structure Receptive (s : MemoryState) (req : UploadRequest) : Prop where
  wellFormed : WellFormed (catalog s)
  chunkTable : ChunkTable (catalog s)
  named : (catalog s).node "" = none
  inode_fresh : (catalog s).inode req.inodeID = none
  file_fresh : (catalog s).file req.fileID = none
  session_fresh : (catalog s).session req.sessionID = none
  parent : ∃ parent, (catalog s).inode req.parentID = some parent ∧ parent.type = .directory
  free : NameFree (catalog s) req.parentID req.name req.inodeID
  node : ∃ nodeID node, (catalog s).node nodeID = some node ∧ eligible node = true

def gatewayCreate (now : Time) (req : UploadRequest) : CreateFileRequest where
  inodeID := req.inodeID
  fileID := req.fileID
  parentID := req.parentID
  name := req.name
  size := Int64.ofNat req.content.length
  contentType := req.contentType
  storageClass := req.storageClass
  createdAt := now

def gatewayStart (sha256 : Bytes → String) (now : Time) (req : UploadRequest) :
    StartUploadRequest where
  sessionID := req.sessionID
  fileID := req.fileID
  expectedSize := Int64.ofNat req.content.length
  expectedChecksum := some (checksumForBytes sha256 now req.content)
  createdAt := now

def gatewayComplete (sha256 : Bytes → String) (now : Time) (req : UploadRequest) :
    CompleteUploadRequest where
  sessionID := req.sessionID
  finalChecksum := some (checksumForBytes sha256 now req.content)
  expectedStatuses := [.uploading]
  completedAt := now

def gatewayVerify (sha256 : Bytes → String) (now : Time) (req : UploadRequest) :
    VerifyUploadRequest where
  sessionID := req.sessionID
  verifiedChecksum := some (checksumForBytes sha256 now req.content)
  expectedStatuses := [.verifying]
  verifiedAt := now

lemma withDefaults_ne (request : UploadRequest) (now : Time) :
    (request.withDefaults now).inodeID ≠ "" ∧ (request.withDefaults now).fileID ≠ "" ∧
      (request.withDefaults now).parentID ≠ "" ∧ (request.withDefaults now).sessionID ≠ "" ∧
      (request.withDefaults now).chunkID ≠ "" := by
  have hdefault {id other : String} (hother : other ≠ "") :
      (if id = "" then other else id) ≠ "" := by
    split_ifs with hid
    · exact hother
    · exact hid
  have hgenerated (kind : String) : generateID kind now ≠ "" := by
    intro h
    have hlist := congrArg String.toList h
    simp [generateID] at hlist
  exact ⟨hdefault (hgenerated _), hdefault (hgenerated _), hdefault (by decide),
    hdefault (hgenerated _), hdefault (hgenerated _)⟩

lemma upload_starts (sha256 : Bytes → String) (clock : Time)
    (hreq : request.withDefaults now = req) (h : Receptive s req)
    (hname : trimSpace request.name ≠ "") (hcontent : request.content ≠ [])
    (hlength : request.content.length < 2 ^ 63) :
    ∃ file session r t y0 file0, Yields (Service.createFile clock (gatewayCreate now req)) s file r ∧
      Yields (Service.startUpload clock (gatewayStart sha256 now req)) r session t ∧
      Underway req.sessionID (gatewayComplete sha256 now req) y0 file0 t y0 file0 [] ∧
      y0.fileID = req.fileID ∧ y0.expectedSize.toInt = request.content.length ∧
      requiredReplicas file0 = 1 ∧ (catalog t).node = (catalog s).node := by
  subst hreq
  obtain ⟨hinodeID, hfileID, hparentID, hsessionID, -⟩ := withDefaults_ne request now
  set req := request.withDefaults now with hreq
  have hsize : (Int64.ofNat request.content.length).toInt = request.content.length :=
    Int64.toInt_ofNat_of_lt hlength
  have hpos : 0 < Int64.ofNat request.content.length := by
    rw [Int64.lt_iff_toInt_lt, hsize]
    exact Int.natCast_pos.mpr (length_pos_iff.mpr hcontent)
  obtain ⟨parent, hparent, hdir⟩ := h.parent
  have haccepted : CreateAccepted s (gatewayCreate now req) parent :=
    ⟨hinodeID, hfileID, hparentID, hname, Int64.le_of_lt hpos, hparent, hdir, h.inode_fresh,
      h.file_fresh, h.free⟩
  obtain ⟨file, r, hcreate⟩ : Returns (Service.createFile clock (gatewayCreate now req)) s :=
    haccepted.returns h.wellFormed
  have hstep : Step s (.call clock (.createFile (gatewayCreate now req))) r :=
    step_of_yields (yields_map.mpr ⟨file, hcreate, rfl⟩)
  have hw := h.wellFormed.step hstep
  have htable := h.chunkTable.effect
    (effect_of_step h.wellFormed hstep)
  obtain ⟨_, _, -, -, -, -, -, ⟨-, -, -, -, -, hpending, -⟩, hr⟩ := createFile_adds hcreate
  have hrequired : requiredReplicas file = 1 := createFile_required rfl hcreate
  have hstart : StartAccepted r (gatewayStart sha256 now req) file := by
    refine ⟨hsessionID, hfileID, Int64.le_of_lt hpos, ?_, ?_, ?_, ?_⟩
    · rw [hr]
      exact Function.update_self _ _ _
    · rw [hpending]
      exact ⟨FileStatus.noConfusion, FileStatus.noConfusion⟩
    · intro k y hy hyf
      rw [hr] at hy
      obtain ⟨file', hfile'⟩ := h.wellFormed.links.session_file k y hy
      rw [hyf] at hfile'
      exact absurd (h.file_fresh.symm.trans hfile') (by simp)
    · rw [hr]
      exact h.session_fresh
  have hempty : ∀ k z, (catalog r).chunk k = some z → z.fileID ≠ req.fileID := by
    intro k z hz hzf
    rw [hr] at hz
    obtain ⟨file', hfile'⟩ := h.wellFormed.links.chunk_file k z hz
    rw [hzf] at hfile'
    exact absurd (h.file_fresh.symm.trans hfile') (by simp)
  obtain ⟨t, hstarted, huploading⟩ := hstart.uploading clock hw htable hpos hempty
  obtain ⟨session, hyields, -⟩ := yields_map.mp hstarted
  refine ⟨file, session, r, t, _, _, hcreate, hyields, underway_started _ huploading rfl, rfl,
    hsize, hrequired, ?_⟩
  rw [node_of_uploadCall hw rfl hstarted, hr]

lemma upload_ends (clock : Time)
    (h : Storing stored s req (gatewayComplete sha256 now req) y0 file0 t d
      (chunkCount req.content.length) done)
    (hsize : y0.expectedSize.toInt = req.content.length) :
    ∃ file file' r t',
      Yields (Service.completeUpload clock (gatewayComplete sha256 now req)) t file r ∧
      Yields (Service.verifyUpload clock (gatewayVerify sha256 now req)) r file' t' ∧
      SettledUpload req.sessionID (gatewayComplete sha256 now req) (gatewayVerify sha256 now req) y0
        file0 (checksumForBytes sha256 now req.content) t' done ∧
      (catalog t').node = (catalog s).node := by
  obtain ⟨y, file, hunderway⟩ := h.underway
  have hw := hunderway.uploading.wellFormed
  have hplaces : done.map place = chunkPlaces y0.expectedSize.toInt := by
    rw [hsize, chunkPlaces_eq]
    exact h.places
  have hcomplete : SoundComplete req.sessionID (gatewayComplete sha256 now req) := by
    refine ⟨rfl, ?_, .inr mem_cons_self⟩
    rintro c ⟨⟩ _
    exact Option.some_ne_none now
  have hverify : SoundVerify req.sessionID (gatewayComplete sha256 now req)
      (gatewayVerify sha256 now req) := by
    refine ⟨rfl, ?_, .inr mem_cons_self, .inl rfl⟩
    rintro c ⟨⟩
    rfl
  obtain ⟨t', hclosing, hsettled⟩ : ∃ t', Yields (runCalls (closingCalls
      (clock, gatewayComplete sha256 now req) (clock, gatewayVerify sha256 now req))) t () t' ∧
        SettledUpload req.sessionID (gatewayComplete sha256 now req) (gatewayVerify sha256 now req)
          y0 file0 (checksumForBytes sha256 now req.content) t' done :=
    hunderway.finishes hplaces hcomplete hverify rfl
  obtain ⟨r, hcompleted, hclosing⟩ := yields_forM_cons.mp hclosing
  obtain ⟨_, hverified, hclosing⟩ := yields_forM_cons.mp hclosing
  obtain rfl := yields_forM_nil.mp hclosing
  have hw' := hw.step (step_of_yields hcompleted)
  have hnodes := (node_of_uploadCall hw' rfl hverified).trans (node_of_uploadCall hw rfl hcompleted)
  obtain ⟨file1, hcompleted, -⟩ := yields_map.mp hcompleted
  obtain ⟨file2, hverified, -⟩ := yields_map.mp hverified
  exact ⟨file1, file2, r, t', hcompleted, hverified, hsettled, hnodes.trans h.nodes⟩

def createdResponse (sha256 : Bytes → String) (now : Time) (req : UploadRequest)
    (uploadedChunks : List UploadedChunk) : UploadResponse where
  fileID := req.fileID
  sessionID := req.sessionID
  chunkID := uploadedChunks.head?.elim "" (·.chunkID)
  nodeID := uploadedChunks.head?.elim "" (·.nodeID)
  nodeAddress := uploadedChunks.head?.elim "" (·.nodeAddress)
  size := Int64.ofNat req.content.length
  checksum := checksumForBytes sha256 now req.content
  chunkCount := uploadedChunks.length
  chunks := uploadedChunks

lemma handleUploads_run (hreq : request.withDefaults now = req) (hcontent : request.content ≠ [])
    (hname : trimSpace request.name ≠ "")
    (hcreate : Yields (Service.createFile clock (gatewayCreate now req)) s file r)
    (hstart : Yields (Service.startUpload clock (gatewayStart sha256 now req)) r session t0)
    (hloop : (uploadChunks sha256 now (datanodes.client clock) req request.content.length 0 0).run
      (t0, d) = (.ok uploaded, (t1, d')))
    (hcomplete : Yields (Service.completeUpload clock (gatewayComplete sha256 now req)) t1 file1 r')
    (hverify : Yields (Service.verifyUpload clock (gatewayVerify sha256 now req)) r' file2 t) :
    (handleUploads sha256 now (datanodes.client clock) request).run (s, d) =
      (.ok (.created (createdResponse sha256 now req uploaded)), (t, d')) := by
  subst hreq
  set req := request.withDefaults now with hreq
  have hcreated : (datanodes.client clock).createFile (gatewayCreate now req) (s, d) =
      (.ok file, (r, d)) := callMDS_of_yields hcreate
  have hstarted : (datanodes.client clock).startUpload (gatewayStart sha256 now req) (r, d) =
      (.ok session, (t0, d)) := callMDS_of_yields hstart
  have hcompleted : (datanodes.client clock).completeUpload (gatewayComplete sha256 now req)
      (t1, d') = (.ok file1, (r', d')) := callMDS_of_yields hcomplete
  have hverified : (datanodes.client clock).verifyUpload (gatewayVerify sha256 now req) (r', d') =
      (.ok file2, (t, d')) := callMDS_of_yields hverify
  unfold handleUploads
  rw [run_bind_ok _ (run_refuse hcontent), run_bind_ok _ (run_refuse hname)]
  refine (run_bind_ok _ (run_upstream_ok hcreated)).trans ?_
  refine (run_bind_ok _ (run_upstream_ok hstarted)).trans ?_
  refine (run_bind_ok _ hloop).trans ?_
  refine (run_bind_ok _ (run_upstream_ok hcompleted)).trans ?_
  exact run_bind_ok _ (run_upstream_ok hverified)

lemma upload_delivers (sha256 : Bytes → String) (clock : Time) (d : δ)
    (hmaps : ChunkMaps servers stored) (h : Receptive s (request.withDefaults now))
    (harrives : ∀ i < chunkCount request.content.length,
      arrives (nthChunkID (request.withDefaults now) i) = true)
    (hheader : isHeaderValue (request.withDefaults now).fileID = true)
    (hname : trimSpace request.name ≠ "") (hcontent : request.content ≠ [])
    (hlength : request.content.length < 2 ^ 63) :
    ∃ response t d',
      (handleUploads sha256 now (servers.datanodes.client clock) request).run (s, d) =
        (.ok (.created response), (t, d')) ∧
      response.fileID = (request.withDefaults now).fileID ∧
      ∀ later, ¬Unaddressable response.fileID → ∃ length sent,
        downloadResponse servers.datanodes later t d' response.fileID = .data length sent ∧
          sent.flatten = request.content := by
  obtain ⟨-, -, -, -, hchunkID⟩ := withDefaults_ne request now
  obtain ⟨file, session, r, t0, y0, file0, hcreate, hstart, hunderway, hfileID, hsize, hrequired,
    hnodes⟩ := upload_starts sha256 clock rfl h hname hcontent hlength
  set req := request.withDefaults now with hreq
  have hbegin : Storing stored s req (gatewayComplete sha256 now req) y0 file0 t0 d 0 [] :=
    ⟨⟨y0, file0, hunderway⟩, hnodes, rfl, rfl, .nil⟩
  obtain ⟨uploaded, t1, d', done, hloop, hstoring⟩ := hbegin.loop hmaps hchunkID harrives
    hheader hfileID hsize hrequired h.named h.node hlength sha256 now clock
    (by rw [Nat.zero_add]; exact Nat.le_mul_of_pos_right _ (by decide))
    (by rw [Nat.zero_mul]; exact Nat.add_pos_right _ (by decide))
  obtain ⟨file1, file2, r', t, hcomplete, hverify, hsettled, hnodes'⟩ :=
    upload_ends clock hstoring hsize
  have hrun := handleUploads_run rfl hcontent hname hcreate hstart hloop hcomplete hverify
  refine ⟨_, t, d', hrun, rfl, ?_⟩
  intro later haddress
  have hpieces : ((range (chunkCount req.content.length)).map (piece req.content)).flatten =
      request.content := by
    rw [flatten_pieces]
    exact take_of_length_le (chunkCount_spec _).1
  have hdone : done ≠ [] := by
    rintro rfl
    have hplaces := congrArg length hstoring.places
    have hpos : 0 < chunkCount req.content.length :=
      lt_chunkCount (by rw [Nat.zero_mul]; exact length_pos_iff.mpr hcontent)
    simp at hplaces
    omega
  have hids : ∀ commit ∈ done, arrives commit.chunkID = true := by
    intro commit hcommit
    obtain ⟨i, hi, hid⟩ := mem_map.mp (hstoring.chunkIDs ▸ mem_map_of_mem hcommit)
    rw [← hid]
    exact harrives i (mem_range.mp hi)
  have htotal : y0.expectedSize.toInt =
      total ((range (chunkCount req.content.length)).map (piece req.content)) := by
    rw [hsize, total, ← length_flatten, hpieces]
  obtain ⟨length, hresponse⟩ := download_of_settled later hmaps hids
    (hfileID ▸ haddress) hsettled hnodes' hstoring.held hdone htotal
  rw [hfileID] at hresponse
  exact ⟨length, _, hresponse, hpieces⟩

end Upload

/-! ### The round trip -/

/-- The mux of `net/http` answers with a redirection if the path of a request ends in `.` or `..`,
and no handler sees the request. -/
def Redirected (fileID : FileID) : Prop := fileID = "." ∨ fileID = ".."

/-- The upload is answered 201, and every download of its file is answered 200 with the content. -/
def RoundTrip (sha256 : Bytes → String) (now clock : Time) (servers : ChunkServers δ)
    (request : UploadRequest) (s : MemoryState) (d : δ) : Prop :=
  ∃ response t d',
    (handleUploads sha256 now (servers.datanodes.client clock) request).respond (s, d) =
      (.created response, (t, d')) ∧
    ∀ later, ¬Redirected response.fileID ∧ ∃ length sent,
      downloadResponse servers.datanodes later t d' response.fileID = .data length sent ∧
        sent.flatten = request.content

lemma upload_unnamed (hcontent : request.content ≠ []) (hname : trimSpace request.name = "") :
    (handleUploads sha256 now (datanodes.client clock) request).respond (s, d) =
      (.error 400 "invalid_argument" (.text "file name is required"), (s, d)) := by
  apply respond_error
  unfold handleUploads
  rw [run_bind_ok _ (run_refuse hcontent)]
  exact run_bind_error _ (run_refuse_error hname)

/-- A request uploads any bytes, and they are downloaded again, unless the name is blank or the file
ID does not fit into the path of a download. The chunk IDs have to fit into URLs and the file ID
into a header; the length of the content is an `int`. -/
theorem uploadThenDownload_iff {servers : ChunkServers δ}
    {stored : δ → String → Bytes → Option Bytes} {request : UploadRequest} {now : Time}
    (sha256 : Bytes → String) (clock : Time) (d : δ) (hmaps : ChunkMaps servers stored)
    (h : Receptive s (request.withDefaults now))
    (harrives : ∀ i < chunkCount request.content.length,
      arrives (nthChunkID (request.withDefaults now) i) = true)
    (hheader : isHeaderValue (request.withDefaults now).fileID = true)
    (hcontent : request.content ≠ []) (hlength : request.content.length < 2 ^ 63) :
    RoundTrip sha256 now clock servers request s d ↔ trimSpace request.name ≠ "" ∧
      ¬Unaddressable (request.withDefaults now).fileID ∧
      ¬Redirected (request.withDefaults now).fileID := by
  by_cases hname : trimSpace request.name = ""
  · refine iff_of_false ?_ fun hcond => hcond.1 hname
    rintro ⟨response, t, d', hrespond, -⟩
    rw [upload_unnamed hcontent hname] at hrespond
    cases hrespond
  · obtain ⟨response, t, d', hrun, hid, hdownload⟩ :=
      upload_delivers sha256 clock d hmaps h harrives hheader hname hcontent hlength
    have hcreated := respond_ok hrun
    constructor
    · rintro ⟨response1, t1, d1, hrespond, hboth⟩
      rw [hcreated] at hrespond
      cases hrespond
      obtain ⟨hrouted, length, sent, hsent, -⟩ := hboth 0
      rw [← hid]
      refine ⟨hname, fun haddress => ?_, hrouted⟩
      rw [download_unaddressable haddress] at hsent
      cases hsent
    · rintro ⟨-, haddress, hrouted⟩
      rw [← hid] at haddress hrouted
      exact ⟨response, t, d', hcreated, fun later => ⟨hrouted, hdownload later haddress⟩⟩

def chunkMaps : ChunkServers (String → Bytes → Option Bytes) where
  putChunk base k _ data d := (.ok (), fun a l => if a = base ∧ l = k then some data else d a l)
  replicateChunk base k targets d := (.ok (targets.map fun target => ⟨target.nodeID, .ready⟩),
    fun a l => if l = k ∧ a ∈ targets.map baseURL then d base k else d a l)
  getChunk base k d := ((d base k).elim (.error (.text "chunk not found")) .ok, d)

lemma chunkMaps_spec : ChunkMaps chunkMaps id := by
  refine ⟨fun _ _ _ _ _ => ⟨_, rfl, fun _ _ => rfl⟩, ?_, ?_, fun _ _ _ => rfl⟩
  · intro base k targets data d hdata
    refine ⟨_, _, rfl, ?_, ?_, fun a l => ?_⟩
    · intro target htarget
      exact ⟨_, mem_map_of_mem htarget, rfl⟩
    · intro result hresult
      obtain ⟨target, -, rfl⟩ := mem_map.mp hresult
      rfl
    · simp only [id_eq] at hdata ⊢
      rw [hdata]
  · intro base k data d hdata
    simp only [id_eq] at hdata
    simp only [chunkMaps, hdata]
    rfl

def lengthDigest (data : Bytes) : String := toString data.length

/-- A cluster with two nodes and no files. -/
def twoNodes : MemoryState := (play 1 [
  newNode "n1" "a1" 0,
  newNode "n2" "a2" 0]).2

def threeBytes (fileID : FileID) : UploadRequest :=
  { fileID := fileID, chunkID := "k", name := "notes", content := [1, 2, 3] }

lemma receptive_twoNodes (h : fileID = "f" ∨ fileID = "a/b") :
    Receptive twoNodes ((threeBytes fileID).withDefaults 1) := by
  have hrun : ServiceRun _ twoNodes := serviceRun_play 1 _
  have hparent : (twoNodes.inodes.lookup rootInodeID).any (·.type = .directory) = true := by
    decide +kernel
  have hnode : (twoNodes.nodes.lookup "n1").any eligible = true := by decide +kernel
  obtain ⟨parent, hparent, hdir⟩ := (Option.any_eq_true ..).mp hparent
  obtain ⟨node, hnode, heligible⟩ := (Option.any_eq_true ..).mp hnode
  refine ⟨wellFormed_of_run hrun, chunkTable_of_run hrun, named_of_run hrun, ?_, ?_, ?_,
    ⟨parent, hparent, of_decide_eq_true hdir⟩, ?_, "n1", node, hnode, heligible⟩
  · rcases h with rfl | rfl <;> decide +kernel
  · rcases h with rfl | rfl <;> decide +kernel
  · rcases h with rfl | rfl <;> decide +kernel
  · apply nameFree_of_not_nameTaken
    rcases h with rfl | rfl <;> decide +kernel

lemma arrives_threeBytes : ∀ i < chunkCount (threeBytes fileID).content.length,
    arrives (nthChunkID ((threeBytes fileID).withDefaults 1) i) = true := by
  have hid : arrives "k" = true := by decide +kernel
  have hcount : chunkCount 3 ≤ 1 := by decide
  intro i _
  exact (congrArg arrives (if_pos hcount)).trans hid

theorem uploadThenDownload_threeBytes :
    RoundTrip lengthDigest 1 1 chunkMaps (threeBytes "f") twoNodes fun _ _ => none :=
  (uploadThenDownload_iff lengthDigest 1 _ chunkMaps_spec (receptive_twoNodes (.inl rfl))
    arrives_threeBytes (by decide +kernel) (cons_ne_nil _ _) (by decide)).mpr
    ⟨by decide, by decide, by unfold Redirected; decide⟩

/-- A file whose ID has a slash is stored, but a download of it is answered 404. -/
theorem uploadThenDownload_slash :
    Receptive twoNodes ((threeBytes "a/b").withDefaults 1) ∧
    (∃ response t d,
      (handleUploads lengthDigest 1 (chunkMaps.datanodes.client 1) (threeBytes "a/b")).respond
        (twoNodes, fun _ _ => none) = (.created response, (t, d)) ∧ response.fileID = "a/b" ∧
      ∀ later, downloadResponse chunkMaps.datanodes later t d "a/b" =
        .error 404 "not_found" (.text "download endpoint not found")) ∧
    ¬RoundTrip lengthDigest 1 1 chunkMaps (threeBytes "a/b") twoNodes fun _ _ => none := by
  have hreceptive := receptive_twoNodes (.inr rfl)
  obtain ⟨response, t, d, hrun, hid, -⟩ := upload_delivers lengthDigest 1 (fun _ _ => none)
    chunkMaps_spec hreceptive arrives_threeBytes (by decide +kernel) (by decide)
    (cons_ne_nil _ _) (by decide)
  have hrefused (later : Time) : downloadResponse chunkMaps.datanodes later t d "a/b" =
      .error 404 "not_found" (.text "download endpoint not found") :=
    download_unaddressable (by decide)
  refine ⟨hreceptive, ⟨response, t, d, respond_ok hrun, hid, hrefused⟩, ?_⟩
  rintro ⟨response1, t1, d1, hrespond, hboth⟩
  rw [respond_ok hrun] at hrespond
  cases hrespond
  obtain ⟨-, length, sent, hsent, -⟩ := hboth 0
  rw [hid] at hsent
  cases (hrefused 0).symm.trans hsent

end AstraStorage.Proofs
