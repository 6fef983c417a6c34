import AstraStorage.Proofs.DownloadIntegrity

/-!
# Downloads fall back to other replicas

A chunk is served by the first of its candidates that can be looked up and answers. The position
of a chunk in the plan stands for the chunk.
-/

namespace AstraStorage.Proofs
open Lib Service Gateway List

variable {l : List NodeID} {datas : List Bytes}

structure Upstreams where
  lookup : Nat → NodeID → Except UpstreamError NodeInfo
  get : Nat → NodeID → String → ChunkID → Except UpstreamError Bytes

structure Fetching where
  position : Nat := 0
  asked : List (Nat × NodeID) := []

def Upstreams.client (u : Upstreams) (plan : DownloadPlan)
    (others : UpstreamClient (StateM Fetching)) : UpstreamClient (StateM Fetching) :=
  { others with
    buildDownloadPlan := fun _ => pure (.ok plan)
    getNode := fun nodeID fetching => (u.lookup fetching.position nodeID, fetching)
    getChunk := fun nodeID address chunkID fetching =>
      let reply := u.get fetching.position nodeID address chunkID
      (reply, { position := fetching.position + if reply.toOption.isSome then 1 else 0
                asked := fetching.asked ++ [(fetching.position, nodeID)] }) }

def Upstreams.served (u : Upstreams) (position : Nat) (chunkID : ChunkID) (nodeID : NodeID) :
    Option Bytes :=
  match u.lookup position nodeID with
  | .error _ => none
  | .ok node =>
    if trimSpace node.address = "" then none
    else (u.get position nodeID node.address chunkID).toOption

/-- The preferred node and the candidates. -/
def planNodes (chunk : DownloadChunkPlan) : List NodeID :=
  (if chunk.preferredNodeID ≠ "" then [chunk.preferredNodeID] else []) ++ chunk.candidateNodeIDs

def Upstreams.first (u : Upstreams) (chunk : DownloadChunkPlan × Nat) : Option Bytes :=
  (planNodes chunk.1).findSome? (u.served chunk.2 chunk.1.chunkID)

section Candidates

variable {α β : Type} [DecidableEq α]

lemma findSome?_foldl_append_new (f : α → Option β) (xs acc : List α) :
    (xs.foldl (fun acc x => if acc.contains x then acc else acc ++ [x]) acc).findSome? f =
      (acc ++ xs).findSome? f := by
  induction xs generalizing acc with
  | nil => rw [append_nil, foldl_nil]
  | cons x xs ih =>
    rw [foldl_cons, ih]
    split_ifs with hx
    · have hx : acc.findSome? f = none → f x = none := fun h =>
        findSome?_eq_none_iff.mp h x (contains_iff_mem.mp hx)
      simp only [findSome?_append, findSome?_cons]
      cases hacc : acc.findSome? f with
      | none => rw [hx hacc]
      | some b => rfl
    · rw [append_assoc, singleton_append]

lemma nodup_foldl_append_new (xs : List α) {acc : List α} (h : acc.Nodup) :
    (xs.foldl (fun acc x => if acc.contains x then acc else acc ++ [x]) acc).Nodup := by
  induction xs generalizing acc with
  | nil => exact h
  | cons x xs ih =>
    rw [foldl_cons]
    split_ifs with hx
    · exact ih h
    · exact ih (nodup_append_comm.mp
        (nodup_cons.mpr ⟨fun hmem => hx (contains_iff_mem.mpr hmem), h⟩))

end Candidates

section Fetching

variable {u : Upstreams} {plan : DownloadPlan} {others : UpstreamClient (StateM Fetching)}
  {i : Nat} {asked : List (Nat × NodeID)}

lemma findSome?_orderedCandidateNodeIDs (chunk : DownloadChunkPlan) :
    (orderedCandidateNodeIDs chunk).findSome? (u.served i chunk.chunkID) = u.first (chunk, i) :=
  findSome?_foldl_append_new ..

lemma nodup_orderedCandidateNodeIDs (chunk : DownloadChunkPlan) :
    (orderedCandidateNodeIDs chunk).Nodup := by
  refine nodup_foldl_append_new _ ?_
  split_ifs
  · exact nodup_singleton _
  · exact nodup_nil

def Fetched (u : Upstreams) (i : Nat) (asked : List (Nat × NodeID)) (chunkID : ChunkID)
    (nodes : List NodeID) (result : Except UpstreamError Bytes × Fetching) : Prop :=
  ∃ r, r.toOption = nodes.findSome? (u.served i chunkID) ∧ ∃ l : List NodeID, l.Sublist nodes ∧
    result = (r, ⟨i + if r.toOption.isSome then 1 else 0, asked ++ l.map (i, ·)⟩)

lemma Fetched.cons (hnot : u.served i chunkID nodeID = none) (hl : l.Sublist [nodeID])
    (h : Fetched u i (asked ++ l.map (i, ·)) chunkID nodes result) :
    Fetched u i asked chunkID (nodeID :: nodes) result := by
  obtain ⟨r, hr, l', hl', rfl⟩ := h
  refine ⟨r, ?_, l ++ l', hl.append hl', ?_⟩
  · rw [hr, findSome?_cons, hnot]
  · rw [map_append, append_assoc]

lemma tryCandidates_fetched (chunkID : ChunkID) (lastErr : Option UpstreamError)
    (nodes : List NodeID) : Fetched u i asked chunkID nodes
      (tryCandidates (u.client plan others) chunkID lastErr nodes ⟨i, asked⟩) := by
  induction nodes generalizing lastErr asked with
  | nil => exact ⟨_, rfl, [], .slnil, by rw [map_nil, append_nil]; rfl⟩
  | cons nodeID rest ih =>
    have hget : (u.client plan others).getNode nodeID ⟨i, asked⟩ =
        (u.lookup i nodeID, ⟨i, asked⟩) := rfl
    rw [tryCandidates, cluster_bind, hget]
    cases hlookup : u.lookup i nodeID with
    | error err =>
      exact Fetched.cons (by simp only [Upstreams.served, hlookup]) (nil_sublist _)
        (by simpa using ih (some err))
    | ok node =>
      dsimp only
      split_ifs with haddress
      · exact Fetched.cons (by simp only [Upstreams.served, hlookup, if_pos haddress])
          (nil_sublist _) (by simpa using ih _)
      · have hserved : u.served i chunkID nodeID =
            (u.get i nodeID node.address chunkID).toOption := by
          simp only [Upstreams.served, hlookup, if_neg haddress]
        have hask : (u.client plan others).getChunk nodeID node.address chunkID ⟨i, asked⟩ =
            (u.get i nodeID node.address chunkID,
              ⟨i + if (u.get i nodeID node.address chunkID).toOption.isSome then 1 else 0,
                asked ++ [(i, nodeID)]⟩) := rfl
        rw [cluster_bind, hask]
        cases hreply : u.get i nodeID node.address chunkID with
        | error err =>
          exact Fetched.cons (hserved.trans (by rw [hreply]; rfl)) (.refl _) (ih (some err))
        | ok data =>
          refine ⟨_, ?_, [nodeID], singleton_sublist.mpr mem_cons_self, rfl⟩
          rw [findSome?_cons, hserved, hreply]
          rfl

lemma fetchChunk_fetched (chunk : DownloadChunkPlan) :
    Fetched u i asked chunk.chunkID (orderedCandidateNodeIDs chunk)
      (fetchChunkFromCandidates (u.client plan others) chunk ⟨i, asked⟩) := by
  unfold fetchChunkFromCandidates
  cases orderedCandidateNodeIDs chunk with
  | nil => exact ⟨_, rfl, [], .slnil, by rw [map_nil, append_nil]; rfl⟩
  | cons nodeID rest => exact tryCandidates_fetched ..

structure AskedOnce (i : Nat) (asked : List (Nat × NodeID)) : Prop where
  nodup : asked.Nodup
  before : ∀ p ∈ asked, p.1 < i

lemma AskedOnce.append (h : AskedOnce i asked) (hl : l.Nodup) :
    AskedOnce (i + 1) (asked ++ l.map (i, ·)) := by
  refine ⟨h.nodup.append (hl.map fun _ _ => congrArg Prod.snd) ?_, fun p hp => ?_⟩
  · intro p hp hl
    obtain ⟨n, -, rfl⟩ := mem_map.mp hl
    exact lt_irrefl i (h.before _ hp)
  · rcases mem_append.mp hp with hp | hp
    · exact (h.before p hp).trans (Nat.lt_succ_self i)
    · obtain ⟨n, -, rfl⟩ := mem_map.mp hp
      exact Nat.lt_succ_self i

lemma fetchChunks_fetched (chunks : List DownloadChunkPlan) (h : AskedOnce i asked) :
    ∃ r fetching, (chunks.mapM fun chunk => upstream "datanode_error"
        (fetchChunkFromCandidates (u.client plan others) chunk)).run ⟨i, asked⟩ = (r, fetching) ∧
      fetching.asked.Nodup ∧ r.toOption = (chunks.zipIdx i).mapM u.first ∧
      ∀ response, r = .error response → ∃ err, response = .error 502 "datanode_error" err := by
  induction chunks generalizing i asked with
  | nil => exact ⟨.ok [], _, rfl, h.nodup, rfl, fun _ hr => by cases hr⟩
  | cons chunk chunks ih =>
    obtain ⟨r, hfirst, l, hl, hr⟩ : Fetched u i asked chunk.chunkID _
      (fetchChunkFromCandidates (u.client plan others) chunk ⟨i, asked⟩) := fetchChunk_fetched chunk
    rw [findSome?_orderedCandidateNodeIDs] at hfirst
    have hasked := h.append (hl.nodup (nodup_orderedCandidateNodeIDs chunk))
    rw [mapM_cons, zipIdx_cons, mapM_cons, ← hfirst]
    cases r with
    | error err =>
      refine ⟨_, _, run_bind_error _ (run_upstream_error hr), hasked.nodup, rfl, ?_⟩
      rintro _ ⟨⟩
      exact ⟨err, rfl⟩
    | ok data =>
      obtain ⟨r, fetching, hrun, hnodup, hrest, herror⟩ := ih hasked
      rw [run_bind_ok _ (run_upstream_ok hr), ← hrest]
      cases r with
      | error response =>
        refine ⟨_, fetching, run_bind_error _ hrun, hnodup, rfl, ?_⟩
        rintro _ ⟨⟩
        exact herror response rfl
      | ok datas =>
        exact ⟨.ok (data :: datas), fetching, run_bind_ok _ hrun, hnodup, rfl,
          fun _ hr => by cases hr⟩

lemma total_writeChunks_lt {length : Int64} {written : Nat} (hwritten : written ≤ length.toInt)
    (h : length.toInt < written + total datas) :
    total (writeChunks (some length) written datas) < total datas := by
  induction datas generalizing written with
  | nil =>
    rw [total_nil] at h
    omega
  | cons data datas ih =>
    rw [total_cons] at h ⊢
    by_cases hstop : length.toInt < written + data.length
    · rw [writeChunks_stop hstop, total_map_nil]
      omega
    · rw [writeChunks_go hstop, total_cons]
      have hrest : total (writeChunks _ (written + data.length) datas) < _ :=
        ih (by omega) (by omega)
      omega

lemma writeChunks_flatten_iff :
    (writeChunks (contentLength plan) 0 datas).flatten = datas.flatten ↔
      (0 < plan.size → (total datas : Int) ≤ plan.size.toInt) := by
  unfold contentLength
  split_ifs with hsize
  · have hpositive : 0 < plan.size.toInt := Int64.lt_iff_toInt_lt.mp hsize
    rw [imp_iff_right hsize]
    constructor
    · intro h
      by_contra hlong
      have hlt : total (writeChunks (some plan.size) 0 datas) < _ :=
        total_writeChunks_lt (by omega) (by omega)
      have hlength := congrArg length h
      rw [length_flatten, length_flatten] at hlength
      exact hlt.ne hlength
    · intro h
      rw [writeChunks_all (by simpa using h)]
  · rw [writeChunks_none]
    exact iff_of_true rfl fun h => absurd h hsize

variable {fileID : FileID}

def fallbackDownload (u : Upstreams) (plan : DownloadPlan)
    (others : UpstreamClient (StateM Fetching)) (fileID : FileID) : Response × Fetching :=
  (handleDownloads (u.client plan others) fileID).respond {}

lemma fallbackDownload_cases (hchunks : plan.chunks ≠ []) (haddress : ¬Unaddressable fileID) :
    (fallbackDownload u plan others fileID).2.asked.Nodup ∧
      match plan.chunks.zipIdx.mapM u.first with
      | some datas => (fallbackDownload u plan others fileID).1 =
          .data (contentLength plan) (writeChunks (contentLength plan) 0 datas)
      | none => ∃ err, (fallbackDownload u plan others fileID).1 =
          .error 502 "datanode_error" err := by
  obtain ⟨r, fetching, hrun, hnodup, hfirst, herror⟩ : ∃ r fetching, _ :=
    @fetchChunks_fetched u plan others 0 [] plan.chunks ⟨nodup_nil, fun _ h => by cases h⟩
  have hhandler : (handleDownloads (u.client plan others) fileID).run {} =
      ((plan.chunks.mapM fun chunk => upstream "datanode_error"
        (fetchChunkFromCandidates (u.client plan others) chunk)) >>= fun chunks =>
          pure (Response.data (contentLength plan)
            (writeChunks (contentLength plan) 0 chunks)) : HandlerM (StateM Fetching) _).run
        {} := by
    have hplan : (u.client plan others).buildDownloadPlan fileID {} = (.ok plan, {}) := rfl
    unfold handleDownloads
    rw [run_bind_ok _ (run_refuse haddress), run_bind_ok _ (run_upstream_ok hplan),
      run_bind_ok _ (run_refuse hchunks)]
    rfl
  unfold fallbackDownload
  rw [← hfirst]
  cases r with
  | error response =>
    rw [run_bind_error _ hrun] at hhandler
    obtain ⟨err, rfl⟩ := herror response rfl
    rw [respond_error hhandler]
    exact ⟨hnodup, err, rfl⟩
  | ok datas =>
    rw [run_bind_ok _ hrun] at hhandler
    rw [respond_ok hhandler]
    exact ⟨hnodup, rfl⟩

lemma first_isSome_iff :
    (u.first chunk).isSome ↔
    ∃ n ∈ planNodes chunk.1, (u.served chunk.2 chunk.1.chunkID n).isSome := by
  rw [Upstreams.first, isSome_findSome?, any_eq_true]

/-- A download asks no datanode twice for a chunk; it is answered with 200 if and only if some
node serves each chunk; and the body then consists of what the first such nodes serve, exactly
if that is not longer than a positive size of the plan. -/
theorem download_fallsBack_iff (hchunks : plan.chunks ≠ []) (haddress : ¬Unaddressable fileID) :
    (fallbackDownload u plan others fileID).2.asked.Nodup ∧
    ((∃ length sent, (fallbackDownload u plan others fileID).1 = .data length sent) ↔
      ∀ chunk ∈ plan.chunks.zipIdx, ∃ n ∈ planNodes chunk.1,
        (u.served chunk.2 chunk.1.chunkID n).isSome) ∧
    ((∀ length sent, (fallbackDownload u plan others fileID).1 = .data length sent →
      ∃ datas, List.Forall₂ (fun chunk data => u.first chunk = some data)
        plan.chunks.zipIdx datas ∧ sent.flatten = datas.flatten) ↔
      ∀ datas, List.Forall₂ (fun chunk data => u.first chunk = some data)
        plan.chunks.zipIdx datas → 0 < plan.size → (total datas : Int) ≤ plan.size.toInt) := by
  obtain ⟨hnodup, hcases⟩ : (fallbackDownload u plan others fileID).2.asked.Nodup ∧ _ :=
    fallbackDownload_cases hchunks haddress
  simp only [← first_isSome_iff, ← mapM_eq_some]
  refine ⟨hnodup, ?_⟩
  cases hfirst : plan.chunks.zipIdx.mapM u.first with
  | none =>
    rw [hfirst] at hcases
    obtain ⟨err, herr⟩ := hcases
    obtain ⟨chunk, hchunk, hnone⟩ := mapM_eq_none hfirst
    rw [herr]
    refine ⟨iff_of_false (by rintro ⟨_, _, ⟨⟩⟩) fun h => ?_, iff_of_true ?_ ?_⟩
    · have hsome := h chunk hchunk
      rw [hnone] at hsome
      cases hsome
    · rintro _ _ ⟨⟩
    · rintro _ ⟨⟩
  | some datas =>
    rw [hfirst] at hcases
    rw [hcases]
    refine ⟨iff_of_true ⟨_, _, rfl⟩ fun chunk hchunk => ?_, ?_⟩
    · obtain ⟨data, -, hdata⟩ := forall₂_exists_left (mapM_eq_some.mp hfirst).flip hchunk
      exact Option.isSome_iff_exists.mpr ⟨data, hdata⟩
    · simp only [Response.data.injEq, Option.some.injEq, forall_eq', exists_eq_left',
        ← writeChunks_flatten_iff]
      constructor
      · exact fun h => h _ _ ⟨rfl, rfl⟩
      · rintro h _ _ ⟨rfl, rfl⟩
        exact h

end Fetching

def servingAll (data : Bytes) : Upstreams where
  lookup _ nodeID := .ok { id := nodeID, address := "a" }
  get _ nodeID _ _ := if nodeID = "m" then .error (.text "down") else .ok data

def onePlan (size : Int64) : DownloadPlan where
  fileID := "f"
  inodeID := "i"
  path := "/f"
  size := size
  storedSize := size
  chunkSize := size
  fileStatus := .available
  chunkCount := 1
  chunks := [{
    chunkID := "k", index := 0, offset := 0, size := size, status := .available
    preferredNodeID := "m", candidateNodeIDs := ["m", "n"], checksum := {}, replicaCount := 2 }]

/-- The first node fails, and the second one serves the chunk. -/
theorem download_fallsBack_fourBytes : ¬Unaddressable "f" ∧
    (servingAll [1, 2, 3, 4]).served 0 "k" "m" = none ∧ ∀ others, ∃ length sent,
      (fallbackDownload (servingAll [1, 2, 3, 4]) (onePlan 4) others "f").1 =
        .data length sent := by
  have haddress : ¬Unaddressable "f" := by decide +kernel
  refine ⟨haddress, by decide +kernel, fun others => ?_⟩
  refine (download_fallsBack_iff (by decide) haddress).2.1.mpr ?_
  decide +kernel

/-- The node serves more bytes than the plan has, and none of them are sent. -/
theorem download_cutOff :
    (servingAll [1, 2, 3, 4]).served 0 "k" "n" = some [1, 2, 3, 4] ∧
      ∀ others, (fallbackDownload (servingAll [1, 2, 3, 4]) (onePlan 2) others "f").1 =
        .data (some 2) [[]] := by
  refine ⟨by decide +kernel, fun others => ?_⟩
  exact (@fallbackDownload_cases (servingAll [1, 2, 3, 4]) (onePlan 2) others
    "f" (by decide) (by decide +kernel)).2

end AstraStorage.Proofs
