import AstraStorage.Model.Gateway
import AstraStorage.Proofs.Chunks
import AstraStorage.Proofs.PlanWrites
import Mathlib.Algebra.Ring.Nat

/-!
# What a download sends

The gateway sends for each chunk the bytes of the first candidate that answers, whatever they are.
Only the `Content-Length` stands between them and a complete response.
-/

namespace AstraStorage.Proofs
open Lib Store Service Gateway List Option

variable {response : Response} {α β : Type} {plan : DownloadPlan} {fileID : FileID}

section Cluster

variable {σ : Type}

lemma cluster_bind (x : StateM σ α) (f : α → StateM σ β) (c : σ) :
    (x >>= f) c = f (x c).1 (x c).2 := rfl

lemma run_bind_ok (f : α → HandlerM (StateM σ) β) (h : x.run c = (.ok a, c')) :
    (x >>= f).run c = (f a).run c' := by
  rw [ExceptT.run_bind, cluster_bind, h]

lemma run_bind_error (f : α → HandlerM (StateM σ) β) (h : x.run c = (.error response, c')) :
    (x >>= f).run c = (.error response, c') := by
  rw [ExceptT.run_bind, cluster_bind, h]
  rfl

lemma run_upstream_ok {x : StateM σ (Except UpstreamError α)} (h : x c = (.ok a, c')) :
    (upstream code x).run c = (.ok a, c') := by
  change (x >>= _) c = _
  rw [cluster_bind, h]
  rfl

lemma run_upstream_error {x : StateM σ (Except UpstreamError α)} (h : x c = (.error err, c')) :
    (upstream code x).run c = (.error (.error 502 code err), c') := by
  change (x >>= _) c = _
  rw [cluster_bind, h]
  rfl

lemma run_refuse [Decidable p] (h : ¬p) :
    (refuse p status code message : HandlerM (StateM σ) Unit).run c = (.ok (), c) := by
  unfold refuse
  rw [if_neg h]
  rfl

lemma run_refuse_error [Decidable p] (h : p) :
    (refuse p status code message : HandlerM (StateM σ) Unit).run c =
      (.error (.error status code (.text message)), c) := by
  unfold refuse
  rw [if_pos h]
  rfl

lemma respond_ok {x : HandlerM (StateM σ) Response} (h : x.run c = (.ok response, c')) :
    x.respond c = (response, c') := by
  unfold HandlerM.respond
  rw [cluster_bind, h]
  rfl

lemma respond_error {x : HandlerM (StateM σ) Response} (h : x.run c = (.error response, c')) :
    x.respond c = (response, c') := by
  unfold HandlerM.respond
  rw [cluster_bind, h]
  rfl

end Cluster

section Answers

variable {δ : Type} {datanodes : Datanodes δ} {s : MemoryState} {d : δ} {now : Time}

def ReadOnly (datanodes : Datanodes δ) : Prop :=
  ∀ nodeID address chunkID d, (datanodes.getChunk nodeID address chunkID d).2 = d

def answerOf (datanodes : Datanodes δ) (s : MemoryState) (d : δ) (chunkID : ChunkID)
    (nodeID : NodeID) : Option Bytes :=
  match s.nodes.lookup nodeID with
  | none => none
  | some node =>
    if trimSpace node.address = "" then none
    else (datanodes.getChunk nodeID node.address chunkID d).1.toOption

def firstAnswer (datanodes : Datanodes δ) (s : MemoryState) (d : δ) (chunk : DownloadChunkPlan) :
    Option Bytes :=
  (orderedCandidateNodeIDs chunk).findSome? (answerOf datanodes s d chunk.chunkID)

lemma callMDS_of_yields (h : Yields x s a t) : callMDS x (s, d) = (.ok a, (t, d)) := by
  have hs : x s = .ok a t := h
  simp only [callMDS, hs]

lemma getNode_none (h : s.nodes.lookup nodeID = none) :
    ∃ err, callMDS (Store.getNode nodeID) (s, d) = (.error err, (s, d)) := by
  refine ⟨.mds (.error ⟨.notFound, "node", []⟩), ?_⟩
  have hget : Store.getNode nodeID s = expect (s.nodes.lookup nodeID) .notFound "node" [] s := rfl
  rw [callMDS, hget, h]
  rfl

section

variable (hread : ReadOnly datanodes)
include hread

lemma callDatanode_getChunk (nodeID : NodeID) (address : String) (chunkID : ChunkID) :
    callDatanode (datanodes.getChunk nodeID address chunkID) (s, d) =
      ((datanodes.getChunk nodeID address chunkID d).1, (s, d)) := by
  have hd := hread nodeID address chunkID d
  unfold callDatanode
  dsimp only
  rw [hd]

lemma tryCandidates_eq (chunkID : ChunkID) (lastErr : Option UpstreamError) (nodes : List NodeID) :
    ∃ r, tryCandidates (datanodes.client now) chunkID lastErr nodes (s, d) = (r, (s, d)) ∧
      r.toOption = nodes.findSome? (answerOf datanodes s d chunkID) := by
  induction nodes generalizing lastErr with
  | nil => exact ⟨_, rfl, rfl⟩
  | cons nodeID rest ih =>
    rw [tryCandidates, cluster_bind, findSome?_cons, answerOf]
    rw [show (datanodes.client now).getNode nodeID = callMDS (Store.getNode nodeID) from rfl]
    cases hnode : s.nodes.lookup nodeID with
    | none =>
      obtain ⟨err, herr⟩ : ∃ err, callMDS (Store.getNode nodeID) (s, d) = (.error err, (s, d)) :=
        getNode_none hnode
      rw [herr]
      exact ih (some err)
    | some node =>
      have hget : Yields (Store.getNode nodeID) s node s := yields_getNode.mpr ⟨hnode, rfl⟩
      rw [callMDS_of_yields hget]
      dsimp only
      by_cases haddress : trimSpace node.address = ""
      · rw [if_pos haddress, if_pos haddress]
        exact ih _
      · rw [if_neg haddress, if_neg haddress, cluster_bind]
        rw [show (datanodes.client now).getChunk nodeID node.address chunkID =
          callDatanode (datanodes.getChunk nodeID node.address chunkID) from rfl,
          callDatanode_getChunk hread]
        cases (datanodes.getChunk nodeID node.address chunkID d).1 with
        | error err => exact ih (some err)
        | ok data => exact ⟨_, rfl, rfl⟩

lemma fetchChunk_eq (chunk : DownloadChunkPlan) :
    ∃ r, fetchChunkFromCandidates (datanodes.client now) chunk (s, d) = (r, (s, d)) ∧
      r.toOption = firstAnswer datanodes s d chunk := by
  unfold fetchChunkFromCandidates firstAnswer
  cases orderedCandidateNodeIDs chunk with
  | nil => exact ⟨_, rfl, rfl⟩
  | cons nodeID rest => exact tryCandidates_eq hread chunk.chunkID none (nodeID :: rest)

lemma fetchChunks_cases (chunks : List DownloadChunkPlan) :
    (∃ datas, chunks.mapM (firstAnswer datanodes s d) = some datas ∧
      (chunks.mapM fun chunk => upstream "datanode_error"
        (fetchChunkFromCandidates (datanodes.client now) chunk)).run (s, d) =
          (.ok datas, (s, d))) ∨
    (chunks.mapM (firstAnswer datanodes s d) = none ∧
      ∃ err, (chunks.mapM fun chunk => upstream "datanode_error"
        (fetchChunkFromCandidates (datanodes.client now) chunk)).run (s, d) =
          (.error (.error 502 "datanode_error" err), (s, d))) := by
  induction chunks with
  | nil => exact .inl ⟨[], rfl, rfl⟩
  | cons chunk chunks ih =>
    obtain ⟨r, hr, hanswer⟩ : ∃ r, fetchChunkFromCandidates (datanodes.client now) chunk (s, d) =
        (r, (s, d)) ∧ _ := fetchChunk_eq hread chunk
    rw [mapM_cons, mapM_cons, ← hanswer]
    cases r with
    | error err => exact .inr ⟨rfl, err, run_bind_error _ (run_upstream_error hr)⟩
    | ok data =>
      rw [run_bind_ok _ (run_upstream_ok hr)]
      rcases ih with ⟨datas, hanswers, hrun⟩ | ⟨hnone, err, hrun⟩
      · rw [run_bind_ok _ hrun, hanswers]
        exact .inl ⟨data :: datas, rfl, rfl⟩
      · rw [run_bind_error _ hrun, hnone]
        exact .inr ⟨rfl, err, rfl⟩

end

def downloadResponse (datanodes : Datanodes δ) (now : Time) (s : MemoryState) (d : δ)
    (fileID : FileID) : Response :=
  ((handleDownloads (datanodes.client now) fileID).respond (s, d)).1

/-- No request for the file gets to the download handler's work. -/
abbrev Unaddressable (fileID : FileID) : Prop := trimSpace fileID = "" ∨ '/' ∈ fileID.toList

lemma download_unaddressable (h : Unaddressable fileID) :
    downloadResponse datanodes now s d fileID =
      .error 404 "not_found" (.text "download endpoint not found") := by
  have hrun : (handleDownloads (datanodes.client now) fileID).run (s, d) =
      (.error (.error 404 "not_found" (.text "download endpoint not found")), (s, d)) :=
    run_bind_error _ (run_refuse_error h)
  exact congrArg Prod.fst (respond_error hrun)

def contentLength (plan : DownloadPlan) : Option Int64 :=
  if plan.size > 0 then some plan.size else none

lemma download_cases (hread : ReadOnly datanodes) (haddress : ¬Unaddressable fileID)
    (hplan : Yields (Service.buildDownloadPlan fileID) s plan s) :
    (∃ datas, plan.chunks.mapM (firstAnswer datanodes s d) = some datas ∧
      downloadResponse datanodes now s d fileID =
        .data (contentLength plan) (writeChunks (contentLength plan) 0 datas)) ∨
    (plan.chunks.mapM (firstAnswer datanodes s d) = none ∧
      ∃ err, downloadResponse datanodes now s d fileID = .error 502 "datanode_error" err) := by
  have hf : fileID ≠ "" := by
    rintro rfl
    exact haddress (.inl (by decide))
  have hchunks : plan.chunks ≠ [] := by
    obtain ⟨file, -, hne, rfl, -⟩ := (yields_buildDownloadPlan hf).mp hplan
    simpa [planOfChunks] using hne
  have hhandler : (handleDownloads (datanodes.client now) fileID).run (s, d) =
      ((plan.chunks.mapM fun chunk => upstream "datanode_error"
        (fetchChunkFromCandidates (datanodes.client now) chunk)) >>= fun chunks =>
          pure (Response.data (contentLength plan)
            (writeChunks (contentLength plan) 0 chunks)) : HandlerM (ClusterM δ) Response).run
        (s, d) := by
    have hcall : (datanodes.client now).buildDownloadPlan fileID (s, d) = (.ok plan, (s, d)) :=
      callMDS_of_yields hplan
    unfold handleDownloads
    rw [run_bind_ok _ (run_refuse haddress), run_bind_ok _ (run_upstream_ok hcall),
      run_bind_ok _ (run_refuse hchunks)]
    rfl
  rcases fetchChunks_cases hread plan.chunks with ⟨datas, hanswers, hrun⟩ | ⟨hnone, err, hrun⟩
  · rw [run_bind_ok _ hrun] at hhandler
    exact .inl ⟨datas, hanswers, congrArg Prod.fst (respond_ok hhandler)⟩
  · rw [run_bind_error _ hrun] at hhandler
    exact .inr ⟨hnone, err, congrArg Prod.fst (respond_error hhandler)⟩

end Answers

def total (pieces : List Bytes) : Nat := (pieces.map List.length).sum

@[simp] lemma total_nil : total [] = 0 := rfl

@[simp] lemma total_cons (data : Bytes) (pieces : List Bytes) :
    total (data :: pieces) = data.length + total pieces := by
  simp [total]

lemma total_map_nil (pieces : List Bytes) : total (pieces.map fun _ => []) = 0 := by
  induction pieces with
  | nil => rfl
  | cons data pieces ih => simpa using ih

def CompleteBody (contentLength : Option Int64) (sent : List Bytes) : Prop :=
  ∀ length ∈ contentLength, (total sent : Int) = length.toInt

def ChunkIntact (sha256 : Bytes → String) (chunk : DownloadChunkPlan) (data : Bytes) : Prop :=
  (data.length : Int) = chunk.size.toInt ∧
    (chunk.checksum.algorithm = "sha256" → sha256 data = chunk.checksum.value)

def IntactUpTo (sha256 : Bytes → String) (chunks : List DownloadChunkPlan) (datas : List Bytes)
    (n : Nat) : Prop :=
  List.Forall₂ (ChunkIntact sha256) (chunks.take n) (datas.take n) ∧
    ∀ chunk ∈ chunks.drop n, ChunkIntact sha256 chunk []

lemma writeChunks_none (written : Nat) (datas : List Bytes) :
    writeChunks none written datas = datas := by
  induction datas generalizing written with
  | nil => rfl
  | cons data datas ih =>
    rw [writeChunks, any_none, if_neg Bool.false_ne_true, ih]

section Limited

variable {length : Int64} {written : Nat} {data : Bytes} {datas : List Bytes}

lemma writeChunks_stop (h : length.toInt < written + data.length) :
    writeChunks (some length) written (data :: datas) = (data :: datas).map fun _ => [] := by
  have hstop : (some length).any
      fun length => ((written + data.length : Nat) : Int) > length.toInt := by
    simpa using h
  rw [writeChunks, if_pos hstop]

lemma writeChunks_go (h : ¬length.toInt < written + data.length) :
    writeChunks (some length) written (data :: datas) =
      data :: writeChunks (some length) (written + data.length) datas := by
  have hgo : ¬((some length).any
      fun length => ((written + data.length : Nat) : Int) > length.toInt) = true := by
    simpa using h
  rw [writeChunks, if_neg hgo]

lemma writeChunks_all (h : ((written + total datas : Nat) : Int) ≤ length.toInt) :
    writeChunks (some length) written datas = datas := by
  induction datas generalizing written with
  | nil => rfl
  | cons data datas ih =>
    rw [total_cons] at h
    have hgo : ¬length.toInt < written + data.length := by omega
    rw [writeChunks_go hgo, ih (by omega)]

lemma complete_iff (hwritten : written ≤ length.toInt) :
    (written + total (writeChunks (some length) written datas) : Int) = length.toInt ↔
      ∃ n, (written + total (datas.take n) : Int) = length.toInt := by
  induction datas generalizing written with
  | nil => simp [writeChunks]
  | cons data datas ih =>
    by_cases hstop : length.toInt < written + data.length
    · rw [writeChunks_stop hstop, total_map_nil]
      constructor
      · intro h
        exact ⟨0, h⟩
      · rintro ⟨n, hn⟩
        cases n with
        | zero => exact hn
        | succ n =>
          rw [take_succ_cons, total_cons] at hn
          omega
    · have hnext : ((written + data.length : Nat) : Int) ≤ length.toInt := by omega
      have hrest := ih hnext
      rw [writeChunks_go hstop, total_cons]
      push_cast at hrest ⊢
      rw [← Int.add_assoc, hrest]
      constructor
      · rintro ⟨n, hn⟩
        refine ⟨n + 1, ?_⟩
        rw [take_succ_cons, total_cons]
        omega
      · rintro ⟨n, hn⟩
        cases n with
        | zero =>
          refine ⟨0, ?_⟩
          simp only [take_zero, total_nil] at hn ⊢
          omega
        | succ n =>
          refine ⟨n, ?_⟩
          rw [take_succ_cons, total_cons] at hn
          omega

variable {sha256 : Bytes → String} {chunks : List DownloadChunkPlan}

lemma forall₂_map_nil (h : chunks.length = datas.length) :
    List.Forall₂ (ChunkIntact sha256) chunks (datas.map fun _ => []) ↔
      ∀ chunk ∈ chunks, ChunkIntact sha256 chunk [] := by
  induction chunks generalizing datas with
  | nil =>
    cases datas with
    | nil => simp
    | cons data datas => cases h
  | cons chunk chunks ih =>
    cases datas with
    | nil => cases h
    | cons data datas =>
      rw [map_cons, forall₂_cons, ih (Nat.succ.inj h), forall_mem_cons]

lemma intact_iff (hwritten : written ≤ length.toInt) (hlength : chunks.length = datas.length) :
    ((written + total (writeChunks (some length) written datas) : Int) = length.toInt →
      List.Forall₂ (ChunkIntact sha256) chunks (writeChunks (some length) written datas)) ↔
    ∀ n, (written + total (datas.take n) : Int) = length.toInt →
      IntactUpTo sha256 chunks datas n := by
  induction datas generalizing written chunks with
  | nil =>
    obtain rfl := length_eq_zero_iff.mp hlength
    simp [writeChunks, IntactUpTo]
  | cons data datas ih =>
    obtain ⟨chunk, rest, rfl⟩ := exists_cons_of_length_eq_add_one hlength
    by_cases hstop : length.toInt < written + data.length
    · rw [writeChunks_stop hstop, total_map_nil, forall₂_map_nil hlength]
      constructor
      · intro h n hn
        cases n with
        | zero => exact ⟨.nil, h hn⟩
        | succ n =>
          rw [take_succ_cons, total_cons] at hn
          omega
      · intro h hfull
        exact (h 0 hfull).2
    · have hnext : ((written + data.length : Nat) : Int) ≤ length.toInt := by omega
      have hcomplete : _ = length.toInt ↔ ∃ n, (_ + total (datas.take n) : Int) = length.toInt :=
        complete_iff hnext
      have hrest := ih hnext (Nat.succ.inj hlength)
      rw [writeChunks_go hstop, total_cons]
      push_cast at hcomplete hrest ⊢
      rw [← Int.add_assoc, forall₂_cons]
      constructor
      · intro h n hn
        cases n with
        | zero =>
          simp only [take_zero, total_nil] at hn
          have hempty : data = [] := length_eq_zero_iff.mp (by omega)
          obtain ⟨hchunk, -⟩ := h (hcomplete.mpr ⟨0, by simp [hempty]; omega⟩)
          have hothers := hrest.mp (fun hfull => (h hfull).2) 0 (by simp [hempty]; omega)
          refine ⟨.nil, forall_mem_cons.mpr ⟨hempty ▸ hchunk, hothers.2⟩⟩
        | succ n =>
          rw [take_succ_cons, total_cons] at hn
          have hn' : (written : Int) + data.length + total (datas.take n) = length.toInt := by omega
          obtain ⟨hchunk, -⟩ := h (hcomplete.mpr ⟨n, hn'⟩)
          obtain ⟨hfirst, hothers⟩ := hrest.mp (fun hfull => (h hfull).2) n hn'
          exact ⟨.cons hchunk hfirst, hothers⟩
      · intro h hfull
        obtain ⟨n, hn⟩ := hcomplete.mp hfull
        have hafter : ∀ n, (written : Int) + data.length + total (datas.take n) = length.toInt →
            IntactUpTo sha256 (chunk :: rest) (data :: datas) (n + 1) := by
          intro n hn
          refine h (n + 1) ?_
          rw [take_succ_cons, total_cons]
          push_cast
          omega
        have hchunk := (forall₂_cons.mp (hafter n hn).1).1
        refine ⟨hchunk, hrest.mpr (fun n hn => ?_) hfull⟩
        obtain ⟨hfirst, hothers⟩ := hafter n hn
        exact ⟨(forall₂_cons.mp hfirst).2, hothers⟩

end Limited

def answering (replies : NodeID → String → ChunkID → Except UpstreamError Bytes) :
    Datanodes Unit where
  putChunk _ _ _ _ d := (.ok (), d)
  replicateChunk _ _ _ d := (.ok [], d)
  getChunk nodeID address chunkID d := (replies nodeID address chunkID, d)

lemma readOnly_answering (replies : NodeID → String → ChunkID → Except UpstreamError Bytes) :
    ReadOnly (answering replies) :=
  fun _ _ _ _ => rfl

def IntactIfComplete (sha256 : Bytes → String) (plan : DownloadPlan) (response : Response) : Prop :=
  ∀ length sent, response = .data length sent → CompleteBody length sent →
    List.Forall₂ (ChunkIntact sha256) plan.chunks sent ∧ (total sent : Int) = plan.size.toInt

def IntactAnswers (sha256 : Bytes → String) (plan : DownloadPlan) (datas : List Bytes) : Prop :=
  if 0 < plan.size then
    ∀ n, (total (datas.take n) : Int) = plan.size.toInt → IntactUpTo sha256 plan.chunks datas n
  else
    List.Forall₂ (ChunkIntact sha256) plan.chunks datas ∧ (total datas : Int) = plan.size.toInt

lemma intactIfComplete_data (hlength : plan.chunks.length = datas.length) :
    IntactIfComplete sha256 plan
        (.data (contentLength plan) (writeChunks (contentLength plan) 0 datas)) ↔
      IntactAnswers sha256 plan datas := by
  unfold IntactIfComplete IntactAnswers contentLength
  by_cases hsize : 0 < plan.size
  · have hpositive : ((0 : Nat) : Int) ≤ plan.size.toInt := (Int64.lt_iff_toInt_lt.mp hsize).le
    have hintact : (_ → List.Forall₂ (ChunkIntact sha256) plan.chunks _) ↔ _ :=
      intact_iff hpositive hlength
    have hzero : ((0 : Nat) : Int) = 0 := rfl
    simp only [hzero, Int.zero_add] at hintact
    rw [if_pos hsize, if_pos hsize, ← hintact]
    constructor
    · intro h hfull
      refine (h _ _ rfl ?_).1
      rintro length ⟨⟩
      exact hfull
    · rintro h _ _ ⟨⟩ hfull
      have htotal := hfull plan.size rfl
      exact ⟨h htotal, htotal⟩
  · rw [if_neg hsize, if_neg hsize]
    rw [writeChunks_none]
    constructor
    · intro h
      exact h none datas rfl fun _ hlength => by cases hlength
    · rintro h _ _ ⟨⟩ -
      exact h

lemma mapM_eq_some : xs.mapM f = some ys ↔ List.Forall₂ (fun x y => f x = some y) xs ys := by
  induction xs generalizing ys with
  | nil => simp [eq_comm]
  | cons x xs ih =>
    rw [mapM_cons]
    constructor
    · intro h
      obtain ⟨y, hy, h⟩ := bind_eq_some_iff.mp h
      obtain ⟨zs, hzs, h⟩ := bind_eq_some_iff.mp h
      cases h
      exact .cons hy (ih.mp hzs)
    · rintro (_ | ⟨hy, hzs⟩)
      rw [hy, bind_eq_bind, ih.mpr hzs]
      rfl

lemma mapM_eq_none {xs : List α} (h : xs.mapM f = none) : ∃ x ∈ xs, f x = none := by
  induction xs with
  | nil => cases h
  | cons x xs ih =>
    cases hx : f x with
    | none => exact ⟨x, mem_cons_self, hx⟩
    | some y =>
      rw [mapM_cons, hx] at h
      cases hxs : xs.mapM f with
      | none =>
        obtain ⟨z, hz, hnone⟩ := ih hxs
        exact ⟨z, mem_cons_of_mem x hz, hnone⟩
      | some zs =>
        rw [hxs] at h
        cases h

/-- A download of a file whose plan is `plan` is intact, if it is complete, just for these
answers of the datanodes. -/
theorem download_intact_iff {sha256 : Bytes → String} {s : MemoryState} {fileID : FileID}
    {plan : DownloadPlan} {now : Time}
    {replies : NodeID → String → ChunkID → Except UpstreamError Bytes}
    (hplan : Yields (Service.buildDownloadPlan fileID) s plan s) :
    IntactIfComplete sha256 plan (downloadResponse (answering replies) now s () fileID) ↔
      Unaddressable fileID ∨
      (∃ chunk ∈ plan.chunks, firstAnswer (answering replies) s () chunk = none) ∨
      ∃ datas, List.Forall₂ (fun chunk data => firstAnswer (answering replies) s () chunk = some data)
          plan.chunks datas ∧ IntactAnswers sha256 plan datas := by
  have hread := readOnly_answering replies
  by_cases haddress : Unaddressable fileID
  · rw [download_unaddressable haddress]
    refine iff_of_true ?_ (.inl haddress)
    rintro length sent ⟨⟩
  rcases download_cases hread haddress hplan with ⟨datas, hdatas, hresponse⟩ | ⟨hnone, err, hresponse⟩
  · have hanswers := mapM_eq_some.mp hdatas
    rw [hresponse, intactIfComplete_data hanswers.length_eq]
    constructor
    · intro h
      exact .inr (.inr ⟨datas, hanswers, h⟩)
    · rintro (h | ⟨chunk, hchunk, hnone⟩ | ⟨datas', hanswers', h⟩)
      · exact absurd h haddress
      · obtain ⟨data, -, hdata⟩ := forall₂_exists_left hanswers.flip hchunk
        have hsome : firstAnswer (answering replies) s () chunk = some data := hdata
        rw [hnone] at hsome
        cases hsome
      · obtain rfl := some.inj (hdatas.symm.trans (mapM_eq_some.mpr hanswers'))
        exact h
  · rw [hresponse]
    refine iff_of_true ?_ (.inr (.inl (mapM_eq_none hnone)))
    rintro length sent ⟨⟩

def storedOnNode : List Call :=
  uploadedFile ++ [.verifyUpload { sessionID := "u" },
    newNode "n" "a" 4]

def replyWith (data : Bytes) : NodeID → String → ChunkID → Except UpstreamError Bytes :=
  fun _ _ _ => .ok data

def storedPlan : Option DownloadPlan :=
  match Service.buildDownloadPlan "f" (play 1 storedOnNode).2 with
  | .ok plan _ => some plan
  | .error _ _ => none

lemma yields_storedPlan (h : storedPlan = some plan) :
    Yields (Service.buildDownloadPlan "f") (play 1 storedOnNode).2 plan (play 1 storedOnNode).2 := by
  unfold storedPlan at h
  split at h
  · rename_i plan' t hok
    cases h
    obtain ⟨_, _, _, _, rfl⟩ := (yields_buildDownloadPlan (by decide)).mp hok
    exact hok
  · cases h

def StoredPlan (plan : DownloadPlan) (chunk : DownloadChunkPlan) : Prop :=
  plan.size = 4 ∧ chunk.size = 4 ∧ chunk.checksum.algorithm = "sha256" ∧
    chunk.checksum.value = "00" ∧ orderedCandidateNodeIDs chunk = ["n"]

instance (plan : DownloadPlan) (chunk : DownloadChunkPlan) : Decidable (StoredPlan plan chunk) :=
  inferInstanceAs (Decidable (_ ∧ _))

lemma exists_storedPlan : ∃ plan chunk, storedPlan = some plan ∧ plan.chunks = [chunk] ∧
    StoredPlan plan chunk := by
  have hcheck : storedPlan.any (fun plan => plan.chunks.length = 1 ∧
      ∀ chunk ∈ plan.chunks, StoredPlan plan chunk) = true := by decide +kernel
  obtain ⟨plan, hplan, h⟩ := (any_eq_true _ _).mp hcheck
  obtain ⟨hlength, hstored⟩ := of_decide_eq_true h
  obtain ⟨chunk, hchunks⟩ := List.length_eq_one_iff.mp hlength
  refine ⟨plan, chunk, hplan, hchunks, hstored chunk ?_⟩
  rw [hchunks]
  exact mem_singleton_self chunk

lemma firstAnswer_stored (data : Bytes) (h : StoredPlan plan chunk) :
    firstAnswer (answering (replyWith data)) (play 1 storedOnNode).2 () chunk = some data := by
  have haddress : ((play 1 storedOnNode).2.nodes.lookup "n").any (trimSpace ·.address ≠ "") = true := by
    decide +kernel
  obtain ⟨node, hnode, hne⟩ := (any_eq_true _ _).mp haddress
  have hanswer : answerOf (answering (replyWith data)) (play 1 storedOnNode).2 () chunk.chunkID "n" =
      some data := by
    unfold answerOf
    rw [hnode]
    exact if_neg (of_decide_eq_true hne)
  rw [firstAnswer, h.2.2.2.2, findSome?_cons, hanswer]

/-- The node answers with bytes that hash to the checksum. -/
theorem download_ofStoredChunk : ∃ plan, storedPlan = some plan ∧
    ∀ sha256 : Bytes → String, sha256 [1, 2, 3, 4] = "00" → IntactIfComplete sha256 plan
      (downloadResponse (answering (replyWith [1, 2, 3, 4])) 1 (play 1 storedOnNode).2 () "f") := by
  obtain ⟨plan, chunk, hplan, hchunks, hstored⟩ := exists_storedPlan
  refine ⟨plan, hplan, fun sha256 hhash => ?_⟩
  refine (download_intact_iff (yields_storedPlan hplan)).mpr ?_
  have hintact : ChunkIntact sha256 chunk [1, 2, 3, 4] := by
    refine ⟨?_, fun _ => hhash.trans hstored.2.2.2.1.symm⟩
    rw [hstored.2.1]
    decide
  refine .inr (.inr ⟨[[1, 2, 3, 4]], ?_, ?_⟩)
  · rw [hchunks]
    exact .cons (firstAnswer_stored _ hstored) .nil
  · unfold IntactAnswers
    rw [hstored.1, hchunks]
    rintro (_ | n) hn
    · exact absurd hn (by decide)
    · simpa [IntactUpTo] using hintact

/-- The node answers with other bytes, and the gateway passes them on. -/
theorem download_ofCorruptedChunk :
    ∃ history plan, ServiceRun history (play 1 storedOnNode).2 ∧
      Yields (Service.buildDownloadPlan "f") (play 1 storedOnNode).2 plan (play 1 storedOnNode).2 ∧
      ∀ sha256 : Bytes → String, sha256 [1, 2, 3, 5] ≠ "00" → ¬IntactIfComplete sha256 plan
        (downloadResponse (answering (replyWith [1, 2, 3, 5])) 1 (play 1 storedOnNode).2 () "f") := by
  obtain ⟨plan, chunk, hplan, hchunks, hstored⟩ := exists_storedPlan
  have hyields := yields_storedPlan hplan
  refine ⟨_, plan, serviceRun_play 1 storedOnNode, hyields, fun sha256 hhash => ?_⟩
  have hanswers : plan.chunks.mapM
      (firstAnswer (answering (replyWith [1, 2, 3, 5])) (play 1 storedOnNode).2 ()) =
        some [[1, 2, 3, 5]] := by
    rw [hchunks, mapM_eq_some]
    exact .cons (firstAnswer_stored _ hstored) .nil
  have haddress : ¬Unaddressable "f" := by decide +kernel
  rcases download_cases (readOnly_answering _) haddress hyields with
    ⟨datas, hdatas, hresponse⟩ | ⟨hnone, -⟩
  · obtain rfl := mem_unique hanswers hdatas
    rw [hresponse, intactIfComplete_data (by rw [hchunks]; rfl), IntactAnswers, hstored.1, hchunks]
    intro h
    have hintact := (forall₂_cons.mp (h 1 (by decide)).1).1
    exact hhash ((hintact.2 hstored.2.2.1).trans hstored.2.2.2.1)
  · rw [hanswers] at hnone
    cases hnone

end AstraStorage.Proofs
