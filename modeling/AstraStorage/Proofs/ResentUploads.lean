import AstraStorage.Proofs.GatewayRoundTrip

/-!
# Uploads that are sent again

One upstream call of an upload fails. Unless nothing was created by then, the inode is in the way
of the same upload.
-/

set_option mvcgen.warning false

namespace AstraStorage.Proofs
open Lib Store Service Gateway

section Interruption

variable {σ α : Type} (index : Nat) (effect : Bool)

def interrupt (call : StateM σ (Except UpstreamError α)) :
    StateM (σ × Nat) (Except UpstreamError α) := fun (s, n) =>
  if n = index then (.error (.text "unavailable"), (if effect then (call s).2 else s, n + 1))
  else ((call s).1, ((call s).2, n + 1))

def interruptedClient (client : UpstreamClient (StateM σ)) :
    UpstreamClient (StateM (σ × Nat)) where
  createFile req := interrupt index effect (client.createFile req)
  startUpload req := interrupt index effect (client.startUpload req)
  allocateUploadTargets req := interrupt index effect (client.allocateUploadTargets req)
  commitChunk req := interrupt index effect (client.commitChunk req)
  completeUpload req := interrupt index effect (client.completeUpload req)
  verifyUpload req := interrupt index effect (client.verifyUpload req)
  buildDownloadPlan fileID := interrupt index effect (client.buildDownloadPlan fileID)
  getNode nodeID := interrupt index effect (client.getNode nodeID)
  putChunk address k f checksum data :=
    interrupt index effect (client.putChunk address k f checksum data)
  replicateChunk address k targets :=
    interrupt index effect (client.replicateChunk address k targets)
  getChunk nodeID address k := interrupt index effect (client.getChunk nodeID address k)

def Breaks (P Q : σ → Nat → Prop) (E : σ → Prop) (x : HandlerM (StateM σ) α)
    (y : HandlerM (StateM (σ × Nat)) α) : Prop :=
  ∀ s n a t, P s n → x.run s = (.ok a, t) →
    (∃ n', y.run (s, n) = (.ok a, (t, n')) ∧ Q t n') ∨
      ∃ response t' n', y.run (s, n) = (.error response, (t', n')) ∧ E t'

variable {index effect} {P Q : σ → Nat → Prop} {E H : σ → Prop} {x : HandlerM (StateM σ) α}
  {y : HandlerM (StateM (σ × Nat)) α}

lemma Breaks.bind (hx : Breaks P Q E x y) (hf : ∀ a, Breaks Q R E (f a) (g a)) :
    Breaks P R E (x >>= f) (y >>= g) := by
  intro s n b t hP h
  rcases hxs : x.run s with ⟨r, u⟩
  cases r with
  | error response =>
    rw [run_bind_error f hxs] at h
    cases h
  | ok a =>
    rw [run_bind_ok f hxs] at h
    rcases hx s n a u hP hxs with ⟨n', hy, hQ⟩ | ⟨response, t', n', hy, hE⟩
    · rw [run_bind_ok g hy]
      exact hf a u n' b t hQ h
    · exact .inr ⟨response, t', n', run_bind_error g hy, hE⟩

lemma breaks_pure (a : α) : Breaks P P E (pure a) (pure a) := by
  intro s n b t hP h
  cases h
  exact .inl ⟨n, rfl, hP⟩

lemma breaks_writeError : Breaks P Q E (writeError status code message) y := by
  intro s n a t hP h
  cases h

lemma breaks_refuse [Decidable c] :
    Breaks P P E (refuse c status code message) (refuse c status code message) := by
  unfold refuse
  split_ifs
  · exact breaks_writeError
  · exact breaks_pure ()

section Interrupted

variable {call : StateM σ (Except UpstreamError α)} {s t : σ} {a : α} {n : Nat}
  (hcall : call s = (.ok a, t))
include hcall

lemma run_interrupt_hit : (upstream code (interrupt n effect call)).run (s, n) =
    (.error (.error 502 code (.text "unavailable")), (if effect then t else s, n + 1)) := by
  apply run_upstream_error
  rw [interrupt, if_pos rfl, hcall]

lemma run_interrupt_pass (hn : n ≠ index) :
    (upstream code (interrupt index effect call)).run (s, n) = (.ok a, (t, n + 1)) := by
  apply run_upstream_ok
  rw [interrupt, if_neg hn, hcall]

end Interrupted

lemma breaks_upstream {call : StateM σ (Except UpstreamError α)}
    (hgo : ∀ s n a t, P s n → call s = (.ok a, t) → n ≠ index → Q t (n + 1))
    (hstop : ∀ s a t, P s index → call s = (.ok a, t) → E (if effect then t else s)) :
    Breaks P Q E (upstream code call) (upstream code (interrupt index effect call)) := by
  intro s n a t hP h
  have hcall : call s = (.ok a, t) := by
    rcases hcall : call s with ⟨reply, u⟩
    cases reply with
    | error err =>
      rw [run_upstream_error hcall] at h
      cases h
    | ok b =>
      rw [run_upstream_ok hcall] at h
      cases h
      rfl
  by_cases hn : n = index
  · subst hn
    exact .inr ⟨_, _, _, run_interrupt_hit hcall, hstop s a t hP hcall⟩
  · exact .inl ⟨n + 1, run_interrupt_pass hcall hn, hgo s n a t hP hcall hn⟩

def Keeps (H : σ → Prop) (call : StateM σ (Except UpstreamError α)) : Prop :=
  ∀ s a t, H s → call s = (.ok a, t) → H t

structure KeepsAll (H : σ → Prop) (client : UpstreamClient (StateM σ)) : Prop where
  startUpload : ∀ req, Keeps H (client.startUpload req)
  allocateUploadTargets : ∀ req, Keeps H (client.allocateUploadTargets req)
  commitChunk : ∀ req, Keeps H (client.commitChunk req)
  completeUpload : ∀ req, Keeps H (client.completeUpload req)
  verifyUpload : ∀ req, Keeps H (client.verifyUpload req)
  putChunk : ∀ address k f checksum data, Keeps H (client.putChunk address k f checksum data)
  replicateChunk : ∀ address k targets, Keeps H (client.replicateChunk address k targets)

section Rest

variable (hE : ∀ s, H s → index ≠ 0 → E s)
include hE

lemma Keeps.breaks {call : StateM σ (Except UpstreamError α)} (h : Keeps H call) :
    Breaks (fun s _ => H s ∧ index ≠ 0) (fun s _ => H s ∧ index ≠ 0) E (upstream code call)
      (upstream code (interrupt index effect call)) := by
  refine breaks_upstream (fun s n a t hP hcall _ => ⟨h s a t hP.1 hcall, hP.2⟩) ?_
  intro s a t hP hcall
  split_ifs
  · exact hE t (h s a t hP.1 hcall) hP.2
  · exact hE s hP.1 hP.2

variable {client : UpstreamClient (StateM σ)} (h : KeepsAll H client) (sha256 : Bytes → String)
  (now : Time) (req : UploadRequest)
include h

lemma breaks_uploadChunk (i offset : Nat) :
    Breaks (fun s _ => H s ∧ index ≠ 0) (fun s _ => H s ∧ index ≠ 0) E
      (uploadChunk sha256 now client req i offset)
      (uploadChunk sha256 now (interruptedClient index effect client) req i offset) := by
  refine ((h.allocateUploadTargets _).breaks hE).bind fun targets => ?_
  cases targets with
  | nil => exact breaks_writeError
  | cons target replicaTargets =>
    refine ((h.putChunk _ _ _ _ _).breaks hE).bind fun _ => ?_
    split_ifs
    · refine (breaks_pure []).bind fun results => ?_
      exact ((h.commitChunk _).breaks hE).bind fun _ => breaks_pure _
    · refine ((h.replicateChunk _ _ _).breaks hE).bind fun results => ?_
      exact ((h.commitChunk _).breaks hE).bind fun _ => breaks_pure _

lemma breaks_uploadChunks (rounds i offset : Nat) :
    Breaks (fun s _ => H s ∧ index ≠ 0) (fun s _ => H s ∧ index ≠ 0) E
      (uploadChunks sha256 now client req rounds i offset)
      (uploadChunks sha256 now (interruptedClient index effect client) req rounds i offset) := by
  induction rounds generalizing i offset with
  | zero => exact breaks_pure []
  | succ rounds ih =>
    unfold uploadChunks
    split_ifs
    · refine (breaks_uploadChunk hE h sha256 now req i offset).bind fun uploaded => ?_
      exact (ih (i + 1) _).bind fun rest => breaks_pure _
    · exact breaks_pure []

lemma breaks_handleUploads
    (hcreate : Breaks P (fun s _ => H s ∧ index ≠ 0) E
      (upstream "mds_error" (client.createFile (gatewayCreate now (req.withDefaults now))))
      (upstream "mds_error" (interrupt index effect
        (client.createFile (gatewayCreate now (req.withDefaults now)))))) :
    Breaks P (fun s _ => H s ∧ index ≠ 0) E (handleUploads sha256 now client req)
      (handleUploads sha256 now (interruptedClient index effect client) req) := by
  refine breaks_refuse.bind fun _ => breaks_refuse.bind fun _ => ?_
  refine hcreate.bind fun _ => ((h.startUpload _).breaks hE).bind fun _ => ?_
  refine (breaks_uploadChunks hE h sha256 now _ _ 0 0).bind fun uploaded => ?_
  refine ((h.completeUpload _).breaks hE).bind fun _ => ?_
  exact ((h.verifyUpload _).breaks hE).bind fun _ => breaks_pure _

end Rest

end Interruption

section Resent

variable {δ α : Type} {s : MemoryState} {d : δ} {i : InodeID} {now clock : Time}

def HasInode (i : InodeID) (c : MemoryState × δ) : Prop :=
  WellFormed (catalog c.1) ∧ ((catalog c.1).inode i).isSome

lemma yields_of_callMDS (h : callMDS x c = (.ok a, c')) : Yields x c.1 a c'.1 := by
  unfold callMDS at h
  cases hx : x c.1 with
  | ok b t =>
    simp only [hx] at h
    cases h
    exact hx
  | error e t =>
    simp only [hx] at h
    cases h

lemma keeps_uploadCall (hx : c.run clock = (fun _ => ()) <$> x) (hu : sessionNamed c = some u) :
    Keeps (HasInode (δ := δ) i) (callMDS x) := by
  rintro r a r' ⟨hw, hi⟩ h
  have hrun : Yields (c.run clock) r.1 () r'.1 := by
    rw [hx]
    exact yields_map.mpr ⟨a, yields_of_callMDS h, rfl⟩
  refine ⟨hw.step (step_of_yields hrun), ?_⟩
  cases run_uploadEffect hw hu hrun with
  | start _ ht | commit _ ht | complete _ ht | verify _ ht | fail _ ht | retry _ ht =>
    rw [ht]
    exact hi

lemma keeps_datanode (x : δ → Except UpstreamError α × δ) :
    Keeps (HasInode i) (callDatanode x) := by
  rintro c a c' hc h
  have hsame : c'.1 = c.1 := (congrArg (fun p => p.2.1) h).symm
  rw [HasInode, hsame]
  exact hc

open Std.Do in
lemma keepsAll_client (datanodes : Datanodes δ) :
    KeepsAll (HasInode i) (datanodes.client clock) where
  startUpload req := keeps_uploadCall (c := .startUpload req) rfl rfl
  allocateUploadTargets req := by
    rintro c a c' hc h
    have hsame : c'.1 = c.1 := by
      have hreads : ⦃fun t => ⌜t = c.1⌝⦄ allocateUploadTargets req ⦃⇓? _ t => ⌜t = c.1⌝⦄ := by
        mvcgen [allocateUploadTargets, validateAllocateUploadTargetsRequest, getFile, listNodes]
          <;> grind
      exact (triple_iff.mp hreads c.1 rfl).1 a c'.1 (yields_of_callMDS h)
    rw [HasInode, hsame]
    exact hc
  commitChunk req := keeps_uploadCall (c := .commitChunk req) rfl rfl
  completeUpload req := keeps_uploadCall (c := .completeUpload req) rfl rfl
  verifyUpload req := keeps_uploadCall (c := .verifyUpload req) rfl rfl
  putChunk _ _ _ _ _ := keeps_datanode _
  replicateChunk _ _ _ := keeps_datanode _

lemma createFile_of_handleUploads {σ : Type} {client : UpstreamClient (StateM σ)}
    {sha256 : Bytes → String} {request : UploadRequest} {response : Response} {c c' : σ}
    (h : (handleUploads sha256 now client request).run c = (.ok response, c')) :
    ∃ a u, client.createFile (gatewayCreate now (request.withDefaults now)) c = (.ok a, u) := by
  have hkeeps {α : Type} {call : StateM σ (Except UpstreamError α)} :
      Keeps (fun _ => ∃ a u, client.createFile (gatewayCreate now (request.withDefaults now)) c =
        (.ok a, u)) call := fun _ _ _ h _ => h
  have hbreaks : Breaks (fun r _ => r = c) _ _ (handleUploads sha256 now client request)
      (handleUploads sha256 now (interruptedClient 1 false client) request) :=
    breaks_handleUploads (fun _ h _ => h) ⟨fun _ => hkeeps, fun _ => hkeeps, fun _ => hkeeps,
      fun _ => hkeeps, fun _ => hkeeps, fun _ _ _ _ _ => hkeeps, fun _ _ _ => hkeeps⟩ sha256 now
      request (breaks_upstream (fun r n a t hr h _ => ⟨⟨a, t, hr ▸ h⟩, one_ne_zero⟩)
        fun r a t hr h => ⟨a, t, hr ▸ h⟩)
  rcases hbreaks c 0 response c' rfl h with ⟨-, -, h, -⟩ | ⟨-, -, -, -, h⟩
  · exact h
  · exact h

lemma hasInode_created {datanodes : Datanodes δ} {req : CreateFileRequest} {a : FileMetadata}
    {c : MemoryState × δ} (hw : WellFormed (catalog s))
    (h : (datanodes.client clock).createFile req (s, d) = (.ok a, c)) :
    HasInode req.inodeID c := by
  have hcreate : Yields (Service.createFile clock req) s a c.1 := yields_of_callMDS (c := (s, d)) h
  have hcall : Yields ((Call.createFile req).run clock) s () c.1 := yields_map.mpr ⟨a, hcreate, rfl⟩
  refine ⟨hw.step (step_of_yields hcall), ?_⟩
  obtain ⟨_, x, -, -, -, -, -, -, ht⟩ := createFile_adds hcreate
  rw [ht]
  simp

/-- The answer is 201. -/
def accepted : Except Response Response → Bool
  | .ok (.created _) => true
  | _ => false

/-- After a failed call the same upload is accepted exactly if the call is the first one and had no
effect. -/
theorem resentUpload_iff {datanodes : Datanodes δ} {request : UploadRequest}
    {history : List (MemoryState × Action)} {sha256 : Bytes → String} {now' clock' : Time}
    {index : Nat} {effect : Bool} (hrun : ServiceRun history s) (hinode : request.inodeID ≠ "")
    (hsucceeds : accepted
      ((handleUploads sha256 now (datanodes.client clock) request).run (s, d)).1)
    (hsucceeds' : accepted
      ((handleUploads sha256 now' (datanodes.client clock') request).run (s, d)).1)
    {first : Except Response Response × (MemoryState × δ) × Nat}
    (hfirst : (handleUploads sha256 now (interruptedClient index effect (datanodes.client clock))
      request).run ((s, d), 0) = first) (hfailed : ¬accepted first.1) :
    accepted ((handleUploads sha256 now' (datanodes.client clock') request).run first.2.1).1 ↔
      index = 0 ∧ effect = false := by
  have hw : WellFormed (catalog s) := wellFormed_of_run hrun
  have hid (now : Time) :
      (gatewayCreate now (request.withDefaults now)).inodeID = request.inodeID := if_neg hinode
  have hbreaks : Breaks (fun r n => r = (s, d) ∧ n = 0)
      (fun c _ => HasInode request.inodeID c ∧ index ≠ 0)
      (fun c => c = (s, d) ∧ index = 0 ∧ effect = false ∨
        HasInode request.inodeID c ∧ ¬(index = 0 ∧ effect = false))
      (handleUploads sha256 now (datanodes.client clock) request)
      (handleUploads sha256 now (interruptedClient index effect (datanodes.client clock))
        request) := by
    refine breaks_handleUploads (fun c hc hne => .inr ⟨hc, fun h => hne h.1⟩)
      (keepsAll_client datanodes) sha256 now request (breaks_upstream ?_ ?_)
    · rintro r m a t ⟨rfl, rfl⟩ hcreate hne
      exact ⟨hid now ▸ hasInode_created hw hcreate, Ne.symm hne⟩
    · rintro r a t ⟨rfl, hindex⟩ hcreate
      cases effect with
      | false => exact .inl ⟨rfl, hindex, rfl⟩
      | true => exact .inr ⟨hid now ▸ hasInode_created hw hcreate, fun h => nomatch h.2⟩
  rcases hplain : (handleUploads sha256 now (datanodes.client clock) request).run (s, d) with
    ⟨_ | response, t⟩
  all_goals rw [hplain] at hsucceeds
  · cases hsucceeds
  rcases hbreaks (s, d) 0 response t ⟨rfl, rfl⟩ hplain with
    ⟨m, hsame, -⟩ | ⟨response, c, m, hstop, hc⟩
  · rw [← hfirst, hsame] at hfailed
    exact absurd hsucceeds hfailed
  · obtain rfl : _ = first := hstop.symm.trans hfirst
    rcases hc with ⟨rfl, hwithout⟩ | ⟨hhas, hwith⟩
    · exact iff_of_true hsucceeds' hwithout
    · refine iff_of_false ?_ hwith
      rcases hagain : (handleUploads sha256 now' (datanodes.client clock') request).run c with
        ⟨_ | response, t'⟩
      · exact Bool.false_ne_true
      intro _
      obtain ⟨a, u, hagain⟩ := createFile_of_handleUploads hagain
      obtain ⟨_, _, ⟨-, -, hnone⟩, -⟩ := createFile_adds (yields_of_callMDS hagain)
      rw [hid now'] at hnone
      rw [HasInode, hnone] at hhas
      cases hhas.2

end Resent

def namedUpload : UploadRequest :=
  { inodeID := "i", fileID := "f", sessionID := "u", chunkID := "k", name := "notes"
    content := [1, 2, 3] }

theorem resentUpload_accepted :
    let first := (handleUploads lengthDigest 1
      (interruptedClient 0 false (chunkMaps.datanodes.client 1)) namedUpload).run
        ((twoNodes, fun _ _ => none), 0)
    ¬accepted first.1 ∧
      accepted ((handleUploads lengthDigest 2 (chunkMaps.datanodes.client 2) namedUpload).run
        first.2.1).1 := by
  intro first
  have hfailed : ¬accepted first.1 := by decide +kernel
  exact ⟨hfailed, (resentUpload_iff (serviceRun_play 1 _) (by decide) (by decide +kernel)
    (by decide +kernel) rfl hfailed).mpr ⟨rfl, rfl⟩⟩

/-- The file is created and the upload does not start; then the inode is in the way. -/
theorem resentUpload_refused :
    let first := (handleUploads lengthDigest 1
      (interruptedClient 1 false (chunkMaps.datanodes.client 1)) namedUpload).run
        ((twoNodes, fun _ _ => none), 0)
    accepted ((handleUploads lengthDigest 1 (chunkMaps.datanodes.client 1) namedUpload).run
        (twoNodes, fun _ _ => none)).1 ∧
      ¬accepted ((handleUploads lengthDigest 2 (chunkMaps.datanodes.client 2) namedUpload).run
        first.2.1).1 := by
  decide +kernel

end AstraStorage.Proofs
