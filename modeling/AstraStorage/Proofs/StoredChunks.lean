import AstraStorage.Lib.Outcomes
import AstraStorage.Lib.Runs
import AstraStorage.Model.Datanode
import Mathlib.Data.Finset.Card

/-!
# What a datanode stores

A chunk is stored under its ID if the URL leaves the ID alone, and its two files belong together
as long as no put replaces one of them only.
-/

namespace AstraStorage.Proofs
open Lib Datanode List Option AList

section Paths

variable {xs s : Bytes}

def PlainID (s : Bytes) : Prop := byte '?' ∉ s ∧ byte '#' ∉ s ∧ byte '%' ∉ s

lemma percentDecode_plain_append (xs : Bytes) (h : byte '%' ∉ ys) :
    percentDecode (ys ++ xs) = (percentDecode xs).map (ys ++ ·) := by
  induction ys with
  | nil => simp
  | cons b ys ih =>
    rw [mem_cons, not_or] at h
    rw [cons_append, percentDecode.eq_def]
    dsimp only
    rw [if_neg (Ne.symm h.1), ih h.2]
    cases percentDecode xs <;> rfl

lemma percentDecode_length (h : percentDecode xs = some ys) :
    ys.length ≤ xs.length ∧ (ys.length = xs.length → byte '%' ∉ xs) := by
  fun_induction percentDecode xs generalizing ys with
  | case1 =>
    cases h
    exact ⟨le_rfl, fun _ => not_mem_nil⟩
  | case2 high low rest ih =>
    simp only [bind_eq_bind, bind_eq_some_iff] at h
    obtain ⟨_, -, _, -, zs, hzs, h⟩ := h
    cases h
    have hle := (ih hzs).1
    exact ⟨by simp; omega, fun hlength => by simp at hlength; omega⟩
  | case3 => cases h
  | case4 b rest hb ih =>
    simp only [bind_eq_bind, bind_eq_some_iff] at h
    obtain ⟨zs, hzs, h⟩ := h
    cases h
    obtain ⟨hle, hplain⟩ := ih hzs
    refine ⟨Nat.succ_le_succ hle, fun hlength => ?_⟩
    rw [mem_cons, not_or]
    exact ⟨Ne.symm hb, hplain (Nat.succ.inj hlength)⟩

lemma urlPath_chunkTarget (s : Bytes) : urlPath (chunkTarget s) =
    (percentDecode (s.takeWhile fun b => b ≠ byte '?' ∧ b ≠ byte '#')).map
      (ascii "/chunks/" ++ ·) := by
  rw [urlPath, chunkTarget, takeWhile_append_of_pos (all_eq_true.mp (by decide)),
    percentDecode_plain_append _ (by decide)]

lemma handleChunk_eq_some (h : handleChunk (ascii "/chunks/" ++ xs) = some ys) : ys = xs := by
  unfold handleChunk at h
  rw [if_pos (prefix_append _ _)] at h
  dsimp only at h
  split_ifs at h
  exact (some.inj h).symm

lemma decoded_eq_iff (h : percentDecode (s.takeWhile fun b => b ≠ byte '?' ∧ b ≠ byte '#') =
    some xs) : xs = s ↔ PlainID s := by
  have hcut : (s.takeWhile fun b => b ≠ byte '?' ∧ b ≠ byte '#') = s ↔
      byte '?' ∉ s ∧ byte '#' ∉ s := by
    rw [takeWhile_eq_self_iff]
    simp only [decide_eq_true_eq, ne_eq]
    exact ⟨fun h => ⟨fun hq => (h _ hq).1 rfl, fun hf => (h _ hf).2 rfl⟩,
      fun h b hb => ⟨fun hq => h.1 (hq ▸ hb), fun hf => h.2 (hf ▸ hb)⟩⟩
  constructor
  · rintro rfl
    obtain ⟨hle, hplain⟩ := percentDecode_length h
    have hpre := takeWhile_prefix (l := xs) fun b => decide (b ≠ byte '?' ∧ b ≠ byte '#')
    have hall := hpre.eq_of_length_le hle
    rw [hall] at hplain
    exact ⟨(hcut.mp hall).1, (hcut.mp hall).2, hplain rfl⟩
  · rintro ⟨hq, hf, hp⟩
    rw [hcut.mpr ⟨hq, hf⟩] at h
    have hdecode := percentDecode_plain_append [] hp
    rw [append_nil, h] at hdecode
    simpa [percentDecode] using hdecode

end Paths

def directoryAfter {α : Type} : EStateM.Result Stop (Directory × (Nat → Fate)) α → Directory
  | .ok _ t => t.1
  | .error _ t => t.1

def Renames (fates : Nat → Fate) : Prop :=
  (∀ i < 4, fates i = .succeeds) ∧ fates 4 ≠ .fails

def Torn (fates : Nat → Fate) : Prop :=
  fates 0 ≠ .last ∧ Renames (fun i => fates (i + 1)) ∧
    ¬(fates 5 ≠ .last ∧ fates 6 ≠ .last ∧ Renames fun i => fates (i + 7))

section Steps

variable {trimSpace : Bytes → Bytes} {sha256 : Bytes → String} {dir : Directory}
  {fates : Nat → Fate} {effect : Directory → Directory} {req : PutRequest} {chunkID : Bytes}

section Monad

variable {α : Type} {s : Directory × (Nat → Fate)} {a : α} {err : StoreError}

-- `simp` runs a computation on a directory by these; all its proofs below rest on them.
@[simp] lemma disk_get : (get : DiskM _) s = .ok s s := rfl

@[simp] lemma disk_pure : (pure a : DiskM α) s = .ok a s := rfl

@[simp] lemma disk_fail : (fail err : DiskM α) s = .error (.error err) s := rfl

@[simp] lemma settle_ok : settle (.ok a) = (pure a : DiskM α) := rfl

@[simp] lemma settle_error : settle (.error err) = (fail err : DiskM α) := rfl

end Monad

lemma renames_iff : Renames fates ↔ fates 0 = .succeeds ∧ fates 1 = .succeeds ∧
    fates 2 = .succeeds ∧ fates 3 = .succeeds ∧ fates 4 ≠ .fails := by
  simp only [Renames, Nat.forall_lt_succ_right, Nat.not_lt_zero]
  simp [and_assoc]

def fillAndRename (effect : Directory → Directory) : DiskM Unit := do
  step "write temp file"
  step "chmod temp file"
  step "close temp file"
  step "rename temp file" effect

lemma fillAndRename_cases (effect : Directory → Directory) (dir : Directory) (fates : Nat → Fate) :
    ((fates 0 = .succeeds ∧ fates 1 = .succeeds ∧ fates 2 = .succeeds) ∧
      (fates 3 = .succeeds ∧
        fillAndRename effect (dir, fates) = .ok () (effect dir, fun i => fates (i + 4)) ∨
      fates 3 = .last ∧
        ∃ rest, fillAndRename effect (dir, fates) = .error .crash (effect dir, rest))) ∨
    (¬(fates 0 = .succeeds ∧ fates 1 = .succeeds ∧ fates 2 = .succeeds ∧ fates 3 ≠ .fails) ∧
      ∃ e rest, fillAndRename effect (dir, fates) = .error e (dir, rest)) := by
  cases h0 : fates 0 <;> cases h1 : fates 1 <;> cases h2 : fates 2 <;> cases h3 : fates 3 <;>
    simp [fillAndRename, step, bind, EStateM.bind, h0, h1, h2, h3]

lemma writeAtomically_cases (effect : Directory → Directory) (dir : Directory)
    (fates : Nat → Fate) :
    (Renames fates ∧ (fates 4 ≠ .last ∧ fates 5 ≠ .last) ∧
      writeAtomically effect (dir, fates) = .ok () (effect dir, fun i => fates (i + 6))) ∨
    (Renames fates ∧ ¬(fates 4 ≠ .last ∧ fates 5 ≠ .last) ∧
      ∃ e rest, writeAtomically effect (dir, fates) = .error e (effect dir, rest)) ∨
    (¬Renames fates ∧ ∃ e rest, writeAtomically effect (dir, fates) = .error e (dir, rest)) := by
  have hwrite : writeAtomically effect = (do
      step "create temp file"
      let written ← attempt (fillAndRename effect)
      let _ ← attempt (step "remove temp file")
      settle written) := rfl
  rw [renames_iff, hwrite]
  cases h0 : fates 0 with
  | succeeds =>
    rcases fillAndRename_cases effect dir fun i => fates (i + 1) with
      ⟨⟨h1, h2, h3⟩, ⟨h4, hfill⟩ | ⟨h4, rest, hfill⟩⟩ | ⟨hnot, e, rest, hfill⟩
    · cases h5 : fates 5 <;> simp_all [step, attempt, bind, EStateM.bind]
    · simp_all [step, attempt, bind, EStateM.bind]
    · cases e <;> cases h5 : rest 0 <;> simp_all [step, attempt, bind, EStateM.bind]
  | fails | last => simp [step, bind, EStateM.bind, h0]

lemma attempt_readMetadata (chunkID : Bytes) (h : fates 0 ≠ .last) :
    ∃ r, attempt (readMetadata chunkID) (dir, fates) = .ok r (dir, fun i => fates (i + 1)) := by
  cases h0 : fates 0 <;> cases hlookup : dir.sidecars.lookup chunkID <;>
    simp_all [readMetadata, attempt, step, bind, EStateM.bind]

lemma putChunk_cases (req : PutRequest) (dir : Directory) (fates : Nat → Fate) :
    (∃ e t, putChunk trimSpace sha256 req (dir, fates) = .error e t ∧ t.1 = dir) ∨
    validatePut trimSpace sha256 req = .ok () ∧
      ((Torn fates ∧ ∃ e t, putChunk trimSpace sha256 req (dir, fates) = .error e t ∧
        t.1 = req.withData dir) ∨
      ∃ storedAt t, t.1 = req.withSidecar storedAt (req.withData dir) ∧
        ((∃ e, putChunk trimSpace sha256 req (dir, fates) = .error e t) ∨
          putChunk trimSpace sha256 req (dir, fates) = .ok (req.metadata storedAt) t)) := by
  unfold putChunk
  cases hvalid : validatePut trimSpace sha256 req with
  | error err => exact .inl ⟨_, _, rfl, rfl⟩
  | ok =>
    by_cases h0 : fates 0 = .last
    · refine .inl ⟨.crash, (dir, fun i => fates (i + 1)), ?_, rfl⟩
      simp [readMetadata, attempt, step, bind, EStateM.bind, h0]
    · obtain ⟨r, hread⟩ : ∃ r, attempt (readMetadata req.chunkID) (dir, fates) = .ok r (dir, _) :=
        attempt_readMetadata req.chunkID h0
      rw [settle_ok, pure_bind, bind_of_ok hread]
      rcases writeAtomically_cases req.withData dir fun i => fates (i + 1) with
        ⟨hrename, hgo, hdata⟩ | ⟨hrename, hstop, e, rest, hdata⟩ | ⟨-, e, rest, hdata⟩
      · rw [bind_of_ok hdata]
        rcases writeAtomically_cases (req.withSidecar (r.toOption.elim req.now (·.storedAt)))
          (req.withData dir) fun i => fates (i + 7) with
          ⟨-, -, hboth⟩ | ⟨-, -, e, rest, hboth⟩ | ⟨hnot, e, rest, hboth⟩
        · rw [bind_of_ok hboth]
          exact .inr ⟨rfl, .inr ⟨_, _, rfl, .inr rfl⟩⟩
        · rw [bind_of_error hboth]
          exact .inr ⟨rfl, .inr ⟨_, _, rfl, .inl ⟨e, rfl⟩⟩⟩
        · rw [bind_of_error hboth]
          exact .inr ⟨rfl, .inl ⟨⟨h0, hrename, fun h => hnot h.2.2⟩, e, _, rfl, rfl⟩⟩
      · rw [bind_of_error hdata]
        exact .inr ⟨rfl, .inl ⟨⟨h0, hrename, fun h => hstop ⟨h.1, h.2.1⟩⟩, e, _, rfl, rfl⟩⟩
      · rw [bind_of_error hdata]
        exact .inl ⟨e, _, rfl, rfl⟩

lemma deleteChunk_cases (chunkID : Bytes) (dir : Directory) (fates : Nat → Fate) :
    directoryAfter (deleteChunk trimSpace chunkID (dir, fates)) = dir ∨
    directoryAfter (deleteChunk trimSpace chunkID (dir, fates)) =
      { dir with sidecars := dir.sidecars.erase chunkID } ∨
    directoryAfter (deleteChunk trimSpace chunkID (dir, fates)) =
      { data := dir.data.erase chunkID, sidecars := dir.sidecars.erase chunkID } := by
  cases hvalid : validateChunkID trimSpace chunkID with
  | error err => simp [deleteChunk, hvalid, bind, EStateM.bind, directoryAfter]
  | ok =>
    cases h0 : fates 0 <;> cases hfound : dir.sidecars.lookup chunkID <;>
      cases h1 : fates 1 <;> cases h2 : fates 2 <;>
      simp [deleteChunk, hvalid, step, bind, EStateM.bind, directoryAfter, h0, hfound, h1, h2]

lemma getChunk_eq_ok (h : getChunk trimSpace chunkID (dir, fates) = .ok (m, d) t) :
    dir.sidecars.lookup chunkID = some m ∧ dir.data.lookup chunkID = some d := by
  cases hvalid : validateChunkID trimSpace chunkID with
  | error err => simp [getChunk, hvalid, bind, EStateM.bind] at h
  | ok =>
    cases h0 : fates 0 <;> cases hfound : dir.sidecars.lookup chunkID <;>
      cases h1 : fates 1 <;> cases hdata : dir.data.lookup chunkID <;>
      simp_all [getChunk, readMetadata, step, bind, EStateM.bind]

end Steps

inductive DiskCall where
  | put (req : PutRequest) (fates : Nat → Fate)
  | delete (chunkID : Bytes) (fates : Nat → Fate)

section Calls

variable (trimSpace : Bytes → Bytes) (sha256 : Bytes → String)

def DiskCall.after (dir : Directory) : DiskCall → Directory
  | .put req fates => directoryAfter (putChunk trimSpace sha256 req (dir, fates))
  | .delete chunkID fates => directoryAfter (deleteChunk trimSpace chunkID (dir, fates))

abbrev DiskRun : List (Directory × DiskCall) → Directory → Prop :=
  Run (· = {}) fun dir call dir' => dir' = call.after trimSpace sha256 dir

def KeepsWhole (dir : Directory) : DiskCall → Prop
  | .put req fates => Torn fates → validatePut trimSpace sha256 req = .ok () →
      dir.sidecars.lookup req.chunkID = none ∨ dir.data.lookup req.chunkID = some req.data
  | .delete .. => True

def OnePut (tr : List (Directory × DiskCall)) (dir : Directory) : Prop :=
  ∀ chunkID m d, dir.sidecars.lookup chunkID = some m → dir.data.lookup chunkID = some d →
    ∃ before req fates storedAt, (before, DiskCall.put req fates) ∈ tr ∧
      validatePut trimSpace sha256 req = .ok () ∧
      req.chunkID = chunkID ∧ req.data = d ∧ req.metadata storedAt = m

variable {trimSpace sha256} {tr : List (Directory × DiskCall)} {dir dir' : Directory}
  {call : DiskCall}

section

variable (h : OnePut trimSpace sha256 tr dir)
include h

lemma OnePut.next
    (hfiles : ∀ chunkID m, dir'.sidecars.lookup chunkID = some m →
      dir.sidecars.lookup chunkID = some m ∧ dir'.data.lookup chunkID = dir.data.lookup chunkID) :
    OnePut trimSpace sha256 ((dir, call) :: tr) dir' := by
  intro chunkID m d hm hd
  obtain ⟨hm, hsame⟩ := hfiles chunkID m hm
  obtain ⟨before, req, fates, storedAt, hmem, hput⟩ := h chunkID m d hm (hsame ▸ hd)
  exact ⟨before, req, fates, storedAt, mem_cons_of_mem _ hmem, hput⟩

lemma OnePut.putChunk (hkeeps : KeepsWhole trimSpace sha256 dir (.put req fates)) :
    OnePut trimSpace sha256 ((dir, .put req fates) :: tr)
      ((DiskCall.put req fates).after trimSpace sha256 dir) := by
  rcases putChunk_cases req dir fates with
    ⟨e, t, hresult, hdir⟩ | ⟨hvalid, ⟨htorn, e, t, hresult, hdir⟩ | ⟨storedAt, t, hdir, hresult⟩⟩
  · rw [DiskCall.after, hresult, directoryAfter, hdir]
    exact h.next fun chunkID m hm => ⟨hm, rfl⟩
  · rw [DiskCall.after, hresult, directoryAfter, hdir]
    refine h.next fun chunkID m hm => ⟨hm, ?_⟩
    obtain rfl | hne := eq_or_ne chunkID req.chunkID
    · -- no sidecar, or the data that was there
      obtain hnone | hsame := hkeeps htorn hvalid
      · cases hnone.symm.trans hm
      · exact (lookup_insert _).trans hsame.symm
    · exact lookup_insert_ne hne
  · have hafter : (DiskCall.put req fates).after trimSpace sha256 dir =
        req.withSidecar storedAt (req.withData dir) := by
      obtain ⟨e, hresult⟩ | hresult := hresult <;>
        rw [DiskCall.after, hresult, directoryAfter, hdir]
    rw [hafter]
    intro chunkID m d hm hd
    obtain rfl | hne := eq_or_ne chunkID req.chunkID
    · rw [PutRequest.withSidecar, lookup_insert] at hm
      rw [PutRequest.withSidecar, PutRequest.withData, lookup_insert] at hd
      exact ⟨dir, req, fates, storedAt, mem_cons_self, hvalid, rfl, some.inj hd,
        some.inj hm⟩
    · obtain ⟨before, req', fates', storedAt', hmem, hput⟩ := h chunkID m d
        ((lookup_insert_ne hne).symm.trans hm) ((lookup_insert_ne hne).symm.trans hd)
      exact ⟨before, req', fates', storedAt', mem_cons_of_mem _ hmem, hput⟩

lemma OnePut.deleteChunk : OnePut trimSpace sha256 ((dir, .delete chunkID fates) :: tr)
      ((DiskCall.delete chunkID fates).after trimSpace sha256 dir) := by
  refine h.next fun id m hm => ?_
  rw [DiskCall.after] at hm ⊢
  rcases @deleteChunk_cases trimSpace chunkID dir fates with hdir | hdir | hdir <;>
    rw [hdir] at hm ⊢
  · exact ⟨hm, rfl⟩
  all_goals
    obtain rfl | hne := eq_or_ne id chunkID
    · rw [lookup_erase] at hm
      cases hm
    · rw [lookup_erase_ne hne] at hm
      exact ⟨hm, by simp [lookup_erase_ne hne]⟩

end

lemma onePut_of_run (hrun : DiskRun trimSpace sha256 tr dir)
    (hkeeps : ∀ p ∈ tr, KeepsWhole trimSpace sha256 p.1 p.2) : OnePut trimSpace sha256 tr dir := by
  induction hrun with
  | start h =>
    subst h
    intro chunkID m d hm
    cases hm
  | next hbefore hstep ih =>
    subst hstep
    have hput := ih fun p hp => hkeeps p (mem_cons_of_mem _ hp)
    rename_i call
    cases call with
    | put req fates => exact hput.putChunk (hkeeps _ mem_cons_self)
    | delete => exact hput.deleteChunk

lemma sha256_of_validatePut (h : validatePut trimSpace sha256 req = .ok ())
    (hc : req.checksum = some c) : AstraStorage.trimSpace c.value = sha256 req.data := by
  unfold validatePut at h
  cases hid : validateChunkID trimSpace req.chunkID with
  | error err => simp [hid, bind, Except.bind] at h
  | ok =>
    simp only [hid, hc, bind, Except.bind, validateChecksum] at h
    split_ifs at h with _ _ hsum
    exact (not_not.mp hsum).symm

/-- A chunk that is read is, data and sidecar, that of one put. -/
theorem getChunk_fromOnePut (hrun : DiskRun trimSpace sha256 tr dir)
    (hkeeps : ∀ p ∈ tr, KeepsWhole trimSpace sha256 p.1 p.2) {chunkID d : Bytes}
    {fates : Nat → Fate} {m : Datanode.ChunkMetadata} {t : Directory × (Nat → Fate)}
    (hget : getChunk trimSpace chunkID (dir, fates) = .ok (m, d) t) :
    (∃ before req fates storedAt, (before, DiskCall.put req fates) ∈ tr ∧
      req.chunkID = chunkID ∧ req.data = d ∧ req.metadata storedAt = m) ∧
    m.size = Int64.ofNat d.length ∧
    ∀ c, m.checksum = some c → AstraStorage.trimSpace c.value = sha256 d := by
  obtain ⟨hm, hd⟩ := getChunk_eq_ok hget
  obtain ⟨before, req, fates, storedAt, hmem, hvalid, hid, rfl, rfl⟩ :=
    onePut_of_run hrun hkeeps chunkID m d hm hd
  exact ⟨⟨before, req, fates, storedAt, hmem, hid, rfl, rfl⟩, rfl,
    fun c hc => sha256_of_validatePut hvalid hc⟩

/-- A put of these bytes under the ID `a`. -/
def putRequest (data : Bytes) : PutRequest where
  chunkID := ascii "a"
  fileID := "file-1"
  checksum := none
  data := data
  now := 0

theorem getChunk_afterTwoPuts :
    let puts := [DiskCall.put (putRequest [1]) fun _ => .succeeds,
      .put (putRequest [1, 2]) fun _ => .succeeds]
    ∃ tr dir m t, DiskRun id (fun _ => "") tr dir ∧ tr.map Prod.snd = puts.reverse ∧
      getChunk id (ascii "a") (dir, fun _ => .succeeds) = .ok (m, [1, 2]) t ∧ m.size = 2 := by
  intro puts
  have hrun : DiskRun id (fun _ => "") _ _ :=
    .next (a := puts[1]) (.next (a := puts[0]) (.start rfl) rfl) rfl
  obtain ⟨m, t, hget⟩ : ∃ m t, getChunk id (ascii "a")
      (puts[1].after id (fun _ => "") (puts[0].after id (fun _ => "") {}), fun _ => .succeeds) =
        .ok (m, [1, 2]) t := ⟨_, _, rfl⟩
  refine ⟨_, _, m, t, hrun, rfl, hget, (getChunk_fromOnePut hrun ?_ hget).2.1⟩
  simp [puts, KeepsWhole, Torn, Renames]

/-- The second put replaces the data file and fails to create the temporary file of the sidecar. -/
theorem getChunk_tornPut :
    let puts := [DiskCall.put (putRequest [1]) fun _ => .succeeds,
      .put (putRequest [1, 2]) fun i => if i = 7 then .fails else .succeeds]
    ∃ tr dir m t, DiskRun id (fun _ => "") tr dir ∧ tr.map Prod.snd = puts.reverse ∧
      getChunk id (ascii "a") (dir, fun _ => .succeeds) = .ok (m, [1, 2]) t ∧ m.size = 1 :=
  ⟨_, _, _, _, .next (.next (.start rfl) rfl) rfl, rfl, rfl, rfl⟩

/-- There is no file for the chunk. -/
def NoFiles (dir : Directory) (chunkID : Bytes) : Prop :=
  dir.data.lookup chunkID = none ∧ dir.sidecars.lookup chunkID = none

lemma NoFiles.after (h : NoFiles dir chunkID)
    (hinvalid : validateChunkID trimSpace chunkID = .error err) (call : DiskCall) :
    NoFiles (call.after trimSpace sha256 dir) chunkID := by
  cases call with
  | put req fates =>
    have hne (hput : validatePut trimSpace sha256 req = .ok ()) : chunkID ≠ req.chunkID := by
      rintro rfl
      simp [validatePut, hinvalid, bind, Except.bind] at hput
    rcases putChunk_cases req dir fates with
      ⟨e, t, hresult, hdir⟩ | ⟨hput, ⟨-, e, t, hresult, hdir⟩ | ⟨storedAt, t, hdir, hresult⟩⟩
    · rwa [DiskCall.after, hresult, directoryAfter, hdir]
    · rw [DiskCall.after, hresult, directoryAfter, hdir]
      exact ⟨(lookup_insert_ne (hne hput)).trans h.1, h.2⟩
    · obtain ⟨e, hresult⟩ | hresult := hresult <;>
        rw [DiskCall.after, hresult, directoryAfter, hdir]
      all_goals exact ⟨(lookup_insert_ne (hne hput)).trans h.1,
        (lookup_insert_ne (hne hput)).trans h.2⟩
  | delete id fates =>
    have herase {V : Type} (table : Table Bytes V) (hnone : table.lookup chunkID = none) :
        (table.erase id).lookup chunkID = none := by
      obtain rfl | hne := eq_or_ne chunkID id
      · exact lookup_erase _ _
      · rwa [lookup_erase_ne hne]
    rw [DiskCall.after]
    rcases @deleteChunk_cases trimSpace id dir fates with hdir | hdir | hdir <;> rw [hdir]
    · exact h
    · exact ⟨h.1, herase _ h.2⟩
    · exact ⟨herase _ h.1, herase _ h.2⟩

lemma noFiles_of_invalid (hrun : DiskRun trimSpace sha256 tr dir)
    (hinvalid : validateChunkID trimSpace chunkID = .error err) : NoFiles dir chunkID := by
  refine hrun.invariant (I := fun dir => NoFiles dir chunkID) ?_ ?_
  · rintro _ rfl
    exact ⟨rfl, rfl⟩
  · rintro dir call _ h rfl
    exact h.after hinvalid call

/-- A deletion without a failing step looks for the sidecar, and leaves a data file that has none. -/
theorem deleteChunk_leavesNothing_iff {fates : Nat → Fate} (hrun : DiskRun trimSpace sha256 tr dir)
    (chunkID : Bytes) (hfates : ∀ i, fates i = .succeeds) :
    NoFiles ((DiskCall.delete chunkID fates).after trimSpace sha256 dir) chunkID ↔
      ((dir.data.lookup chunkID).isSome → (dir.sidecars.lookup chunkID).isSome) := by
  rw [DiskCall.after]
  cases hvalid : validateChunkID trimSpace chunkID with
  | error err =>
    have hnone := noFiles_of_invalid hrun hvalid
    have hsame : directoryAfter (deleteChunk trimSpace chunkID (dir, fates)) = dir := by
      simp [deleteChunk, hvalid, bind, EStateM.bind, directoryAfter]
    rw [hsame]
    exact iff_of_true hnone (by simp [hnone.1])
  | ok =>
    cases hfound : dir.sidecars.lookup chunkID with
    | none =>
      have hsame : directoryAfter (deleteChunk trimSpace chunkID (dir, fates)) = dir := by
        simp [deleteChunk, hvalid, step, bind, EStateM.bind, directoryAfter, hfates, hfound]
      rw [hsame, NoFiles, hfound]
      simp
    | some m =>
      have hboth : directoryAfter (deleteChunk trimSpace chunkID (dir, fates)) =
          { data := dir.data.erase chunkID, sidecars := dir.sidecars.erase chunkID } := by
        simp [deleteChunk, hvalid, step, bind, EStateM.bind, directoryAfter, hfates, hfound]
      rw [hboth]
      exact iff_of_true ⟨AList.lookup_erase _ _, AList.lookup_erase _ _⟩ fun _ => rfl

theorem deleteChunk_ofStoredChunk : ∃ tr dir, DiskRun id (fun _ => "") tr dir ∧
    dir.data.lookup (ascii "a") = some [1] ∧
    NoFiles ((DiskCall.delete (ascii "a") fun _ => .succeeds).after id (fun _ => "") dir)
      (ascii "a") := by
  have hrun : DiskRun id (fun _ => "") _ _ :=
    .next (a := .put (putRequest [1]) fun _ => .succeeds) (.start rfl) rfl
  exact ⟨_, _, hrun, rfl,
    (deleteChunk_leavesNothing_iff hrun (ascii "a") fun _ => rfl).mpr fun _ => rfl⟩

/-- The put writes the data file and fails to create the temporary file of the sidecar. -/
theorem deleteChunk_afterTornPut : ∃ tr dir, DiskRun id (fun _ => "") tr dir ∧
    tr.map Prod.snd = [.delete (ascii "a") fun _ => .succeeds,
      .put (putRequest [1]) fun i => if i = 7 then .fails else .succeeds] ∧
    dir.data.lookup (ascii "a") = some [1] :=
  ⟨_, _, .next (.next (.start rfl) rfl) rfl, rfl, rfl⟩

lemma requestPutChunk_eq (chunkID : Bytes)
    (h : (urlPath (chunkTarget req.chunkID)).bind handleChunk = some chunkID) :
    requestPutChunk trimSpace sha256 req =
      putChunk trimSpace sha256 { req with chunkID := chunkID } := by
  obtain ⟨path, hpath, hid⟩ := bind_eq_some_iff.mp h
  simp only [requestPutChunk, hpath, hid]

/-- A put that the gateway sees succeed stores the chunk under its ID, and touches no other, exactly
if the URL leaves the ID alone. -/
theorem requestPutChunk_storesID_iff {req : PutRequest} {fates : Nat → Fate}
    {m : Datanode.ChunkMetadata} {t : Directory × (Nat → Fate)}
    (h : requestPutChunk trimSpace sha256 req (dir, fates) = .ok m t) :
    (m.chunkID = req.chunkID ∧ t.1.sidecars.lookup req.chunkID = some m ∧
      t.1.data.lookup req.chunkID = some req.data ∧
      ∀ other ≠ req.chunkID, t.1.sidecars.lookup other = dir.sidecars.lookup other ∧
        t.1.data.lookup other = dir.data.lookup other) ↔ PlainID req.chunkID := by
  obtain ⟨chunkID, hid⟩ : ∃ id, (urlPath (chunkTarget req.chunkID)).bind handleChunk = some id := by
    rw [← isSome_iff_exists]
    by_contra hnone
    rw [not_isSome_iff_eq_none] at hnone
    cases hpath : urlPath (chunkTarget req.chunkID) with
    | none => simp [requestPutChunk, hpath] at h
    | some path =>
      rw [hpath, bind_some] at hnone
      simp [requestPutChunk, hpath, hnone] at h
  rw [requestPutChunk_eq chunkID hid] at h
  have hdecode : percentDecode (req.chunkID.takeWhile fun b => b ≠ byte '?' ∧ b ≠ byte '#') =
      some chunkID := by
    rw [urlPath_chunkTarget, bind_map] at hid
    obtain ⟨xs, hxs, hhandle⟩ := bind_eq_some_iff.mp hid
    rw [hxs, handleChunk_eq_some hhandle]
  rw [← decoded_eq_iff hdecode]
  rcases putChunk_cases { req with chunkID := chunkID } dir fates with
    ⟨e, t', hresult, -⟩ | ⟨-, ⟨-, e, t', hresult, -⟩ | ⟨storedAt, t', hdir, ⟨e, hresult⟩ | hresult⟩⟩
  iterate 3 cases hresult.symm.trans h
  cases hresult.symm.trans h
  rw [hdir]
  refine ⟨fun hstored => hstored.1, ?_⟩
  rintro rfl
  refine ⟨rfl, AList.lookup_insert _, AList.lookup_insert _, fun other hother => ?_⟩
  exact ⟨AList.lookup_insert_ne hother, AList.lookup_insert_ne hother⟩

theorem requestPutChunk_storesID_plain :
    ∃ m t, requestPutChunk id (fun _ => "") (putRequest [1]) ({}, fun _ => .succeeds) = .ok m t ∧
      t.1.data.lookup (ascii "a") = some [1] := by
  obtain ⟨m, t, hput⟩ : ∃ m t,
      requestPutChunk id (fun _ => "") (putRequest [1]) ({}, fun _ => .succeeds) = .ok m t := by
    rw [requestPutChunk_eq (ascii "a") (by decide +kernel)]
    exact ⟨_, _, rfl⟩
  have hplain : PlainID (putRequest [1]).chunkID := by
    unfold PlainID
    decide +kernel
  exact ⟨m, t, hput, ((requestPutChunk_storesID_iff hput).mpr hplain).2.2.1⟩

/-- The chunk `a?b` is stored under the ID `a`, in place of the chunk that is there. -/
theorem requestPutChunk_overwrites :
    ∃ m t m' t', requestPutChunk id (fun _ => "") (putRequest [1]) ({}, fun _ => .succeeds) =
        .ok m t ∧ t.1.data.lookup (ascii "a") = some [1] ∧
      requestPutChunk id (fun _ => "") { putRequest [2] with chunkID := ascii "a?b" } t =
        .ok m' t' ∧
      t'.1.data.lookup (ascii "a") = some [2] ∧ t'.1.data.lookup (ascii "a?b") = none := by
  rw [requestPutChunk_eq (ascii "a") (by decide +kernel),
    requestPutChunk_eq (ascii "a") (by decide +kernel)]
  exact ⟨_, _, _, _, rfl, rfl, rfl, rfl, rfl⟩

end Calls

section Files

variable {trimSpace : Bytes → Bytes} {sha256 : Bytes → String} {k name : Bytes} {dir : Directory}
  {tr : List (Directory × DiskCall)} {chunksDir : Path}

def TrimsEnds (trimSpace : Bytes → Bytes) : Prop :=
  ∀ s, ∃ front back, s = front ++ trimSpace s ++ back ∧ byte '/' ∉ front ∧ byte '/' ∉ back

structure DirectChild (dir path : Path) (name : Bytes) : Prop where
  elements : path = { dir with elements := name :: dir.elements }
  slash : byte '/' ∉ name
  element : name ∉ [[], ascii ".", ascii ".."]

lemma DirectChild.name_eq {path path' : Path} {name' : Bytes}
    (h : DirectChild chunksDir path name) (h' : DirectChild chunksDir path' name')
    (heq : path = path') : name = name' := by
  rw [h.elements, h'.elements] at heq
  exact (cons.inj (congrArg Path.elements heq)).1

lemma directChild_join (chunksDir : Path) (hslash : byte '/' ∉ name) (hlong : 2 < name.length) :
    DirectChild chunksDir (chunksDir.join name) name := by
  have hshort : ∀ short ∈ [[], ascii ".", ascii ".."], short.length ≤ 2 := by decide
  have hname : name ∉ [[], ascii ".", ascii ".."] := fun hmem => (hshort name hmem).not_gt hlong
  refine ⟨?_, hslash, hname⟩
  have hsplit : name.splitOn (byte '/') = [name] :=
    splitOnP_eq_singleton fun b hb => beq_false_of_ne (ne_of_mem_of_not_mem hb hslash)
  simp only [mem_cons, not_mem_nil, or_false, not_or] at hname
  rw [Path.join, hsplit, foldl_cons, foldl_nil, Path.push, if_neg (by simp [hname]),
    if_neg hname.2.2]

lemma slash_not_mem (htrim : TrimsEnds trimSpace) (h : validateChunkID trimSpace k = .ok ()) :
    byte '/' ∉ k := by
  obtain ⟨front, back, hk, hfront, hback⟩ := htrim k
  unfold validateChunkID at h
  dsimp only at h
  split_ifs at h with _ hbad
  rw [hk, mem_append, mem_append]
  rintro ((hmem | hmem) | hmem)
  · exact hfront hmem
  · exact hbad (.inl hmem)
  · exact hback hmem

lemma directChild_suffix (chunksDir : Path) (hslash : byte '/' ∉ k) :
    ∀ ending ∈ [ascii ".bin", ascii ".json"],
      DirectChild chunksDir (chunksDir.join (k ++ ending)) (k ++ ending) := by
  intro ending hending
  have hall : ∀ ending ∈ [ascii ".bin", ascii ".json"],
      byte '/' ∉ ending ∧ 2 < ending.length := by decide
  obtain ⟨hno, hlong⟩ := hall ending hending
  refine directChild_join chunksDir (by simp [hslash, hno]) ?_
  rw [length_append]
  exact hlong.trans_le (Nat.le_add_left _ _)

lemma not_json_of_bin (hbin : ascii ".bin" <:+ name) : ¬ascii ".json" <:+ name :=
  fun hjson => absurd (suffix_of_suffix_length_le hbin hjson (by decide)) (by decide)

lemma ne_temp {digits ending : Bytes} (hdigits : ∀ b ∈ digits, byte '0' ≤ b ∧ b ≤ byte '9')
    (hending : ending.getLast? = some (byte 'n')) : k ++ ending ≠ ascii "chunk-" ++ digits := by
  intro h
  have hlast := congrArg getLast? h
  rw [getLast?_append, getLast?_append, hending, some_or] at hlast
  cases hd : digits.getLast? with
  | none =>
    rw [hd] at hlast
    exact absurd hlast (by decide)
  | some b =>
    rw [hd] at hlast
    cases hlast
    exact absurd (hdigits _ (mem_of_getLast? hd)).2 (by decide)

def storedIDs : List (Directory × DiskCall) → Finset Bytes
  | [] => ∅
  | (_, .put req _) :: tr => insert req.chunkID (storedIDs tr)
  | (_, .delete chunkID _) :: tr => (storedIDs tr).erase chunkID

/-- The call returns without an error. -/
def DiskCall.Succeeds (trimSpace : Bytes → Bytes) (sha256 : Bytes → String) (dir : Directory) :
    DiskCall → Prop
  | .put req fates => ∃ m t, putChunk trimSpace sha256 req (dir, fates) = .ok m t
  | .delete chunkID fates => ∃ t, deleteChunk trimSpace chunkID (dir, fates) = .ok () t

lemma deleteChunk_ok (h : deleteChunk trimSpace k (dir, fates) = .ok () t) :
    t.1.sidecars = dir.sidecars.erase k := by
  cases hvalid : validateChunkID trimSpace k with
  | error err => simp [deleteChunk, hvalid, bind, EStateM.bind] at h
  | ok =>
    cases h0 : fates 0 <;> cases hfound : dir.sidecars.lookup k <;>
      cases h1 : fates 1 <;> cases h2 : fates 2 <;>
      simp [deleteChunk, hvalid, step, bind, EStateM.bind, h0, hfound, h1, h2] at h
    exact h ▸ rfl

lemma mem_sidecars_iff (hrun : DiskRun trimSpace sha256 tr dir)
    (hok : ∀ p ∈ tr, p.2.Succeeds trimSpace sha256 p.1) (k : Bytes) :
    k ∈ dir.sidecars ↔ k ∈ storedIDs tr := by
  induction hrun with
  | start h =>
    subst h
    simp [storedIDs]
  | @next tr dir dir' call hbefore hstep ih =>
    have hkept := ih fun p hp => hok p (mem_cons_of_mem _ hp)
    have hcall : call.Succeeds trimSpace sha256 dir := hok _ mem_cons_self
    subst hstep
    cases call with
    | put req fates =>
      obtain ⟨m, t, hput⟩ := hcall
      rcases putChunk_cases req dir fates with
        ⟨e, t', hresult, -⟩ | ⟨-, ⟨-, e, t', hresult, -⟩ | ⟨storedAt, t', hdir, hresult⟩⟩
      · cases hresult.symm.trans hput
      · cases hresult.symm.trans hput
      obtain ⟨e, hresult⟩ | hresult := hresult
      · cases hresult.symm.trans hput
      · rw [DiskCall.after, hresult, directoryAfter, hdir, PutRequest.withSidecar,
          mem_insert, storedIDs, Finset.mem_insert, ← hkept]
        rfl
    | delete chunkID fates =>
      obtain ⟨t, hdelete⟩ := hcall
      rw [DiskCall.after, hdelete, directoryAfter, deleteChunk_ok hdelete, mem_erase,
        storedIDs, Finset.mem_erase, hkept]

lemma countChunks_eq (dir : Directory) {fates : Nat → Fate} (h : fates 0 = .succeeds) :
    ∃ t, countChunks (dir, fates) = .ok dir.sidecars.keys.length t := by
  have hcount : (dir.entries.countP fun name => ascii ".json" <:+ name) =
      dir.sidecars.keys.length := by
    rw [Directory.entries, countP_append, countP_map, countP_map, countP_eq_zero.mpr,
      countP_eq_length.mpr, Nat.zero_add]
    · exact fun k _ => decide_eq_true (suffix_append k _)
    · exact fun k _ => decide_eq_true_iff.not.mpr (not_json_of_bin (suffix_append k _))
  refine ⟨(dir, fun i => fates (i + 1)), ?_⟩
  simp [countChunks, step, bind, EStateM.bind, h, hcount]

/-- The files of two chunks never have the same name, so the sidecars count the chunks. -/
theorem chunkFiles_apart (htrim : TrimsEnds trimSpace) (sha256 : Bytes → String)
    (chunksDir : Path) :
    (∀ k, validateChunkID trimSpace k = .ok () →
      DirectChild chunksDir (dataPath chunksDir k) (k ++ ascii ".bin") ∧
      DirectChild chunksDir (metaPath chunksDir k) (k ++ ascii ".json") ∧
      (∀ k', validateChunkID trimSpace k' = .ok () →
        (dataPath chunksDir k = dataPath chunksDir k' → k = k') ∧
        (metaPath chunksDir k = metaPath chunksDir k' → k = k') ∧
        dataPath chunksDir k ≠ metaPath chunksDir k') ∧
      ∀ digits, (∀ b ∈ digits, byte '0' ≤ b ∧ b ≤ byte '9') →
        dataPath chunksDir k ≠ tempPath chunksDir digits ∧
        metaPath chunksDir k ≠ tempPath chunksDir digits) ∧
    ∀ tr dir fates, DiskRun trimSpace sha256 tr dir →
      (∀ p ∈ tr, p.2.Succeeds trimSpace sha256 p.1) → fates 0 = .succeeds →
      ∃ t, countChunks (dir, fates) = .ok (storedIDs tr).card t := by
  refine ⟨fun k hk => ?_, fun tr dir fates hrun hok hfate => ?_⟩
  · have hfiles (k : Bytes) (hk : validateChunkID trimSpace k = .ok ()) :=
      directChild_suffix chunksDir (slash_not_mem htrim hk)
    have hdata (k : Bytes) (hk : validateChunkID trimSpace k = .ok ()) :
        DirectChild chunksDir (dataPath chunksDir k) (k ++ ascii ".bin") :=
      hfiles k hk _ (by decide)
    have hmeta (k : Bytes) (hk : validateChunkID trimSpace k = .ok ()) :
        DirectChild chunksDir (metaPath chunksDir k) (k ++ ascii ".json") :=
      hfiles k hk _ (by decide)
    refine ⟨hdata k hk, hmeta k hk, fun k' hk' => ⟨fun h => ?_, fun h => ?_, fun h => ?_⟩,
      fun digits hdigits => ?_⟩
    · exact append_cancel_right ((hdata k hk).name_eq (hdata k' hk') h)
    · exact append_cancel_right ((hmeta k hk).name_eq (hmeta k' hk') h)
    · have hname := (hdata k hk).name_eq (hmeta k' hk') h
      exact not_json_of_bin (suffix_append k _) (hname ▸ suffix_append k' _)
    · have htemp : DirectChild chunksDir (tempPath chunksDir digits)
          (ascii "chunk-" ++ digits) := by
        refine directChild_join chunksDir ?_ (by simp [ascii])
        rw [mem_append]
        rintro (hmem | hmem)
        · exact absurd hmem (by decide)
        · exact absurd (hdigits _ hmem).1 (by decide)
      exact ⟨fun h => ne_temp hdigits (by decide) ((hdata k hk).name_eq htemp h),
        fun h => ne_temp hdigits (by decide) ((hmeta k hk).name_eq htemp h)⟩
  · obtain ⟨t, ht⟩ := countChunks_eq dir hfate
    refine ⟨t, ht.trans ?_⟩
    have hkeys : dir.sidecars.keys.toFinset = storedIDs tr := by
      ext k
      rw [List.mem_toFinset, ← AList.mem_keys, mem_sidecars_iff hrun hok]
    rw [← hkeys, List.toFinset_card_of_nodup dir.sidecars.keys_nodup]

theorem chunkFiles_apart_twoPuts : ∃ tr dir t,
    DiskRun id (fun _ => "") tr dir ∧ countChunks (dir, fun _ => .succeeds) = .ok 1 t := by
  have htrim : TrimsEnds id := fun s => ⟨[], [], by simp, not_mem_nil, not_mem_nil⟩
  have hrun : DiskRun id (fun _ => "") _ _ :=
    .next (a := .put (putRequest [1, 2]) fun _ => .succeeds)
      (.next (a := .put (putRequest [1]) fun _ => .succeeds) (.start rfl) rfl) rfl
  obtain ⟨t, ht⟩ := (chunkFiles_apart htrim (fun _ => "") ⟨true, []⟩).2 _ _
    (fun _ => .succeeds) hrun (forall_mem_cons.mpr ⟨⟨_, _, rfl⟩,
      forall_mem_cons.mpr ⟨⟨_, _, rfl⟩, forall_mem_nil _⟩⟩) rfl
  exact ⟨_, _, t, hrun, ht⟩

end Files

end AstraStorage.Proofs
