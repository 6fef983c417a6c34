import AstraStorage.Proofs.Reachable

/-!
# The life of an upload session

A session is started, moved by the five calls that name it, and deleted with its file. When a
terminal session is not moved again, and when a revived one does not meet a newer one.
-/

namespace AstraStorage.Proofs
open Lib Store Service Function List Option

variable {s t : MemoryState} {a : Action} {k : UploadSessionID} {y y' : UploadSession}
  {history : List (MemoryState × Action)} {c : Catalog}

inductive Moves (s : MemoryState) : Action → UploadSessionID → UploadSession → UploadSession → Prop
  | commit {now req y file} (hacc : CommitAccepted s req y file) :
      Moves s (.call now (.commitChunk req)) req.sessionID y
        (committedSession (requestTime now req.committedAt) req y)
  | complete {now req y file} (hacc : CompleteAccepted s req y file) :
      Moves s (.call now (.completeUpload req)) req.sessionID y
        (verifyingSession (requestTime now req.completedAt) req y)
  | verify {now req y file checksum} (hacc : VerifyAccepted s req y file checksum) :
      Moves s (.call now (.verifyUpload req)) req.sessionID y
        (availableSession (requestTime now req.verifiedAt) req y)
  | fail {now req y file} (hacc : FailAccepted s req y file) :
      Moves s (.call now (.failUploadVerification req)) req.sessionID y
        (failedSession (requestTime now req.failedAt) (blamedOffset s req) req y)
  | retry {now req y file} (hacc : RetryAccepted s req y file) :
      Moves s (.call now (.retryUpload req)) req.sessionID y
        (retriedSession (requestTime now req.retriedAt)
          (lastKept y.retry.lastFailedOffset "" (chunksOfFile s y.fileID)) y)

lemma Moves.stored (h : Moves s a k y y') : (catalog s).session k = some y := by
  cases h with
  | commit hacc | complete hacc | verify hacc | fail hacc | retry hacc => exact hacc.uploads.session

lemma Moves.fileID (h : Moves s a k y y') : y'.fileID = y.fileID := by
  cases h <;> rfl

inductive SessionStep (s t : MemoryState) (a : Action) : Prop
  | kept (h : ∀ k y, (catalog t).session k = some y → (catalog s).session k = some y)
  | started {when req} (hfresh : (catalog s).session req.sessionID = none)
      (hidle : NoActiveSession (catalog s) req.fileID)
      (h : (catalog t).session = update (catalog s).session req.sessionID
        (some (startedSession when req)))
  | moved {k : UploadSessionID} {y y' : UploadSession} (hmove : Moves s a k y y')
      (h : (catalog t).session = update (catalog s).session k (some y'))

lemma session_of_namespaceChanges (h : Relation.ReflTransGen (NamespaceChange ok) c c')
    (hy : c'.session k = some y) : c.session k = some y := by
  induction h with
  | refl => exact hy
  | tail _ hstep ih =>
    refine ih ?_
    cases hstep with
    | addDirectory | addFile | dropDirectory => exact hy
    | rename _ _ _ _ h | move _ _ _ _ _ _ h => rwa [h.session] at hy
    | dropFile =>
      simp only [withoutFile, filter_eq_some_iff] at hy
      exact hy.1

lemma UploadEffect.sessionStep (h : UploadEffect s t a) : SessionStep s t a := by
  cases h with
  | start hacc ht => exact .started hacc.fresh hacc.idle (by rw [ht]; rfl)
  | commit hacc ht => exact .moved (.commit hacc) (by rw [ht]; rfl)
  | complete hacc ht => exact .moved (.complete hacc) (by rw [ht]; rfl)
  | verify hacc ht => exact .moved (.verify hacc) (by rw [ht]; rfl)
  | fail hacc ht => exact .moved (.fail hacc) (by rw [ht]; rfl)
  | retry hacc ht => exact .moved (.retry hacc) (by rw [ht]; rfl)

theorem step_sessionStep (hw : WellFormed (catalog s)) (h : Step s a t) : SessionStep s t a := by
  cases effect_of_step hw h with
  | same ht => exact .kept (fun _ _ hy => ht ▸ hy)
  | namespaces ht => exact .kept (fun _ _ hy => session_of_namespaceChanges ht hy)
  | nodes ht => exact .kept (fun _ _ hy => ht.session ▸ hy)
  | upload h => exact h.sessionStep

lemma Moves.accepted (h : Moves s (.call now call) k y y') : UploadAccepted s call := by
  cases h with
  | commit hacc | complete hacc | fail hacc | retry hacc => exact ⟨_, _, hacc⟩
  | verify hacc => exact ⟨_, _, _, hacc⟩

lemma Moves.step (hw : WellFormed (catalog s)) (hmove : Moves s a k y y') (h : Step s a t) :
    (catalog t).session = update (catalog s).session k (some y') := by
  cases h with
  | reorder h => cases hmove
  | call now call =>
    have heffect : UploadEffect s (call.exec now s) (.call now call) :=
      UploadAccepted.effect hw hmove.accepted
    cases hmove with
    | commit hacc | complete hacc | verify hacc | fail hacc | retry hacc =>
      cases heffect
      rename_i hacc' ht
      obtain ⟨rfl, rfl⟩ := hacc.uploads.unique hacc'.uploads
      rw [ht, session_withUpload]

def KeepsTerminal (s : MemoryState) : Action → Prop
  | .call _ (.commitChunk req) => ∀ y file, CommitAccepted s req y file →
      isTerminalUploadStatus y.status = false
  | .call _ (.completeUpload req) => ∀ y file, CompleteAccepted s req y file →
      isTerminalUploadStatus y.status = false
  | .call _ (.verifyUpload req) => ∀ y file checksum, VerifyAccepted s req y file checksum →
      isTerminalUploadStatus y.status = true → y.status = .completed
  | .call _ (.failUploadVerification req) => ∀ y file, FailAccepted s req y file →
      isTerminalUploadStatus y.status = true →
        y.status = .failed ∧ ¬(req.retryable = true ∧ req.attempt < req.maxAttempts)
  | _ => True

lemma keepsTerminal_iff : KeepsTerminal s a ↔ ∀ k y y', Moves s a k y y' →
    isTerminalUploadStatus y.status = true → y'.status = y.status := by
  constructor
  · intro hkeep k y y' hmove hterm
    cases hmove with
    | commit hacc | complete hacc => simp [hkeep _ _ hacc] at hterm
    | verify hacc => exact (hkeep _ _ _ hacc hterm).symm
    | fail hacc =>
      obtain ⟨hfailed, hfinal⟩ := hkeep _ _ hacc hterm
      rw [hfailed]
      exact if_neg hfinal
    | retry hacc =>
      rw [hacc.retrying] at hterm
      cases hterm
  · intro hall
    cases a with
    | reorder => trivial
    | call now call =>
      cases call with
      | commitChunk req =>
        intro y file hacc
        by_contra hterm
        rw [Bool.not_eq_false] at hterm
        rw [← hall _ y _ (.commit hacc) hterm] at hterm
        cases hterm
      | completeUpload req =>
        intro y file hacc
        by_contra hterm
        rw [Bool.not_eq_false] at hterm
        rw [← hall _ y _ (.complete hacc) hterm] at hterm
        cases hterm
      | verifyUpload req =>
        intro y file checksum hacc hterm
        exact (hall _ y _ (.verify hacc) hterm).symm
      | failUploadVerification req =>
        intro y file hacc hterm
        have hstatus := hall _ y _ (.fail hacc) hterm
        by_cases hretry : req.retryable = true ∧ req.attempt < req.maxAttempts
        · rw [← hstatus, failedSession, if_pos hretry] at hterm
          cases hterm
        · rw [failedSession, if_neg hretry] at hstatus
          exact ⟨hstatus.symm, hretry⟩
      | _ => trivial

def TerminalKept (s t : MemoryState) : Prop :=
  ∀ k y y', (catalog s).session k = some y → isTerminalUploadStatus y.status = true →
    (catalog t).session k = some y' → y'.status = y.status

theorem terminalKept_iff (hw : WellFormed (catalog s)) (h : Step s a t) :
    TerminalKept s t ↔ KeepsTerminal s a := by
  rw [keepsTerminal_iff]
  constructor
  · intro hkept k y y' hmove hterm
    refine hkept k y y' hmove.stored hterm ?_
    rw [hmove.step hw h, update_self]
  · intro hall k y y' hy hterm hy'
    have hsame : (catalog s).session k = some y' → y'.status = y.status := by
      intro hold
      rw [hy] at hold
      cases hold
      rfl
    cases step_sessionStep hw h with
    | kept h => exact hsame (h k y' hy')
    | started hfresh _ h =>
      rw [h, update_some_eq_some] at hy'
      rcases hy' with ⟨rfl, _⟩ | ⟨_, hold⟩
      · rw [hfresh] at hy
        cases hy
      · exact hsame hold
    | moved hmove h =>
      rw [h, update_some_eq_some] at hy'
      rcases hy' with ⟨rfl, rfl⟩ | ⟨_, hold⟩
      · obtain rfl := mem_unique hy hmove.stored
        exact hall _ _ _ hmove hterm
      · exact hsame hold

def TerminalForever (history : List (MemoryState × Action)) (s : MemoryState) : Prop :=
  ∀ later r a earlier, history = later ++ (r, a) :: earlier →
    ∀ k y, (catalog r).session k = some y → isTerminalUploadStatus y.status = true →
      (∀ p ∈ later, ((catalog p.1).session k).isSome) →
        ∀ y', (catalog s).session k = some y' → y'.status = y.status

theorem terminalForever_of_run (hrun : ServiceRun history s)
    (hkeep : ∀ p ∈ history, KeepsTerminal p.1 p.2) : TerminalForever history s := by
  intro later r a earlier hhistory k y hy hterm hexists
  induction later generalizing history s with
  | nil =>
    subst hhistory
    intro y' hy'
    cases hrun with
    | next hrun hstep =>
      have hkept := (terminalKept_iff (wellFormed_of_run hrun) hstep).mpr
        (hkeep _ mem_cons_self)
      exact hkept k y y' hy hterm hy'
  | cons p later ih =>
    subst hhistory
    intro y' hy'
    cases hrun with
    | @next _ q _ b hrun hstep =>
      obtain ⟨z, hz⟩ := isSome_iff_exists.mp (hexists _ mem_cons_self)
      have hzy := ih hrun (fun p hp => hkeep p (mem_cons_of_mem _ hp)) rfl
        (fun p hp => hexists p (mem_cons_of_mem _ hp)) z hz
      have hkept := (terminalKept_iff (wellFormed_of_run hrun) hstep).mpr
        (hkeep _ mem_cons_self)
      rw [← hzy] at hterm ⊢
      exact hkept k z y' hz hterm hy'

theorem terminalForever_restartedUpload :
    TerminalForever (play 1 restartedUpload).1 (play 1 restartedUpload).2 ∧
      ((catalog (play 1 restartedUpload).2).session "u").map (·.status) = some .failed := by
  refine ⟨terminalForever_of_run (serviceRun_play 1 restartedUpload) ?_, by decide +kernel⟩
  refine forall_mem_cons.mpr ⟨trivial, forall_mem_cons.mpr ⟨?_, forall_mem_cons.mpr
    ⟨trivial, forall_mem_cons.mpr ⟨trivial, by simp⟩⟩⟩⟩
  intro y file hacc hterm
  have hstatus := congrArg (Option.map UploadSession.status) hacc.uploads.session
  have hpending : some y.status = some .pending := hstatus.symm.trans (by decide +kernel)
  rw [Option.some.inj hpending] at hterm
  cases hterm

def revivedUpload : List Call :=
  restartedUpload ++ [.failUploadVerification
    { sessionID := "u", errorCode := "E", retryable := true, maxAttempts := 1 }]

theorem not_terminalForever_revivedUpload :
    ServiceRun (play 1 revivedUpload).1 (play 1 revivedUpload).2 ∧
      ¬TerminalForever (play 1 revivedUpload).1 (play 1 revivedUpload).2 := by
  refine ⟨serviceRun_play 1 revivedUpload, fun h => ?_⟩
  have hbefore : ((catalog (play 1 restartedUpload).2).session "u").map (·.status) =
      some .failed := by decide +kernel
  have hafter : ((catalog (play 1 revivedUpload).2).session "u").map (·.status) =
      some .retrying := by decide +kernel
  obtain ⟨y, hy, hyfailed⟩ := map_eq_some_iff.mp hbefore
  obtain ⟨y', hy', hyretrying⟩ := map_eq_some_iff.mp hafter
  have hsame := h [] (play 1 restartedUpload).2 _ (play 1 restartedUpload).1 rfl "u" y hy
    (by rw [hyfailed]; rfl) (by simp) y' hy'
  rw [hyfailed, hyretrying] at hsame
  cases hsame

/-- No file has two sessions under way. -/
def OneActive (c : Catalog) : Prop :=
  ∀ k l y z, c.session k = some y → c.session l = some z → y.fileID = z.fileID →
    isTerminalUploadStatus y.status = false → isTerminalUploadStatus z.status = false → k = l

def RevivesAlone (s : MemoryState) : Action → Prop
  | .call _ (.commitChunk req) => ∀ y file, CommitAccepted s req y file →
      isTerminalUploadStatus y.status = true → NoActiveSession (catalog s) y.fileID
  | .call _ (.completeUpload req) => ∀ y file, CompleteAccepted s req y file →
      isTerminalUploadStatus y.status = true → NoActiveSession (catalog s) y.fileID
  | .call _ (.failUploadVerification req) => ∀ y file, FailAccepted s req y file →
      req.retryable = true ∧ req.attempt < req.maxAttempts →
        isTerminalUploadStatus y.status = true → NoActiveSession (catalog s) y.fileID
  | _ => True

lemma revivesAlone_iff : RevivesAlone s a ↔ ∀ k y y', Moves s a k y y' →
    isTerminalUploadStatus y.status = true → isTerminalUploadStatus y'.status = false →
      NoActiveSession (catalog s) y.fileID := by
  constructor
  · intro halone k y y' hmove hterm hrevived
    cases hmove with
    | commit hacc | complete hacc => exact halone _ _ hacc hterm
    | verify hacc => cases hrevived
    | @fail _ req _ _ hacc =>
      by_cases hretry : req.retryable = true ∧ req.attempt < req.maxAttempts
      · exact halone _ _ hacc hretry hterm
      · rw [failedSession, if_neg hretry] at hrevived
        cases hrevived
    | retry hacc =>
      rw [hacc.retrying] at hterm
      cases hterm
  · intro hall
    cases a with
    | reorder => trivial
    | call now call =>
      cases call with
      | commitChunk req => exact fun y file hacc hterm => hall _ y _ (.commit hacc) hterm rfl
      | completeUpload req => exact fun y file hacc hterm => hall _ y _ (.complete hacc) hterm rfl
      | failUploadVerification req =>
        intro y file hacc hretry hterm
        refine hall _ y _ (.fail hacc) hterm ?_
        rw [failedSession, if_pos hretry]
        rfl
      | _ => trivial

lemma OneActive.update (h : OneActive c) (hc : c'.session = update c.session k (some y'))
    (hactive : isTerminalUploadStatus y'.status = false →
      (∃ y, c.session k = some y ∧ y.fileID = y'.fileID ∧
        isTerminalUploadStatus y.status = false) ∨ NoActiveSession c y'.fileID) : OneActive c' := by
  have hother : ∀ l z, l ≠ k → c.session l = some z → z.fileID = y'.fileID →
      isTerminalUploadStatus y'.status = false → isTerminalUploadStatus z.status = true := by
    intro l z hl hz hfile hy'
    rcases hactive hy' with ⟨y, hy, hyf, hopen⟩ | hidle
    · by_contra hz'
      exact hl (h l k z y hz hy (hfile.trans hyf.symm) (Bool.not_eq_true _ ▸ hz') hopen)
    · exact hidle l z hz hfile
  intro i j z w hz hw hfile hzopen hwopen
  rw [hc, update_some_eq_some] at hz hw
  rcases hz with ⟨rfl, rfl⟩ | ⟨hi, hz⟩
  · rcases hw with ⟨rfl, rfl⟩ | ⟨hj, hw⟩
    · rfl
    · simp [hother j w hj hw hfile.symm hzopen] at hwopen
  · rcases hw with ⟨rfl, rfl⟩ | ⟨_, hw⟩
    · simp [hother i z hi hz hfile hwopen] at hzopen
    · exact h i j z w hz hw hfile hzopen hwopen

theorem oneActive_iff (hw : WellFormed (catalog s)) (hone : OneActive (catalog s))
    (h : Step s a t) : OneActive (catalog t) ↔ RevivesAlone s a := by
  rw [revivesAlone_iff]
  constructor
  · intro hone' k y y' hmove hterm hrevived l z hz hfile
    by_contra hopen
    have hsession := hmove.step hw h
    have hlk : l ≠ k := by
      rintro rfl
      rw [hmove.stored] at hz
      cases hz
      exact hopen hterm
    refine hlk (hone' l k z y' ?_ ?_ ?_ (Bool.not_eq_true _ ▸ hopen) hrevived)
    · rw [hsession, update_of_ne hlk, hz]
    · rw [hsession, update_self]
    · rw [hmove.fileID, hfile]
  · intro halone
    cases step_sessionStep hw h with
    | kept h =>
      intro k l y z hy hz
      exact hone k l y z (h k y hy) (h l z hz)
    | started _ hidle h => exact hone.update h (fun _ => .inr hidle)
    | @moved k y y' hmove h =>
      refine hone.update h fun hrevived => ?_
      by_cases hterm : isTerminalUploadStatus y.status = true
      · exact .inr (hmove.fileID ▸ halone k y y' hmove hterm hrevived)
      · exact .inl ⟨y, hmove.stored, hmove.fileID.symm, Bool.not_eq_true _ ▸ hterm⟩

theorem oneActive_of_run (hrun : ServiceRun history s)
    (halone : ∀ p ∈ history, RevivesAlone p.1 p.2) : OneActive (catalog s) := by
  have hboth := invariant_of_serviceRun hrun halone
    (by rintro now k l y z ⟨⟩) fun s a t hw hone ha hstep => (oneActive_iff hw hone hstep).mpr ha
  exact hboth.2

theorem oneActive_restartedUpload :
    OneActive (catalog (play 1 restartedUpload).2) ∧
      ((catalog (play 1 restartedUpload).2).session "v").map (·.status) = some .pending := by
  refine ⟨oneActive_of_run (serviceRun_play 1 restartedUpload) ?_, by decide +kernel⟩
  refine forall_mem_cons.mpr ⟨trivial, forall_mem_cons.mpr ⟨?_,
    forall_mem_cons.mpr ⟨trivial, forall_mem_cons.mpr ⟨trivial, by simp⟩⟩⟩⟩
  intro y file hacc hretry
  cases hretry.1

theorem not_oneActive_revivedUpload :
    ServiceRun (play 1 revivedUpload).1 (play 1 revivedUpload).2 ∧
      ¬OneActive (catalog (play 1 revivedUpload).2) := by
  refine ⟨serviceRun_play 1 revivedUpload, fun h => ?_⟩
  have hu : ((catalog (play 1 revivedUpload).2).session "u").map (fun y => (y.fileID, y.status)) =
      some ("f", .retrying) := by decide +kernel
  have hv : ((catalog (play 1 revivedUpload).2).session "v").map (fun y => (y.fileID, y.status)) =
      some ("f", .pending) := by decide +kernel
  obtain ⟨y, hy, hyu⟩ := map_eq_some_iff.mp hu
  obtain ⟨z, hz, hzv⟩ := map_eq_some_iff.mp hv
  simp only [Prod.mk.injEq] at hyu hzv
  have hsame := h "u" "v" y z hy hz (hyu.1.trans hzv.1.symm) (by rw [hyu.2]; rfl)
    (by rw [hzv.2]; rfl)
  exact absurd hsame (by decide)

inductive Reports (s : MemoryState) : Action → UploadSessionID → Checksum → Prop
  | complete {now req y file checksum} (hacc : CompleteAccepted s req y file)
      (hfinal : req.finalChecksum = some checksum) (hready : checksumReady checksum = true) :
      Reports s (.call now (.completeUpload req)) req.sessionID checksum
  | verify {now req y file selected checksum} (hacc : VerifyAccepted s req y file selected)
      (hverified : req.verifiedChecksum = some checksum) :
      Reports s (.call now (.verifyUpload req)) req.sessionID checksum

def Reported (history : List (MemoryState × Action)) (k : UploadSessionID) (checksum : Checksum) :
    Prop :=
  ∃ p ∈ history, Reports p.1 p.2 k checksum

def VerifiedReported (history : List (MemoryState × Action)) (s : MemoryState) : Prop :=
  ∀ k y checksum, (catalog s).session k = some y → y.verifiedChecksum = some checksum →
    Reported history k checksum

lemma Moves.verifiedChecksum (h : Moves s a k y y') (hy' : y'.verifiedChecksum = some checksum) :
    y.verifiedChecksum = some checksum ∨ Reports s a k checksum := by
  cases h with
  | commit _ | fail _ => exact .inl hy'
  | complete hacc =>
    rcases (orElse_eq_some _ _ _).mp hy' with hfinal | ⟨_, hold⟩
    · obtain ⟨hfinal, hready⟩ := filter_eq_some_iff.mp hfinal
      exact .inr (.complete hacc hfinal hready)
    · exact .inl hold
  | verify hacc =>
    rcases (orElse_eq_some _ _ _).mp hy' with hverified | ⟨_, hold⟩
    · exact .inr (.verify hacc hverified)
    · exact .inl hold
  | retry _ => cases hy'

theorem verifiedReported_of_run (hrun : ServiceRun history s) : VerifiedReported history s := by
  refine hrun.invariant_history ?_ ?_
  · intro s hs
    obtain ⟨now, rfl⟩ := bootstrapped_iff.mp hs
    intro k y checksum hy
    cases hy
  · intro tr s a t hbefore hrep hstep k y' checksum hy' hverified
    have hold : ∀ y, (catalog s).session k = some y → y.verifiedChecksum = some checksum →
        Reported ((s, a) :: tr) k checksum := by
      intro y hy hv
      obtain ⟨p, hp, hreports⟩ := hrep k y checksum hy hv
      exact ⟨p, mem_cons_of_mem _ hp, hreports⟩
    cases step_sessionStep (wellFormed_of_run hbefore) hstep with
    | kept h => exact hold y' (h k y' hy') hverified
    | started _ _ h =>
      rw [h, update_some_eq_some] at hy'
      rcases hy' with ⟨_, rfl⟩ | ⟨_, hy⟩
      · cases hverified
      · exact hold y' hy hverified
    | moved hmove h =>
      rw [h, update_some_eq_some] at hy'
      rcases hy' with ⟨rfl, rfl⟩ | ⟨_, hy⟩
      · rcases hmove.verifiedChecksum hverified with hv | hreports
        · exact hold _ hmove.stored hv
        · exact ⟨(s, a), mem_cons_self, hreports⟩
      · exact hold y' hy hverified

/-- The checksum that verification stores is the one reported as verified, by the request or
else by an earlier call for the session; the expected checksum plays no part. -/
theorem verifyUpload_checksum {now : Time} {req : VerifyUploadRequest} {result : FileMetadata}
    (hrun : ServiceRun history s) (h : Yields (verifyUpload now req) s result t) :
    ∃ y file', (catalog s).session req.sessionID = some y ∧
      (catalog t).file y.fileID = some file' ∧ file'.status = .available ∧
      checksumReady file'.checksum = true ∧
      (req.verifiedChecksum = some file'.checksum ∨
        req.verifiedChecksum = none ∧ y.verifiedChecksum = some file'.checksum ∧
          Reported history req.sessionID file'.checksum) := by
  obtain ⟨y, file, checksum, hacc, ht, -⟩ := verifyUpload_spec (wellFormed_of_run hrun) h
  have hselected := (orElse_eq_some _ _ _).mp hacc.selected
  refine ⟨y, _, hacc.uploads.session, by rw [ht]; exact update_self .., rfl, ?_, ?_⟩
  · rcases hselected with hsel | ⟨_, hsel⟩
    all_goals exact (filter_eq_some_iff.mp hsel).2
  · rcases hselected with hsel | ⟨hnone, hsel⟩
    · exact .inl (filter_eq_some_iff.mp hsel).1
    · have hy := (filter_eq_some_iff.mp hsel).1
      refine .inr ⟨?_, hy, verifiedReported_of_run hrun _ y checksum hacc.uploads.session hy⟩
      by_contra hsome
      obtain ⟨c, hc⟩ := ne_none_iff_exists'.mp hsome
      rw [hc, filter_some, hacc.ready c hc] at hnone
      cases hnone

theorem verifyUpload_checksum_uploadedFile :
    ∃ result t y file', Yields (verifyUpload 1 { sessionID := "u" }) (play 1 uploadedFile).2 result t ∧
      (catalog (play 1 uploadedFile).2).session "u" = some y ∧
      (catalog t).file y.fileID = some file' ∧ file'.status = .available ∧
      Reported (play 1 uploadedFile).1 "u" file'.checksum := by
  have hreturns : Returns (verifyUpload 1 { sessionID := "u" }) (play 1 uploadedFile).2 := by
    decide +kernel
  obtain ⟨result, t, h⟩ := hreturns
  obtain ⟨y, file', hy, hfile', hstatus, _, hreported⟩ :=
    verifyUpload_checksum (serviceRun_play 1 uploadedFile) h
  refine ⟨result, t, y, file', h, hy, hfile', hstatus, ?_⟩
  rcases hreported with hreq | ⟨_, _, hreported⟩
  · cases hreq
  · exact hreported

/-- Verification reports `ff` where the session expects `00`, and the file becomes available. -/
theorem verifyUpload_ignores_expected :
    ServiceRun (play 1 uploadedFile).1 (play 1 uploadedFile).2 ∧
      ((catalog (play 1 uploadedFile).2).session "u").map (·.expectedChecksum) =
        some (some (digest "00")) ∧
      ((catalog ((Call.verifyUpload
        { sessionID := "u", verifiedChecksum := some (verifiedDigest "ff") }).exec 1
          (play 1 uploadedFile).2)).file "f").map (fun file => (file.status, file.checksum.value)) =
        some (.available, "ff") :=
  ⟨serviceRun_play 1 uploadedFile, by decide +kernel, by decide +kernel⟩

end AstraStorage.Proofs
