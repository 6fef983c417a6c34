import AstraStorage.Proofs.Sessions

/-!
# Retries

A retry is granted as long as the last number reported is below the last limit. If the numbers grow,
the largest limit bounds the retries; nothing makes them grow.
-/

namespace AstraStorage.Proofs
open Lib Store Service Function

variable {req : RetryUploadRequest} {history : List (MemoryState × Action)}

def retries (k : UploadSessionID) : MemoryState × Action → Bool
  | (s, .call now (.retryUpload req)) =>
    req.sessionID = k && decide (Returns (retryUpload now req) s)
  | _ => false

def starts (k : UploadSessionID) : MemoryState × Action → Bool
  | (s, .call now (.startUpload req)) =>
    req.sessionID = k && decide (Returns (startUpload now req) s)
  | _ => false

def sinceStart (k : UploadSessionID) (history : List (MemoryState × Action)) :
    List (MemoryState × Action) :=
  history.takeWhile fun p => !starts k p

def failureReport : Action → Option FailUploadVerificationRequest
  | .call _ (.failUploadVerification req) => some req
  | _ => none

def reportedLimit (k : UploadSessionID) (a : Action) : Int :=
  (failureReport a).elim 0 fun req => if req.sessionID = k then req.maxAttempts else 0

def largestLimit (k : UploadSessionID) (calls : List (MemoryState × Action)) : Int :=
  calls.foldr (fun p largest => max (reportedLimit k p.2) largest) 0

def CountsUp (s : MemoryState) (a : Action) : Prop :=
  ∀ req ∈ failureReport a, ∀ y ∈ (catalog s).session req.sessionID,
    y.retry.maxAttempts = 0 ∨ y.retry.attempt < req.attempt

instance (s : MemoryState) (a : Action) : Decidable (CountsUp s a) :=
  inferInstanceAs (Decidable (∀ req ∈ failureReport a, ∀ y ∈ (catalog s).session req.sessionID,
    y.retry.maxAttempts = 0 ∨ y.retry.attempt < req.attempt))

structure RetryCount (k : UploadSessionID) (calls : List (MemoryState × Action)) (s : MemoryState) :
    Prop where
  bounded : (calls.countP (retries k) : Int) ≤ largestLimit k calls
  unfailed : ∀ y, (catalog s).session k = some y → y.retry.maxAttempts = 0 →
    calls.countP (retries k) = 0 ∧ y.status ≠ .retrying
  failed : ∀ y, (catalog s).session k = some y → y.retry.maxAttempts ≠ 0 →
    (calls.countP (retries k) : Int) ≤ y.retry.attempt + 1
  waiting : ∀ y, (catalog s).session k = some y → y.status = .retrying →
    (calls.countP (retries k) : Int) ≤ y.retry.attempt ∧ y.retry.attempt < largestLimit k calls

section Steps

variable {s : MemoryState} {a : Action} {k : UploadSessionID} {y : UploadSession}
  {calls : List (MemoryState × Action)} {now : Time}

lemma largestLimit_le (k : UploadSessionID) (calls : List (MemoryState × Action))
    (p : MemoryState × Action) : largestLimit k calls ≤ largestLimit k (p :: calls) :=
  le_max_right _ _

lemma RetryCount.keep (h : RetryCount k calls s) (hno : retries k (s, a) = false)
    (hkeep : ∀ y', (catalog t).session k = some y' → ∃ y, (catalog s).session k = some y ∧
      y'.retry = y.retry ∧ (y'.status = .retrying → y.status = .retrying)) :
    RetryCount k ((s, a) :: calls) t := by
  have hcount : ((s, a) :: calls).countP (retries k) = calls.countP (retries k) :=
    List.countP_cons_of_neg (by rw [hno]; exact Bool.false_ne_true)
  have hlimit := largestLimit_le k calls (s, a)
  refine ⟨?_, fun y' hy' hmax => ?_, fun y' hy' hmax => ?_, fun y' hy' hstatus => ?_⟩
  · rw [hcount]
    exact h.bounded.trans hlimit
  · obtain ⟨y, hy, hretry, hstatus⟩ := hkeep y' hy'
    rw [hretry] at hmax
    obtain ⟨hzero, hnot⟩ := h.unfailed y hy hmax
    exact ⟨hcount.trans hzero, fun hw => hnot (hstatus hw)⟩
  · obtain ⟨y, hy, hretry, -⟩ := hkeep y' hy'
    rw [hretry] at hmax ⊢
    rw [hcount]
    exact h.failed y hy hmax
  · obtain ⟨y, hy, hretry, hwaiting⟩ := hkeep y' hy'
    obtain ⟨hle, hlt⟩ := h.waiting y hy (hwaiting hstatus)
    rw [hretry, hcount]
    exact ⟨hle, hlt.trans_le hlimit⟩

lemma RetryCount.update (h : RetryCount k calls s) (hno : retries k (s, a) = false)
    (ht : (catalog t).session = Function.update (catalog s).session j (some y'))
    (hy : (catalog s).session j = some y) (hretry : y'.retry = y.retry)
    (hstatus : y'.status ≠ .retrying) : RetryCount k ((s, a) :: calls) t := by
  refine h.keep hno fun z hz => ?_
  rw [ht, update_some_eq_some] at hz
  rcases hz with ⟨rfl, rfl⟩ | ⟨-, hz⟩
  · exact ⟨y, hy, hretry, fun hw => absurd hw hstatus⟩
  · exact ⟨z, hz, rfl, id⟩

lemma RetryCount.fail {req : FailUploadVerificationRequest} (h : RetryCount k calls s)
    (hacc : FailAccepted s req y file)
    (hup : CountsUp s (.call now (.failUploadVerification req)))
    (ht : (catalog t).session = Function.update (catalog s).session req.sessionID
      (some (failedSession when offset req y))) :
    RetryCount k ((s, .call now (.failUploadVerification req)) :: calls) t := by
  have hno : retries k (s, .call now (.failUploadVerification req)) = false := rfl
  by_cases hk : req.sessionID = k
  · subst hk
    have hcount : ((s, .call now (.failUploadVerification req)) :: calls).countP
        (retries req.sessionID) = calls.countP (retries req.sessionID) :=
      List.countP_cons_of_neg (by rw [hno]; exact Bool.false_ne_true)
    have hy := hacc.uploads.session
    have hle : (calls.countP (retries req.sessionID) : Int) ≤ req.attempt := by
      rcases hup req rfl y hy with hmax | hlt
      · rw [(h.unfailed y hy hmax).1]
        exact hacc.attempt
      · by_cases hmax : y.retry.maxAttempts = 0
        · rw [(h.unfailed y hy hmax).1]
          exact hacc.attempt
        · exact (h.failed y hy hmax).trans hlt
    have hlimit : req.maxAttempts ≤ largestLimit req.sessionID
        ((s, .call now (.failUploadVerification req)) :: calls) := by
      refine le_trans ?_ (le_max_left _ _)
      change req.maxAttempts ≤ if req.sessionID = req.sessionID then req.maxAttempts else 0
      rw [if_pos rfl]
    have hself (y' : UploadSession) (hy' : (catalog t).session req.sessionID = some y') :
        y' = failedSession when offset req y := by
      rw [ht, update_self] at hy'
      exact (Option.some.inj hy').symm
    refine ⟨?_, fun y' hy' hmax => ?_, fun y' hy' hmax => ?_, fun y' hy' hstatus => ?_⟩
    · rw [hcount]
      exact h.bounded.trans (largestLimit_le ..)
    · rw [hself y' hy'] at hmax
      exact absurd hmax hacc.maxAttempts.ne'
    · rw [hself y' hy']
      exact hle.trans (Int.le_add_one le_rfl)
    · rw [hself y' hy'] at hstatus ⊢
      refine ⟨hle, lt_of_lt_of_le ?_ hlimit⟩
      change (if req.retryable ∧ req.attempt < req.maxAttempts then UploadStatus.retrying
        else .failed) = .retrying at hstatus
      split_ifs at hstatus with hagain
      exact hagain.2
  · refine h.keep hno fun z hz => ?_
    rw [ht, update_of_ne (Ne.symm hk)] at hz
    exact ⟨z, hz, rfl, id⟩

lemma RetryCount.retry (hw : WellFormed (catalog s)) (h : RetryCount k calls s)
    (hacc : RetryAccepted s req y file)
    (ht : (catalog t).session = Function.update (catalog s).session req.sessionID
      (some (retriedSession when last y))) :
    RetryCount k ((s, .call now (.retryUpload req)) :: calls) t := by
  have hy := hacc.uploads.session
  by_cases hk : req.sessionID = k
  · subst hk
    have hcount : ((s, .call now (.retryUpload req)) :: calls).countP (retries req.sessionID) =
        calls.countP (retries req.sessionID) + 1 := by
      refine List.countP_cons_of_pos ?_
      simp only [retries, decide_true, Bool.true_and, decide_eq_true_eq]
      exact hacc.returns hw
    have hlimit := largestLimit_le req.sessionID calls (s, .call now (.retryUpload req))
    obtain ⟨hle, hlt⟩ := h.waiting y hy hacc.retrying
    have hself (y' : UploadSession) (hy' : (catalog t).session req.sessionID = some y') :
        y' = retriedSession when last y := by
      rw [ht, update_self] at hy'
      exact (Option.some.inj hy').symm
    refine ⟨?_, fun y' hy' hmax => ?_, fun y' hy' hmax => ?_, fun y' hy' hstatus => ?_⟩
    · rw [hcount]
      omega
    · rw [hself y' hy'] at hmax
      exact absurd hacc.retrying (h.unfailed y hy hmax).2
    · rw [hself y' hy', hcount]
      exact Int.add_le_add_right hle 1
    · rw [hself y' hy'] at hstatus
      cases hstatus
  · refine h.keep ?_ fun z hz => ?_
    · simp [retries, hk]
    · rw [ht, update_of_ne (Ne.symm hk)] at hz
      exact ⟨z, hz, rfl, id⟩

lemma sinceStart_cons (p : MemoryState × Action) (history : List (MemoryState × Action)) :
    sinceStart k (p :: history) = if starts k p then [] else p :: sinceStart k history := by
  unfold sinceStart
  rw [List.takeWhile_cons]
  cases starts k p with
  | false | true => rfl

lemma RetryCount.start {req : StartUploadRequest}
    (ht : (catalog t).session = Function.update (catalog s).session req.sessionID
      (some (startedSession when req))) : RetryCount req.sessionID [] t := by
  have hself (y' : UploadSession) (hy' : (catalog t).session req.sessionID = some y') :
      y' = startedSession when req := by
    rw [ht, update_self] at hy'
    exact (Option.some.inj hy').symm
  refine ⟨le_rfl, fun y' hy' _ => ?_, fun y' hy' hmax => ?_, fun y' hy' hstatus => ?_⟩
  · rw [hself y' hy']
    exact ⟨rfl, UploadStatus.noConfusion⟩
  · rw [hself y' hy'] at hmax
    exact absurd rfl hmax
  · rw [hself y' hy'] at hstatus
    cases hstatus

lemma returns_retryUpload_iff (now : Time) (hw : WellFormed (catalog s)) :
    Returns (retryUpload now req) s ↔ UploadAccepted s (.retryUpload req) := by
  constructor
  · rintro ⟨_, t, h⟩
    obtain ⟨y, file, hacc, -⟩ := retryUpload_spec hw h
    exact ⟨y, file, hacc⟩
  · rintro ⟨y, file, hacc⟩
    exact hacc.returns hw

lemma returns_startUpload_iff {req : StartUploadRequest} (now : Time) :
    Returns (startUpload now req) s ↔ UploadAccepted s (.startUpload req) := by
  constructor
  · rintro ⟨_, t, h⟩
    obtain ⟨file, hacc, -⟩ := startUpload_spec h
    exact ⟨file, hacc⟩
  · rintro ⟨file, hacc⟩
    exact hacc.returns

section

variable (hw : WellFormed (catalog s))
include hw

lemma uncounted_of_refused (h : ¬UploadAccepted s call) :
    retries k (s, .call now call) = false ∧ starts k (s, .call now call) = false := by
  cases call with
  | retryUpload req =>
    refine ⟨?_, rfl⟩
    have hrefused := mt (returns_retryUpload_iff now hw).mp h
    simp [retries, hrefused]
  | startUpload req =>
    refine ⟨rfl, ?_⟩
    have hrefused := mt (returns_startUpload_iff now).mp h
    simp [starts, hrefused]
  | _ => exact ⟨rfl, rfl⟩

lemma session_of_other (hother : sessionNamed call = none) (h : Step s (.call now call) t)
    (hy : (catalog t).session k = some y) : (catalog s).session k = some y := by
  cases effect_of_step hw h with
  | same ht => exact ht ▸ hy
  | namespaces ht => exact session_of_namespaceChanges ht hy
  | nodes ht => exact ht.session ▸ hy
  | upload h =>
    cases h with
    | start _ _ | commit _ _ | complete _ _ | verify _ _ | fail _ _ | retry _ _ => cases hother

lemma RetryCount.effect (h : RetryCount k (sinceStart k history) s) (hup : CountsUp s a)
    (heffect : UploadEffect s t a) : RetryCount k (sinceStart k ((s, a) :: history)) t := by
  rw [sinceStart_cons]
  cases heffect with
  | @start now req file hacc ht =>
    by_cases hk : req.sessionID = k
    · subst hk
      have hstarts : starts req.sessionID (s, .call now (.startUpload req)) = true := by
        simp only [starts, decide_true, Bool.true_and, decide_eq_true_eq]
        exact hacc.returns
      rw [if_pos hstarts]
      exact .start (congrArg Catalog.session ht)
    · have hstarts : starts k (s, .call now (.startUpload req)) = false := by simp [starts, hk]
      rw [if_neg (by rw [hstarts]; exact Bool.false_ne_true)]
      refine h.keep rfl fun z hz => ?_
      rw [ht, session_withUpload, update_of_ne (Ne.symm hk)] at hz
      exact ⟨z, hz, rfl, id⟩
  | commit hacc ht | complete hacc ht | verify hacc ht =>
    have hsession := congrArg Catalog.session ht
    exact h.update rfl hsession hacc.uploads.session rfl UploadStatus.noConfusion
  | fail hacc ht => exact h.fail hacc hup (congrArg Catalog.session ht)
  | retry hacc ht => exact h.retry hw hacc (congrArg Catalog.session ht)

theorem RetryCount.step (h : RetryCount k (sinceStart k history) s) (hup : CountsUp s a)
    (hstep : Step s a t) : RetryCount k (sinceStart k ((s, a) :: history)) t := by
  -- Steps that are neither a start nor a retry and leave the sessions alone.
  have hkeep (huncounted : retries k (s, a) = false ∧ starts k (s, a) = false)
      (hsession : ∀ y, (catalog t).session k = some y → (catalog s).session k = some y) :
      RetryCount k (sinceStart k ((s, a) :: history)) t := by
    rw [sinceStart_cons, if_neg (by rw [huncounted.2]; exact Bool.false_ne_true)]
    exact h.keep huncounted.1 fun y hy => ⟨y, hsession y hy, rfl, id⟩
  cases hstep with
  | reorder hsame => exact hkeep ⟨rfl, rfl⟩ fun y hy => sameRecords_iff.mp hsame ▸ hy
  | call now call =>
    cases hnamed : sessionNamed call with
    | none =>
      have hrefused : ¬UploadAccepted s call := by
        intro hacc
        obtain ⟨j, hj⟩ := hacc.sessionNamed
        cases hnamed.symm.trans hj
      exact hkeep (uncounted_of_refused hw hrefused) fun y => session_of_other hw hnamed (.call now call)
    | some j =>
      by_cases hacc : UploadAccepted s call
      · exact h.effect hw hup (hacc.effect hw)
      · have hsame : call.exec now s = s := exec_of_refused hw hnamed hacc
        exact hkeep (uncounted_of_refused hw hacc) fun y hy => by rwa [hsame] at hy

end

end Steps

/-- If each failure of a session reports a larger attempt number than the one before it, the
largest limit reported for the session bounds the retries that succeed. -/
theorem retries_le_largestLimit {history : List (MemoryState × Action)} {s : MemoryState}
    (hrun : ServiceRun history s) (hup : ∀ p ∈ history, CountsUp p.1 p.2) (k : UploadSessionID) :
    ((sinceStart k history).countP (retries k) : Int) ≤ largestLimit k (sinceStart k history) := by
  have hcount : WellFormed (catalog s) ∧ RetryCount k (sinceStart k history) s := by
    induction hrun with
    | start hs =>
      obtain ⟨now, rfl⟩ := bootstrapped_iff.mp hs
      refine ⟨wellFormed_rootState now, le_rfl, fun y hy => ?_, fun y hy => ?_, fun y hy => ?_⟩
      all_goals cases hy
    | next _ hstep ih =>
      obtain ⟨hw, hcount⟩ := ih fun p hp => hup p (List.mem_cons_of_mem _ hp)
      exact ⟨hw.step hstep, hcount.step hw (hup _ List.mem_cons_self) hstep⟩
  exact hcount.2.bounded

def countedRetries : List Call :=
  [rootFile "i1" "f" "a" 0,
    .startUpload { sessionID := "u", fileID := "f" },
    .failUploadVerification { sessionID := "u", errorCode := "E", retryable := true, maxAttempts := 2 },
    .retryUpload { sessionID := "u" },
    .failUploadVerification {
      sessionID := "u", errorCode := "E", retryable := true, attempt := 1, maxAttempts := 2 },
    .retryUpload { sessionID := "u" }]

theorem countedRetries_within_limit :
    (sinceStart "u" (play 1 countedRetries).1).countP (retries "u") = 2 ∧
      ((sinceStart "u" (play 1 countedRetries).1).countP (retries "u") : Int) ≤
        largestLimit "u" (sinceStart "u" (play 1 countedRetries).1) :=
  ⟨by decide +kernel,
    retries_le_largestLimit (serviceRun_play 1 countedRetries) (by decide +kernel) "u"⟩

def uncountedRetries : List Call :=
  [rootFile "i1" "f" "a" 0,
    .startUpload { sessionID := "u", fileID := "f" },
    .failUploadVerification { sessionID := "u", errorCode := "E", retryable := true, maxAttempts := 1 },
    .retryUpload { sessionID := "u" },
    .failUploadVerification { sessionID := "u", errorCode := "E", retryable := true, maxAttempts := 1 },
    .retryUpload { sessionID := "u" }]

theorem uncountedRetries_exceed_limit :
    ServiceRun (play 1 uncountedRetries).1 (play 1 uncountedRetries).2 ∧
      (sinceStart "u" (play 1 uncountedRetries).1).countP (retries "u") = 2 ∧
      largestLimit "u" (sinceStart "u" (play 1 uncountedRetries).1) = 1 :=
  ⟨serviceRun_play 1 uncountedRetries, by decide +kernel, by decide +kernel⟩

end AstraStorage.Proofs
