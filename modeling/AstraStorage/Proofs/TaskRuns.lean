import AstraStorage.Proofs.TaskDelivery

/-!
# Runs of the task queues

Whatever the consumers and the broker do, it is a step in the life of the task.
-/

namespace AstraStorage.Proofs
open Lib TaskQueue Function List Option Relation

variable {body : Body} {max k : Int} {l' l : Life} {policy : Policy} {e : Envelope} {c d : Consumer}
  {key : String} {s : Broker} {running : Progress} {point : Point} {sys sys' : System}
  {history : List (System × QueueAction)}

section Claims

lemma isSome_of_pruneLocked (h : ((pruneLocked entries now).lookup key).isSome) :
    (entries.lookup key).isSome := by
  rw [pruneLocked, Table.lookup_foldl_erase] at h
  split_ifs at h
  · cases h
  · exact h

lemma claim_self (entries : Table String Time) (key : String) (now : Time) :
    ((claim entries key ttl now).1 = true → (entries.lookup key).isSome) ∧
      ((claim entries key ttl now).2.lookup key).isSome := by
  unfold claim
  dsimp only
  split_ifs with htaken
  · have hsome : ((pruneLocked entries now).lookup key).isSome := by
      obtain ⟨until_, huntil, -⟩ := (Option.any_eq_true ..).mp htaken
      rw [huntil]
      rfl
    exact ⟨fun _ => isSome_of_pruneLocked hsome, hsome⟩
  · refine ⟨fun h => ?_, ?_⟩
    · cases h
    · rw [AList.lookup_insert]
      rfl

lemma claim_other (h : key ≠ other) (hsome : ((claim entries other ttl now).2.lookup key).isSome) :
    (entries.lookup key).isSome := by
  unfold claim at hsome
  dsimp only at hsome
  split_ifs at hsome
  · exact isSome_of_pruneLocked hsome
  · rw [AList.lookup_insert_ne h] at hsome
    exact isSome_of_pruneLocked hsome

end Claims

section Foreign

variable {r : consumerSteps.Reply o} (hkey : keyForEnvelope e = .ok key)

lemma unacked_accept (s : Broker) (exchange routingKey : String) (body : Body) :
    (s.accept exchange routingKey body).unacked = s.unacked := by
  unfold Broker.accept
  cases queueFor exchange routingKey with
  | none | some queue => rfl

lemma unacked_requeue (s : Broker) (d : Consumer) :
    (s.requeue d).unacked = update s.unacked d none := by
  unfold Broker.requeue
  cases hun : s.unacked d with
  | none => exact (update_eq_self_iff.mpr hun.symm).symm
  | some body => rfl

lemma unacked_step (hstep : semantics d o s r t) :
    t.unacked = s.unacked ∨ t.unacked = update s.unacked d none := by
  cases o with
  | claim key =>
    obtain ⟨now, -, rfl⟩ := hstep
    exact .inl rfl
  | complete key =>
    obtain ⟨now, rfl⟩ := hstep
    exact .inl rfl
  | release _ | execute _ =>
    obtain rfl : t = _ := hstep
    exact .inl rfl
  | publish exchange routingKey envelope =>
    rcases hstep with rfl | ⟨-, rfl⟩
    · exact .inl (unacked_accept ..)
    · exact .inl rfl
  | ack =>
    rcases hstep with rfl | ⟨-, rfl⟩
    · exact .inr rfl
    · exact .inl rfl
  | nack =>
    rcases hstep with rfl | ⟨-, rfl⟩
    · exact .inr (unacked_requeue ..)
    · exact .inl rfl

include hkey

lemma Pictured.foreign_step (h : Pictured e c key s l) (ho : ForeignOp key o)
    (hbody : ∀ body, s.unacked d = some body → Foreign key body) (hstep : semantics d o s r t) :
    ∃ claimed, (claimed = true → l.claimed = true) ∧
      Pictured e c key t { l with claimed := claimed } := by
  -- Steps that do not touch the entry for the key.
  have hsame (ht : Pictured e c key t l) : ∃ claimed, (claimed = true → l.claimed = true) ∧
      Pictured e c key t { l with claimed := claimed } := ⟨l.claimed, id, ht⟩
  cases o with
  | claim other =>
    obtain ⟨now, -, rfl⟩ := hstep
    refine ⟨_, fun hsome => ?_, h.entries _⟩
    rw [h.claimed]
    exact claim_other (Ne.symm ho) hsome
  | complete other =>
    obtain ⟨now, rfl⟩ := hstep
    refine ⟨_, fun hsome => ?_, h.entries _⟩
    rw [h.claimed]
    rwa [AList.lookup_insert_ne (Ne.symm ho)] at hsome
  | release other =>
    obtain rfl : t = _ := hstep
    refine ⟨_, fun hsome => ?_, h.entries _⟩
    rw [h.claimed]
    rwa [AList.lookup_erase_ne (Ne.symm ho)] at hsome
  | execute envelope =>
    obtain rfl : t = _ := hstep
    have hnone : copyAttempt e (some envelope) = none :=
      Foreign.copyAttempt hkey fun e' he' => some.inj he' ▸ ho
    refine hsame ⟨h.queued, h.dead, h.held, ?_, h.claimed, h.placed, h.others⟩
    rw [h.runs]
    simp [results, hnone]
  | publish exchange routingKey envelope =>
    have hforeign : Foreign key (some envelope) := fun e' he' => some.inj he' ▸ ho
    rcases hstep with rfl | ⟨-, rfl⟩
    · exact hsame (h.accept_foreign hkey hforeign)
    · exact hsame h
  | ack =>
    rcases hstep with rfl | ⟨-, rfl⟩
    · exact hsame (h.acknowledge_foreign hkey hbody)
    · exact hsame h
  | nack =>
    rcases hstep with rfl | ⟨-, rfl⟩
    · exact hsame (h.requeue_foreign hkey hbody)
    · exact hsame h

lemma Pictured.deliver_foreign (h : Pictured e c key s l) (hmem : body ∈ s.queues d.queue)
    (hforeign : Foreign key body) (hbody : ∀ body, s.unacked d = some body → Foreign key body) :
    Pictured e c key
      { s.take d.queue body with unacked := update s.unacked d (some body) } l := by
  have ht := h.take_foreign hkey hmem hforeign
  refine ⟨ht.queued, ht.dead, ?_, h.runs, h.claimed, ht.placed, fun d' b hd' hun => ?_⟩
  · rw [h.held]
    by_cases hd : c = d
    · subst hd
      simp only [update_self, bind_some, hforeign.copyAttempt hkey]
      cases hun : s.unacked c with
      | none => rfl
      | some b => exact (hbody b hun).copyAttempt hkey
    · simp only [update_of_ne hd]
  · rcases update_some_eq_some.mp hun with ⟨-, rfl⟩ | ⟨-, hun⟩
    · exact hforeign
    · exact h.others d' b hd' hun

end Foreign

/-! ### The system follows the life of the task -/

def AtPhase (policy : Policy) (e : Envelope) (c : Consumer) (key : String) (sys : System) :
    Option (Point × Int) → Prop
  | none => (∀ body, sys.broker.unacked c = some body → Foreign key body) ∧
      ∀ p, sys.running c = some p → p.Asks (ForeignOp key)
  | some (point, k) => 1 ≤ k ∧ sys.running c = some (point.program policy e c key k) ∧
      ∀ body, sys.broker.unacked c = some body → body = some (copyOf e k)

lemma AtPhase.congr {phase : Option (Point × Int)} (h : AtPhase policy e c key sys phase)
    (hun : sys'.broker.unacked c = sys.broker.unacked c) (hc : sys'.running c = sys.running c) :
    AtPhase policy e c key sys' phase := by
  cases phase with
  | none | some phase => simpa only [AtPhase, hun, hc] using h

structure Tracks (policy : Policy) (e : Envelope) (c : Consumer) (key : String) (sys : System)
    (l : Life) : Prop where
  pictured : Pictured e c key sys.broker l
  others : ∀ d p, d ≠ c → sys.running d = some p → p.Asks (ForeignOp key)
  phase : AtPhase policy e c key sys l.phase

section Tracks

section

variable (h : Tracks policy e c key ⟨s, running⟩ l)
include h

lemma Tracks.foreign (hd : d ≠ c ∨ l.phase = none) :
    (∀ body, s.unacked d = some body → Foreign key body) ∧
      ∀ p, running d = some p → p.Asks (ForeignOp key) := by
  by_cases hdc : d = c
  · subst hdc
    have hphase := h.phase
    rw [hd.resolve_left (fun hne => hne rfl)] at hphase
    exact hphase
  · exact ⟨fun body => h.pictured.others d body hdc, fun p => h.others d p hdc⟩

lemma Tracks.aside (hd : d ≠ c ∨ l.phase = none)
    (ht : Pictured e c key t { l with claimed := claimed })
    (hun : ∀ d', d' ≠ d → t.unacked d' = s.unacked d')
    (hbody : ∀ body, t.unacked d = some body → Foreign key body)
    (hq : ∀ p, q = some p → p.Asks (ForeignOp key)) :
    Tracks policy e c key ⟨t, update running d q⟩ { l with claimed := claimed } := by
  refine ⟨ht, fun d' p hd' hp => ?_, ?_⟩
  · by_cases hdd : d' = d
    · subst hdd
      exact hq p ((update_self d' q running).symm.trans hp)
    · exact h.others d' p hd' ((update_of_ne hdd ..).symm.trans hp)
  · by_cases hdc : c = d
    · subst hdc
      rw [show Life.phase _ = none from hd.resolve_left fun hne => hne rfl]
      exact ⟨hbody, fun p hp => hq p ((update_self c q running).symm.trans hp)⟩
    · exact h.phase.congr (hun c hdc) (update_of_ne hdc ..)

lemma Tracks.moved (ht : Pictured e c key t l) (hun : t.unacked = s.unacked) :
    Tracks policy e c key ⟨t, running⟩ l :=
  ⟨ht, h.others, h.phase.congr (congrFun hun c) rfl⟩

lemma Tracks.go (ht : Pictured e c key t l') (hk : 1 ≤ k)
    (hun : ∀ body, t.unacked c = some body → body = some (copyOf e k)) (point : Point) :
    Tracks policy e c key
      ⟨t, update running c (some (point.program policy e c key k))⟩
      { l' with phase := some (point, k) } := by
  refine ⟨ht.phase _, fun d p hd hp => ?_, hk, update_self .., hun⟩
  exact h.others d p hd ((update_of_ne hd ..).symm.trans hp)

lemma Tracks.go_either (ht : Pictured e c key t l') (hk : 1 ≤ k)
    (hun : ∀ body, t.unacked c = some body → body = some (copyOf e k)) (ok : Bool)
    (onSuccess onFailure : Point) : Tracks policy e c key
      ⟨t, update running c (some (if ok then onSuccess.program policy e c key k
        else onFailure.program policy e c key k))⟩
      { l' with phase := some (if ok then onSuccess else onFailure, k) } := by
  cases ok with
  | false => exact h.go ht hk hun onFailure
  | true => exact h.go ht hk hun onSuccess

lemma Tracks.rest (ht : Pictured e c key t l') (hun : t.unacked c = none) :
    Tracks policy e c key ⟨t, update running c none⟩ { l' with phase := none } := by
  refine ⟨ht.phase _, fun d p hd hp => ?_, fun body hb => ?_, fun p hp => ?_⟩
  · exact h.others d p hd ((update_of_ne hd ..).symm.trans hp)
  · cases hun.symm.trans hb
  · cases (update_self c none running).symm.trans hp

lemma Tracks.at (hphase : l.phase = some (point, k)) :
    1 ≤ k ∧ running c = some (point.program policy e c key k) ∧
      ∀ body, s.unacked c = some body → body = some (copyOf e k) := by
  have hat := h.phase
  rw [hphase] at hat
  exact hat

lemma Tracks.idle (hidle : running c = none) : l.phase = none := by
  cases hphase : l.phase with
  | none => rfl
  | some phase =>
    obtain ⟨point, k⟩ := phase
    cases hidle.symm.trans (h.at hphase).2.1

end

lemma Tracks.deliver (hkind : e.taskType = c.kind) (hpayload : e.payload.isSome)
    (hkey : keyForEnvelope e = .ok key) (h : Tracks policy e c key ⟨s, running⟩ l) (hk : 1 ≤ k)
    (hmem : some (copyOf e k) ∈ s.queues c.queue) :
    Tracks policy e c key
      ⟨{ s.take c.queue (some (copyOf e k)) with
          unacked := update s.unacked c (some (some (copyOf e k))) },
        update running c (some (consume policy c.kind (some (copyOf e k))).run)⟩
      { l with queued := l.queued.erase k, held := some k, phase := some (.claim, k) } := by
  rw [consume_copy hkind hpayload hkey hk]
  refine h.go (h.pictured.deliver hmem) hk (fun body hb => ?_) .claim
  exact some.inj (hb.symm.trans (update_self ..))

lemma Tracks.claim (now : Time) (h : Tracks policy e c key ⟨s, running⟩ l)
    (hphase : l.phase = some (.claim, k)) :
    ((TaskQueue.claim s.entries key ttl now).1 = true → l.claimed = true) ∧
      Tracks policy e c key
        ⟨{ s with entries := (TaskQueue.claim s.entries key ttl now).2 },
          update running c (some (if (TaskQueue.claim s.entries key ttl now).1
            then acking policy e c k else executing policy e c key k))⟩
        { l with claimed := true,
                 phase := some (if (TaskQueue.claim s.entries key ttl now).1 then .ack
                   else .execute, k) } := by
  obtain ⟨hk, -, hun⟩ := h.at hphase
  obtain ⟨hduplicate, hclaimed⟩ := claim_self s.entries key now
  refine ⟨fun htaken => h.pictured.claimed.trans (hduplicate htaken), ?_⟩
  have ht := h.pictured.entries (TaskQueue.claim s.entries key ttl now).2
  rw [hclaimed] at ht
  exact h.go_either ht hk hun _ .ack .execute

lemma Tracks.execute (h : Tracks policy e c key ⟨s, running⟩ l)
    (hphase : l.phase = some (.execute, k)) (ok : Bool) :
    Tracks policy e c key
      ⟨{ s with executed := (copyOf e k, ok) :: s.executed },
        update running c (some (if ok then completing policy e c key k
          else releasing policy e c key k))⟩
      { l with runs := ok :: l.runs, phase := some (if ok then .complete else .release, k) } := by
  obtain ⟨hk, -, hun⟩ := h.at hphase
  exact h.go_either (h.pictured.execute ok) hk hun ok .complete .release

end Tracks

/-! ### Steps -/

/-- No message with the key is published. -/
def Apart (key : String) : QueueAction → Prop
  | .published _ _ body => Foreign key body
  | _ => True

def Smooth (e : Envelope) : QueueAction → Prop
  | .perform _ (.execute e') ok => (copyAttempt e (some e')).isSome → ok = false
  | .perform _ (.publish ..) ok => ok = true
  | .perform _ .ack ok => ok = true
  | .restart => False
  | _ => True

section Steps

variable {calm : Prop} {next : consumerSteps.Reply o → Prog consumerSteps (Except String Unit)}
  {r : consumerSteps.Reply o}

lemma Tracks.perform (hkey : keyForEnvelope e = .ok key)
    (h : Tracks policy e c key ⟨s, running⟩ l) (hphase : l.phase = some (point, k))
    (hc : running c = some (.op o next)) (hstep : semantics c o s r t)
    (hcalm : calm → Smooth e (.perform c o (succeeded o r))) :
    ∃ l', Life.Step policy.withDefaults.maxAttempts calm l l' ∧
      Tracks policy e c key ⟨t, update running c (some (next r))⟩ l' := by
  obtain ⟨hk, hprogram, hun⟩ := h.at hphase
  have hnone : ∀ body, (s.acknowledge c).unacked c = some body → body = some (copyOf e k) := by
    intro body hb
    simp [Broker.acknowledge] at hb
  have heq : Prog.op o next = point.program policy e c key k :=
    mem_unique hc hprogram
  cases point with
  | claim =>
    cases heq
    obtain ⟨now, rfl, rfl⟩ := hstep
    obtain ⟨hduplicate, htracks⟩ := h.claim now hphase
    exact ⟨_, .claim hphase hduplicate, htracks⟩
  | execute =>
    cases heq
    obtain rfl : t = _ := hstep
    refine ⟨_, .execute hphase fun h => hcalm h ?_, h.execute hphase _⟩
    rw [copyAttempt_copyOf]
    rfl
  | complete =>
    cases heq
    obtain ⟨now, rfl⟩ := hstep
    refine ⟨_, .complete hphase, ?_⟩
    have ht := h.pictured.entries (s.entries.insert key (now + ttl.toInt))
    rw [AList.lookup_insert] at ht
    exact h.go ht hk hun .ack
  | release =>
    cases heq
    obtain rfl : t = _ := hstep
    refine ⟨_, .release hphase, ?_⟩
    have ht := h.pictured.entries (s.entries.erase key)
    rw [AList.lookup_erase] at ht
    exact h.go ht hk hun .route
  | ack =>
    cases heq
    rcases hstep with rfl | ⟨hfailed, rfl⟩
    · have htracks := h.go_either h.pictured.acknowledge hk hnone (succeeded .ack r) .done .route
      exact ⟨_, .ack hphase (.inl rfl), htracks⟩
    · have htracks := h.go_either h.pictured hk hun (succeeded .ack r) .done .route
      exact ⟨_, .ack hphase (.inr ⟨hfailed, rfl⟩), htracks⟩
  | route =>
    cases heq
    rcases hstep with rfl | ⟨hfailed, rfl⟩
    · refine ⟨_, .route hphase (.inl rfl) hcalm, ?_⟩
      refine h.go_either h.pictured.route hk (fun body hb => ?_) _ .ackRouted .nack
      rw [unacked_accept] at hb
      exact hun body hb
    · refine ⟨_, .route hphase (.inr ⟨hfailed, rfl⟩) hcalm, ?_⟩
      exact h.go_either h.pictured hk hun _ .ackRouted .nack
  | ackRouted =>
    cases heq
    rcases hstep with rfl | ⟨hfailed, rfl⟩
    · refine ⟨_, .ackRouted hphase (.inl rfl) hcalm, ?_⟩
      exact h.go_either h.pictured.acknowledge hk hnone _ .done .nack
    · refine ⟨_, .ackRouted hphase (.inr ⟨hfailed, rfl⟩) hcalm, ?_⟩
      exact h.go_either h.pictured hk hun _ .done .nack
  | nack =>
    cases heq
    rcases hstep with rfl | ⟨-, rfl⟩
    · refine ⟨_, .nack hphase (.inl rfl), ?_⟩
      refine h.go (h.pictured.requeue hkey fun body hb => ?_) hk (fun body hb => ?_) .done
      · exact .inr ⟨k, hun body hb⟩
      · rw [unacked_requeue, update_self] at hb
        cases hb
    · exact ⟨_, .nack hphase (.inr rfl), h.go h.pictured hk hun .done⟩
  | done => cases heq

lemma Tracks.finish (hkey : keyForEnvelope e = .ok key) (h : Tracks policy e c key ⟨s, running⟩ l)
    (hphase : l.phase = some (point, k)) (hc : running c = some (.done result)) :
    Life.Step policy.withDefaults.maxAttempts calm l { l.requeued with phase := none } ∧
      Tracks policy e c key ⟨s.requeue c, update running c none⟩
        { l.requeued with phase := none } := by
  obtain ⟨-, hprogram, hun⟩ := h.at hphase
  have heq : Prog.done result = point.program policy e c key k :=
    mem_unique hc hprogram
  cases point with
  | done =>
    refine ⟨.finish hphase, h.rest (h.pictured.requeue hkey fun body hb => ?_) ?_⟩
    · exact .inr ⟨k, hun body hb⟩
    · rw [unacked_requeue, update_self]
  | claim | execute | complete | release | ack | route | ackRouted | nack => cases heq

lemma Tracks.held (h : Tracks policy e c key ⟨s, running⟩ l) (body : Body)
    (hb : s.unacked c = some body) : Foreign key body ∨ ∃ k, body = some (copyOf e k) := by
  cases hphase : l.phase with
  | none => exact .inl ((h.foreign (.inr hphase)).1 body hb)
  | some phase =>
    obtain ⟨point, k⟩ := phase
    exact .inr ⟨k, (h.at hphase).2.2 body hb⟩

lemma Life.Step.still (l : Life) : Life.Step max calm l l :=
  @Life.Step.aside max calm l l.claimed id

lemma Life.requeued_requeued (l : Life) : l.requeued.requeued = l.requeued := rfl

lemma Pictured.requeue_all (hkey : keyForEnvelope e = .ok key) (ds : List Consumer)
    (h : Pictured e c key s l)
    (hbody : ∀ body, s.unacked c = some body → Foreign key body ∨ ∃ k, body = some (copyOf e k)) :
    Pictured e c key (ds.foldl Broker.requeue s) (if c ∈ ds then l.requeued else l) := by
  induction ds generalizing s l with
  | nil => exact h
  | cons d ds ih =>
    -- Only the message of the consumer itself can be a copy.
    have hafter : ∀ body, (s.requeue d).unacked c = some body →
        Foreign key body ∨ ∃ k, body = some (copyOf e k) := by
      intro body hb
      rw [unacked_requeue, update_none_eq_some] at hb
      exact hbody body hb.2
    by_cases hd : c = d
    · subst hd
      have hrest := ih (h.requeue hkey hbody) hafter
      rw [Life.requeued_requeued, ite_self] at hrest
      rwa [if_pos mem_cons_self]
    · have hrest := ih (h.requeue_foreign hkey fun body => h.others d body (Ne.symm hd)) hafter
      simpa [hd] using hrest

lemma unacked_requeue_all (ds : List Consumer) (s : Broker) (d : Consumer) :
    (ds.foldl Broker.requeue s).unacked d = if d ∈ ds then none else s.unacked d := by
  induction ds generalizing s with
  | nil => rfl
  | cons d' ds ih =>
    rw [foldl_cons, ih, unacked_requeue]
    by_cases hd : d = d'
    · simp [hd]
    · simp [hd]

lemma mem_consumers (c : Consumer) : c ∈ consumers := by
  cases c <;> decide

lemma Tracks.returned (hkey : keyForEnvelope e = .ok key)
    (h : Tracks policy e c key ⟨s, running⟩ l) (hqueue : (name, routingKey) ∈ retryQueues)
    (hbody : body ∈ s.queues name) :
    Tracks policy e c key ⟨(s.take name body).accept tasksExchange routingKey body, running⟩ l := by
  refine h.moved ?_ (unacked_accept ..)
  rcases h.pictured.placed name body hbody with hforeign | ⟨⟨k, rfl⟩, hname⟩
  · exact (h.pictured.take_foreign hkey hbody hforeign).accept_foreign hkey hforeign
  · obtain ⟨d, rfl, hbinding⟩ := return_binding hqueue
    have hd : retryQueue d = retryQueue c := by
      rcases hname with hname | hname | hname
      · exact absurd hname.symm queue_ne_retryQueue
      · exact hname
      · exact absurd hname retryQueue_ne_deadLetterQueue
    obtain rfl := retryQueue_injective hd
    unfold Broker.accept
    rw [hbinding]
    exact h.pictured.returned hbody

lemma Life.aside_or_at (l : Life) (d c : Consumer) :
    (d ≠ c ∨ l.phase = none) ∨ d = c ∧ ∃ point k, l.phase = some (point, k) := by
  by_cases hd : d ≠ c ∨ l.phase = none
  · exact .inl hd
  · simp only [not_or, not_not] at hd
    obtain ⟨⟨point, k⟩, hphase⟩ := ne_none_iff_exists'.mp hd.2
    exact .inr ⟨hd.1, point, k, hphase⟩

/-- Every step of the system is a step in the life of the task. -/
theorem Tracks.step (hkind : e.taskType = c.kind) (hpayload : e.payload.isSome)
    (hkey : keyForEnvelope e = .ok key) (h : Tracks policy e c key sys l)
    (hsound : l.Sound policy.withDefaults.maxAttempts) (hapart : Apart key a)
    (hcalm : calm → Smooth e a) (hstep : QueueStep policy sys a sys') :
    ∃ l', Life.Step policy.withDefaults.maxAttempts calm l l' ∧ Tracks policy e c key sys' l' := by
  cases hstep with
  | @deliver s running d body hidle hbody =>
    rcases h.pictured.placed d.queue body hbody with hforeign | ⟨⟨k, rfl⟩, hname⟩
    · -- Another task.
      have hd : d ≠ c ∨ l.phase = none := by
        by_cases hdc : d = c
        · subst hdc
          exact .inr (h.idle hidle)
        · exact .inl hdc
      have ht := h.pictured.deliver_foreign hkey hbody hforeign (h.foreign hd).1
      refine ⟨_, .still l, h.aside hd ht (fun d' hne => ?_) (fun b hb => ?_) fun p hp => ?_⟩
      · exact update_of_ne hne _ _
      · exact some.inj ((update_self d (some body) s.unacked).symm.trans hb) ▸ hforeign
      · exact some.inj hp ▸ (foreign_consume policy d.kind hforeign).asks
    · have hd : d = c := by
        rcases hname with hname | hname | hname
        · exact queue_injective hname
        · exact absurd hname queue_ne_retryQueue
        · exact absurd hname queue_ne_deadLetterQueue
      subst d
      have hk : k ∈ l.queued := by
        rw [h.pictured.queued]
        exact Multiset.mem_add.mpr (.inl (mem_copiesIn.mpr hbody))
      refine ⟨_, .deliver (h.idle hidle) hk, ?_⟩
      exact h.deliver hkind hpayload hkey (hsound.bounded k (.inl hk)).1 hbody
  | @perform s t running d o next r hc hop =>
    obtain hd | ⟨rfl, point, k, hphase⟩ := l.aside_or_at d c
    · obtain ⟨hbody, hasks⟩ := h.foreign hd
      have hop' := hasks _ hc
      obtain ⟨claimed, hclaimed, ht⟩ := h.pictured.foreign_step hkey hop'.1 hbody hop
      refine ⟨_, .aside hclaimed, h.aside hd ht (fun d' hne => ?_) (fun b hb => ?_) fun p hp => ?_⟩
      · rcases unacked_step hop with hun | hun
        · rw [hun]
        · rw [hun, update_of_ne hne]
      · rcases unacked_step hop with hun | hun
        · exact hbody b (hun ▸ hb)
        · rw [hun, update_self] at hb
          cases hb
      · exact some.inj hp ▸ hop'.2 r
    · exact h.perform hkey hphase hc hop hcalm
  | @finish s running d result hc =>
    obtain hd | ⟨rfl, point, k, hphase⟩ := l.aside_or_at d c
    · obtain ⟨hbody, -⟩ := h.foreign hd
      have ht := h.pictured.requeue_foreign hkey hbody
      refine ⟨_, .still l, h.aside hd ht (fun d' hne => ?_) (fun b hb => ?_) fun p hp => ?_⟩
      · rw [unacked_requeue, update_of_ne hne]
      · rw [unacked_requeue, update_self] at hb
        cases hb
      · cases hp
    · exact ⟨_, h.finish hkey hphase hc⟩
  | @returned s running name routingKey body hqueue hbody =>
    exact ⟨_, .still l, h.returned hkey hqueue hbody⟩
  | @published s running exchange routingKey body =>
    refine ⟨_, .still l, h.moved ?_ (unacked_accept ..)⟩
    exact h.pictured.accept_foreign hkey hapart
  | @restart s running =>
    refine ⟨_, .restart hcalm, ?_, fun d p _ hp => ?_, fun body hb => ?_, fun p hp => ?_⟩
    · have ht := h.pictured.requeue_all hkey consumers h.held
      rw [if_pos (mem_consumers c)] at ht
      exact (ht.entries ∅).phase none
    · cases hp
    · rw [unacked_requeue_all, if_pos (mem_consumers c)] at hb
      cases hb
    · cases hp

end Steps

/-! ### Runs -/

structure Absent (key : String) (sys : System) : Prop where
  queues : ∀ name body, body ∈ sys.broker.queues name → Foreign key body
  unacked : ∀ d body, sys.broker.unacked d = some body → Foreign key body
  running : ∀ d p, sys.running d = some p → p.Asks (ForeignOp key)
  unclaimed : sys.broker.entries.lookup key = none
  unexecuted : ∀ r ∈ sys.broker.executed, keyForEnvelope r.1 ≠ .ok key

def Published (e : Envelope) (c : Consumer) (key : String) (sys : System) : Prop :=
  ∃ before : System, Absent key before ∧
    sys = ⟨before.broker.put c.queue (some e), before.running⟩

def NoCopyLeft (e : Envelope) (c : Consumer) (s : Broker) : Prop :=
  copiesIn e s c.queue = 0 ∧ copiesIn e s (retryQueue c) = 0 ∧
    ∀ k, s.unacked c ≠ some (some (copyOf e k))

def SmoothStep (policy : Policy) (e : Envelope) (key : String) (sys sys' : System) : Prop :=
  ∃ a, QueueStep policy sys a sys' ∧ Apart key a ∧ Smooth e a

section Runs

lemma Absent.results (hkey : keyForEnvelope e = .ok key) (h : Absent key sys) :
    results e sys.broker = [] := by
  unfold Proofs.results
  rw [map_eq_nil_iff, filter_eq_nil_iff]
  intro r hr
  have hforeign : Foreign key (some r.1) :=
    fun e' he' => some.inj he' ▸ h.unexecuted r hr
  rw [hforeign.copyAttempt hkey]
  exact Bool.false_ne_true

lemma Published.tracks (hkey : keyForEnvelope e = .ok key) (h : Published e c key sys) :
    Tracks policy e c key sys { queued := {e.attempt} } := by
  obtain ⟨before, habsent, rfl⟩ := h
  have hnone (name : String) : copiesIn e before.broker name = 0 := by
    refine Multiset.eq_zero_of_forall_notMem fun k hk => ?_
    exact habsent.queues name _ (mem_copiesIn.mp hk) _ rfl hkey
  have hbefore : Pictured e c key before.broker { queued := 0 } := by
    refine ⟨?_, (hnone _).symm, ?_, (habsent.results hkey).symm, ?_,
      fun name body hbody => .inl (habsent.queues name body hbody),
      fun d body _ hun => habsent.unacked d body hun⟩
    · rw [hnone, hnone]
      rfl
    · cases hun : before.broker.unacked c with
      | none => rfl
      | some body => exact ((habsent.unacked c body hun).copyAttempt hkey).symm
    · rw [habsent.unclaimed]
      rfl
  exact ⟨hbefore.put_queue, fun d p _ => habsent.running d p,
    fun body => habsent.unacked c body, fun p => habsent.running c p⟩

theorem tracks_of_run (hkind : e.taskType = c.kind) (hpayload : e.payload.isSome)
    (hkey : keyForEnvelope e = .ok key)
    (hattempt : 1 ≤ e.attempt ∧ e.attempt ≤ policy.withDefaults.maxAttempts)
    (hrun : Run (Published e c key) (QueueStep policy) history sys)
    (hapart : ∀ p ∈ history, Apart key p.2) :
    ∃ l, Tracks policy e c key sys l ∧ l.Sound policy.withDefaults.maxAttempts ∧
      ((∀ p ∈ history, Smooth e p.2) → l.Calm e.attempt policy.withDefaults.maxAttempts) := by
  induction hrun with
  | start h => exact ⟨_, h.tracks hkey, .start hattempt, fun _ => .start hattempt.2⟩
  | @next history s t a _ hstep ih =>
    obtain ⟨l, htracks, hsound, hcalm⟩ := ih fun p hp => hapart p (mem_cons_of_mem _ hp)
    have ha : Apart key a := hapart _ mem_cons_self
    by_cases hsmooth : ∀ p ∈ (s, a) :: history, Smooth e p.2
    · obtain ⟨l', hlife, htracks'⟩ := htracks.step hkind hpayload hkey hsound ha
        (fun _ => hsmooth _ mem_cons_self) hstep
      have hcalm' := hcalm fun p hp => hsmooth p (mem_cons_of_mem _ hp)
      exact ⟨l', htracks', hsound.step hlife, fun _ => hcalm'.step hlife⟩
    · obtain ⟨l', hlife, htracks'⟩ := htracks.step hkind hpayload hkey hsound ha
        False.elim hstep
      exact ⟨l', htracks', hsound.step hlife, fun h => absurd h hsmooth⟩

end Runs

section Progress

variable {first : Int}

lemma Life.Step.length_le (h : Life.Step max calm l l') : l.runs.length ≤ l'.runs.length := by
  cases h with
  | execute _ _ => exact Nat.le_succ _
  | @route l1 k ok _ hrouted _ =>
    rcases hrouted with rfl | ⟨-, rfl⟩
    · exact (congrArg length (Life.routed_rest max k l).2.1).ge
    · exact le_rfl
  | nack _ hrequeued =>
    rcases hrequeued with rfl | rfl
    · exact le_rfl
    · exact le_rfl
  | _ => exact le_rfl

structure Failing (policy : Policy) (e : Envelope) (c : Consumer) (key : String) (first : Int)
    (sys : System) (l : Life) : Prop where
  tracks : Tracks policy e c key sys l
  sound : l.Sound policy.withDefaults.maxAttempts
  calm : l.Calm first policy.withDefaults.maxAttempts

lemma exists_smooth (e : Envelope) (c : Consumer) (o : ConsumerOp) (s : Broker) :
    ∃ r t, semantics c o s r t ∧ Smooth e (.perform c o (succeeded o r)) := by
  cases o with
  | claim key => exact ⟨_, _, ⟨0, rfl, rfl⟩, trivial⟩
  | complete key => exact ⟨(), _, ⟨0, rfl⟩, trivial⟩
  | release key => exact ⟨(), _, rfl, trivial⟩
  | execute envelope => exact ⟨.error "", _, rfl, fun _ => rfl⟩
  | publish _ _ _ | ack => exact ⟨.ok (), _, .inl rfl, rfl⟩
  | nack => exact ⟨.ok (), _, .inl rfl, trivial⟩

lemma exists_finish (c : Consumer) (p : Prog consumerSteps (Except String Unit)) :
    ∀ (s : Broker) (running : Progress), running c = some p →
      ∃ sys', ReflTransGen (SmoothStep policy e key) ⟨s, running⟩ sys' ∧
        sys'.running c = none := by
  induction p with
  | done result =>
    intro s running hc
    refine ⟨_, .single ⟨_, .finish hc, trivial, trivial⟩, ?_⟩
    exact update_self ..
  | op o next ih =>
    intro s running hc
    obtain ⟨r, t, hstep, hsmooth⟩ := exists_smooth e c o s
    obtain ⟨sys', hreach, hidle⟩ := ih r t (update running c (some (next r)))
      (update_self ..)
    exact ⟨sys', .head ⟨_, .perform hc hstep, trivial, hsmooth⟩ hreach, hidle⟩

lemma exists_idle (c : Consumer) (sys : System) :
    ∃ sys', ReflTransGen (SmoothStep policy e key) sys sys' ∧ sys'.running c = none := by
  obtain ⟨s, running⟩ := sys
  cases hc : running c with
  | none => exact ⟨_, .refl, hc⟩
  | some p => exact exists_finish c p s running hc

lemma mem_retryQueues (c : Consumer) : ∃ routingKey, (retryQueue c, routingKey) ∈ retryQueues ∧
    queueFor tasksExchange routingKey = some c.queue := by
  cases c
  · exact ⟨"task.replica.repair", by decide, by decide⟩
  · exact ⟨"task.cleanup", by decide, by decide⟩
  · exact ⟨"task.rebalance", by decide, by decide⟩
  · exact ⟨"task.failover", by decide, by decide⟩

lemma exists_queued (hidle : sys.running c = none) (hk : k ∈ copiesIn e sys.broker c.queue +
    copiesIn e sys.broker (retryQueue c)) :
    ∃ sys', ReflTransGen (SmoothStep policy e key) sys sys' ∧ sys'.running c = none ∧
      some (copyOf e k) ∈ sys'.broker.queues c.queue := by
  obtain ⟨s, running⟩ := sys
  rcases Multiset.mem_add.mp hk with hk | hk
  · exact ⟨_, .refl, hidle, mem_copiesIn.mp hk⟩
  · obtain ⟨routingKey, hmem, hbinding⟩ := mem_retryQueues c
    refine ⟨_, .single ⟨_, .returned hmem (mem_copiesIn.mp hk), trivial, trivial⟩, hidle, ?_⟩
    simp [Broker.accept, hbinding, Broker.put]

lemma Failing.next (h : Failing policy e c key first sys l)
    (hlife : Life.Step policy.withDefaults.maxAttempts True l l')
    (htracks : Tracks policy e c key sys' l') : Failing policy e c key first sys' l' :=
  ⟨htracks, h.sound.step hlife, h.calm.step hlife⟩

lemma Failing.at_claim (h : Failing policy e c key first sys l)
    (hphase : l.phase = some (.claim, k)) : l.claimed = false := by
  have hcalm := h.calm
  rw [Life.Calm, hphase] at hcalm
  exact hcalm.2.1

lemma exists_claimed (h : Failing policy e c key first ⟨s, running⟩ l)
    (hphase : l.phase = some (.claim, k)) :
    ∃ sys' l', SmoothStep policy e key ⟨s, running⟩ sys' ∧ Failing policy e c key first sys' l' ∧
      l'.phase = some (.execute, k) ∧ l'.runs = l.runs := by
  obtain ⟨hduplicate, htracks⟩ := h.tracks.claim 0 hphase
  have hfree : (TaskQueue.claim s.entries key ttl 0).1 = false := by
    cases htaken : (TaskQueue.claim s.entries key ttl 0).1 with
    | false => rfl
    | true => cases (h.at_claim hphase).symm.trans (hduplicate htaken)
  have hstep : SmoothStep policy e key ⟨s, running⟩ _ :=
    ⟨_, .perform (h.tracks.at hphase).2.1 ⟨0, rfl, rfl⟩, trivial, trivial⟩
  refine ⟨_, _, hstep, h.next (.claim hphase hduplicate) htracks, ?_, rfl⟩
  rw [hfree]
  rfl

lemma exists_failed (h : Failing policy e c key first ⟨s, running⟩ l)
    (hphase : l.phase = some (.execute, k)) :
    ∃ sys' l', SmoothStep policy e key ⟨s, running⟩ sys' ∧ Failing policy e c key first sys' l' ∧
      l'.runs.length = l.runs.length + 1 := by
  have htracks := h.tracks.execute hphase false
  have hstep : SmoothStep policy e key ⟨s, running⟩ _ :=
    ⟨_, @QueueStep.perform policy s _ running c (.execute (copyOf e k)) _ (Except.error "")
      (h.tracks.at hphase).2.1 rfl, trivial, fun _ => rfl⟩
  exact ⟨_, _, hstep, h.next (.execute hphase fun _ => rfl) htracks, rfl⟩

lemma Tracks.noCopyLeft_iff (h : Tracks policy e c key sys l) :
    NoCopyLeft e c sys.broker ↔ l.queued = 0 ∧ l.held = none := by
  have hqueued : l.queued = 0 ↔ copiesIn e sys.broker c.queue = 0 ∧
      copiesIn e sys.broker (retryQueue c) = 0 := by
    rw [h.pictured.queued]
    simp only [Multiset.eq_zero_iff_forall_notMem, Multiset.mem_add, not_or, forall_and]
  have hheld : l.held = none ↔ ∀ k, sys.broker.unacked c ≠ some (some (copyOf e k)) := by
    rw [h.pictured.held, bind_eq_none_iff]
    constructor
    · intro hnone k hun
      cases (copyAttempt_copyOf e k).symm.trans (hnone _ hun)
    · intro hne body hun
      cases hcopy : copyAttempt e body with
      | none => rfl
      | some k => exact absurd (copyAttempt_eq_some.mp hcopy ▸ hun) (hne k)
  rw [NoCopyLeft, hqueued, hheld, and_assoc]

lemma Pictured.mem_of_copy (hkey : keyForEnvelope e = .ok key) (h : Pictured e c key s l)
    (hcopy : (∃ name, some (copyOf e k) ∈ s.queues name) ∨
      ∃ d, s.unacked d = some (some (copyOf e k))) :
    k ∈ l.queued ∨ k ∈ l.dead ∨ l.held = some k := by
  have hnot : ¬Foreign key (some (copyOf e k)) := fun hforeign => hforeign _ rfl hkey
  rcases hcopy with ⟨name, hmem⟩ | ⟨d, hun⟩
  · rw [h.queued, h.dead, Multiset.mem_add]
    rcases h.placed name _ hmem with hforeign | ⟨-, rfl | rfl | rfl⟩
    · exact absurd hforeign hnot
    · exact .inl (.inl (mem_copiesIn.mpr hmem))
    · exact .inl (.inr (mem_copiesIn.mpr hmem))
    · exact .inr (.inl (mem_copiesIn.mpr hmem))
  · by_cases hd : d = c
    · subst hd
      rw [h.held, hun]
      exact .inr (.inr (copyAttempt_copyOf e k))
    · exact absurd (h.others d _ hd hun) hnot

section

variable (h : Failing policy e c key first sys l)
include h

lemma Failing.cases :
    (∃ k, l.Alone k ∧ first + l.runs.length ≤ policy.withDefaults.maxAttempts + 1) ∨
      l.Waiting first policy.withDefaults.maxAttempts ∨
        l.Over first policy.withDefaults.maxAttempts := by
  have hcalm := h.calm
  rw [Life.Calm] at hcalm
  cases hphase : l.phase with
  | none =>
    rw [hphase] at hcalm
    exact .inr hcalm.2.2
  | some phase =>
    obtain ⟨point, k⟩ := phase
    rw [hphase] at hcalm
    cases point with
    | claim | route =>
      obtain ⟨halone, -, hlen, hk⟩ := hcalm
      exact .inl ⟨k, halone, by omega⟩
    | execute | release =>
      obtain ⟨halone, hlen, hk⟩ := hcalm
      exact .inl ⟨k, halone, by omega⟩
    | ackRouted | done => exact .inr hcalm.2.2
    | complete | ack | nack => exact hcalm.elim

lemma Failing.over (hqueued : l.queued = 0) (hheld : l.held = none) :
    l.Over first policy.withDefaults.maxAttempts := by
  rcases h.cases with ⟨k, halone, -⟩ | hwaiting | hover
  · cases halone.1.symm.trans hheld
  · exact absurd (hwaiting.1.symm.trans hqueued) (Multiset.singleton_ne_zero _)
  · exact hover

lemma Failing.ended (hqueued : l.queued = 0) (hheld : l.held = none) :
    (results e sys.broker).length = policy.withDefaults.maxAttempts - first + 1 ∧
      (copiesIn e sys.broker (deadLetterQueue c)).card = 1 := by
  obtain ⟨-, hdead, hlength⟩ := h.over hqueued hheld
  rw [← h.tracks.pictured.runs, ← h.tracks.pictured.dead, hdead]
  exact ⟨by omega, rfl⟩

lemma Failing.length_le : first + l.runs.length ≤ policy.withDefaults.maxAttempts + 1 := by
  rcases h.cases with ⟨k, -, hle⟩ | hwaiting | hover
  · exact hle
  · exact hwaiting.2.2.trans (by omega)
  · exact hover.2.2.le

end

section

variable (hkind : e.taskType = c.kind) (hpayload : e.payload.isSome)
  (hkey : keyForEnvelope e = .ok key)
include hkind hpayload hkey

section

variable (h : Failing policy e c key first sys l)
include h

lemma Failing.reach (hreach : ReflTransGen (SmoothStep policy e key) sys sys') :
    ∃ l', Failing policy e c key first sys' l' ∧ l.runs.length ≤ l'.runs.length := by
  induction hreach with
  | refl => exact ⟨l, h, le_rfl⟩
  | tail _ hstep ih =>
    obtain ⟨l1, h1, hle⟩ := ih
    obtain ⟨a, hstep, hapart, hsmooth⟩ := hstep
    obtain ⟨l2, hlife, htracks⟩ := h1.tracks.step hkind hpayload hkey h1.sound hapart
      (fun _ => hsmooth) hstep
    exact ⟨l2, ⟨htracks, h1.sound.step hlife, h1.calm.step hlife⟩, hle.trans hlife.length_le⟩

lemma exists_failure
    (hidle : sys.running c = none) (hmem : some (copyOf e k) ∈ sys.broker.queues c.queue) :
    ∃ sys' l', ReflTransGen (SmoothStep policy e key) sys sys' ∧
      Failing policy e c key first sys' l' ∧ l'.runs.length = l.runs.length + 1 := by
  have hk : k ∈ l.queued := by
    rw [h.tracks.pictured.queued]
    exact Multiset.mem_add.mpr (.inl (mem_copiesIn.mpr hmem))
  have hk1 : 1 ≤ k := (h.sound.bounded k (.inl hk)).1
  have hdelivered := h.next (.deliver (h.tracks.idle hidle) hk)
    (h.tracks.deliver hkind hpayload hkey hk1 hmem)
  have hdeliver : SmoothStep policy e key sys _ := ⟨_, .deliver hidle hmem, trivial, trivial⟩
  obtain ⟨sys1, l1, hclaim, h1, hphase1, hruns1⟩ := exists_claimed hdelivered rfl
  obtain ⟨sys2, l2, hfail, h2, hlength⟩ := exists_failed h1 hphase1
  refine ⟨sys2, l2, .head hdeliver (.head hclaim (.single hfail)), h2, ?_⟩
  rw [hlength, hruns1]

lemma exists_round :
    ∃ sys' l', ReflTransGen (SmoothStep policy e key) sys sys' ∧
      Failing policy e c key first sys' l' ∧
        (l'.queued = 0 ∧ l'.held = none ∨ l.runs.length < l'.runs.length) := by
  obtain ⟨sys1, hreach1, hidle1⟩ : ∃ sys1,
      ReflTransGen (SmoothStep policy e key) sys sys1 ∧ sys1.running c = none :=
    exists_idle c sys
  obtain ⟨l1, h1, hle1⟩ := h.reach hkind hpayload hkey hreach1
  have hcalm := h1.calm
  rw [Life.Calm, h1.tracks.idle hidle1] at hcalm
  obtain ⟨hheld, -, ⟨hqueued, -, -⟩ | ⟨hqueued, -, -⟩⟩ := hcalm
  · have hk : first + (l1.runs.length : Int) ∈ copiesIn e sys1.broker c.queue +
        copiesIn e sys1.broker (retryQueue c) := by
      rw [← h1.tracks.pictured.queued, hqueued]
      exact Multiset.mem_singleton_self _
    obtain ⟨sys2, hreach2, hidle2, hmem⟩ : ∃ sys2,
        ReflTransGen (SmoothStep policy e key) sys1 sys2 ∧ sys2.running c = none ∧
          some (copyOf e (first + l1.runs.length)) ∈ sys2.broker.queues c.queue :=
      exists_queued hidle1 hk
    obtain ⟨l2, h2, hle2⟩ := h1.reach hkind hpayload hkey hreach2
    obtain ⟨sys3, l3, hreach3, h3, hlength⟩ := exists_failure hkind hpayload hkey h2 hidle2 hmem
    exact ⟨sys3, l3, (hreach1.trans hreach2).trans hreach3, h3, .inr (by omega)⟩
  · exact ⟨sys1, l1, hreach1, h1, .inl ⟨hqueued, hheld⟩⟩

theorem exists_end :
    ∃ sys' l', ReflTransGen (SmoothStep policy e key) sys sys' ∧
      Failing policy e c key first sys' l' ∧ l'.queued = 0 ∧ l'.held = none := by
  -- The induction is on the number of attempts that are left.
  induction hn : (policy.withDefaults.maxAttempts + 1 - first - l.runs.length).toNat
    using Nat.strong_induction_on generalizing sys l with
  | _ n ih =>
    obtain ⟨sys1, l1, hreach, h1, hend | hlt⟩ := exists_round hkind hpayload hkey h
    · exact ⟨sys1, l1, hreach, h1, hend⟩
    · have hle := h1.length_le
      obtain ⟨sys2, l2, hreach2, h2, hend⟩ := ih _ (by omega) h1 rfl
      exact ⟨sys2, l2, hreach.trans hreach2, h2, hend⟩

end

end

end Progress

section Runs

/-- A task is not lost and is not tried too often. As long as its handler has not succeeded and
no copy is in the dead-letter queue, a copy is queued, waits for a retry or is held. No copy has an
attempt above the limit. If the handler always fails and nothing else does, it runs once for each
attempt that is left, and then one copy is in the dead-letter queue; such an end can be reached
from wherever the task is. -/
theorem task_kept_and_bounded (hkind : e.taskType = c.kind) (hpayload : e.payload.isSome)
    (hkey : keyForEnvelope e = .ok key)
    (hattempt : 1 ≤ e.attempt ∧ e.attempt ≤ policy.withDefaults.maxAttempts)
    (hrun : Run (Published e c key) (QueueStep policy) history sys)
    (hapart : ∀ p ∈ history, Apart key p.2) :
    (true ∉ results e sys.broker → copiesIn e sys.broker (deadLetterQueue c) = 0 →
      ¬NoCopyLeft e c sys.broker) ∧
    (∀ k, (∃ name, some (copyOf e k) ∈ sys.broker.queues name) ∨
      (∃ d, sys.broker.unacked d = some (some (copyOf e k))) →
        k ≤ policy.withDefaults.maxAttempts) ∧
    ((∀ p ∈ history, Smooth e p.2) →
      (results e sys.broker).length ≤ policy.withDefaults.maxAttempts - e.attempt + 1 ∧
      (NoCopyLeft e c sys.broker →
        (results e sys.broker).length = policy.withDefaults.maxAttempts - e.attempt + 1 ∧
        (copiesIn e sys.broker (deadLetterQueue c)).card = 1) ∧
      ∃ sys', ReflTransGen (SmoothStep policy e key) sys sys' ∧
        NoCopyLeft e c sys'.broker ∧
        (results e sys'.broker).length = policy.withDefaults.maxAttempts - e.attempt + 1 ∧
        (copiesIn e sys'.broker (deadLetterQueue c)).card = 1) := by
  obtain ⟨l, htracks, hsound, hcalm⟩ := tracks_of_run hkind hpayload hkey hattempt hrun hapart
  have hpictured := htracks.pictured
  refine ⟨fun hfailed hdead hfinished => ?_, fun k hcopy => ?_, fun hsmooth => ?_⟩
  · obtain ⟨hqueued, hheld⟩ := htracks.noCopyLeft_iff.mp hfinished
    rcases hsound.live with (hsucceeded | hdead' | hqueued') | hheld'
    · exact hfailed (hpictured.runs ▸ hsucceeded)
    · exact hdead' (hpictured.dead.trans hdead)
    · exact hqueued' hqueued
    · rw [hheld] at hheld'
      cases hheld'
  · refine (hsound.bounded k ?_).2
    exact hpictured.mem_of_copy hkey hcopy
  · have hfailing : Failing policy e c key e.attempt sys l := ⟨htracks, hsound, hcalm hsmooth⟩
    have hlength := hfailing.length_le
    obtain ⟨sys', l', hreach, hfailing', hqueued, hheld⟩ :=
      exists_end hkind hpayload hkey hfailing
    refine ⟨?_, fun hfinished => ?_, sys', hreach, ?_, hfailing'.ended hqueued hheld⟩
    · rw [← hpictured.runs]
      omega
    · obtain ⟨hqueued, hheld⟩ := htracks.noCopyLeft_iff.mp hfinished
      exact hfailing.ended hqueued hheld
    · exact hfailing'.tracks.noCopyLeft_iff.mpr ⟨hqueued, hheld⟩

end Runs

def repairEnvelope : Envelope where
  messageID := "m1"
  eventID := "e1"
  taskType := .replicaRepair
  attempt := 1
  payload := some (.replicaRepair
    { planID := "p1", fileID := "f1", chunkID := "c1", sourceNodeID := "n1", targetNodeID := "n2" })

lemma absent_empty (key : String) : Absent key { broker := { queues := fun _ => 0 } } where
  queues _ _ h := by cases Multiset.notMem_zero _ h
  unacked _ _ h := by cases h
  running _ _ h := by cases h
  unclaimed := rfl
  unexecuted _ h := by cases h

/-- A repair that always fails is tried three times. -/
theorem repairEnvelope_tried_three_times : ∃ sys',
    ReflTransGen (SmoothStep {} repairEnvelope "e1")
      ⟨Broker.put { queues := fun _ => 0 } "replica.repair.q" (some repairEnvelope),
        fun _ => none⟩ sys' ∧
      NoCopyLeft repairEnvelope .repair sys'.broker ∧
      (results repairEnvelope sys'.broker).length = 3 ∧
      (copiesIn repairEnvelope sys'.broker "replica.repair.dlq").card = 1 := by
  have hkey : keyForEnvelope repairEnvelope = .ok "e1" := by decide
  have hrun : Run (Published repairEnvelope .repair "e1") (QueueStep {}) []
      ⟨Broker.put { queues := fun _ => 0 } "replica.repair.q" (some repairEnvelope),
        fun _ => none⟩ := .start ⟨_, absent_empty "e1", rfl⟩
  obtain ⟨-, -, hsmooth⟩ := task_kept_and_bounded rfl rfl hkey (by decide) hrun
    (fun _ hp => by cases hp)
  obtain ⟨-, -, sys', hreach, hfinished, hlength, hdead⟩ := hsmooth fun _ hp => by cases hp
  have hthree : ({} : Policy).withDefaults.maxAttempts - repairEnvelope.attempt + 1 = 3 := by decide
  rw [hthree] at hlength
  exact ⟨sys', hreach, hfinished, by exact_mod_cast hlength, hdead⟩

end AstraStorage.Proofs
