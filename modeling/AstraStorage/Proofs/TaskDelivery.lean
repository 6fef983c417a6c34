import AstraStorage.Model.TaskQueue
import AstraStorage.Proofs.TaskLife
import Mathlib.Data.Multiset.Filter

/-!
# Tasks in the queues

The system of consumers and broker, seen from one task.
-/

namespace AstraStorage.Proofs
open Lib Prog TaskQueue Function Option Multiset Broker

variable {body : Body} {name key : String} {c d : Consumer} {s : Broker} {e : Envelope} {k : Int}

/-- The envelope with another attempt. -/
def copyOf (e : Envelope) (k : Int) : Envelope := { e with attempt := k }

def copyAttempt (e : Envelope) : Body → Option Int
  | none => none
  | some e' => if copyOf e' e.attempt = e then some e'.attempt else none

def Foreign (key : String) (body : Body) : Prop :=
  ∀ e, body = some e → keyForEnvelope e ≠ .ok key

lemma copyAttempt_eq_some : copyAttempt e body = some k ↔ body = some (copyOf e k) := by
  cases body with
  | none => simp [copyAttempt]
  | some e' =>
    simp only [copyAttempt, ite_none_right_eq_some, some.injEq]
    constructor
    · rintro ⟨h, rfl⟩
      have hcopy := congrArg (fun x => copyOf x e'.attempt) h
      exact hcopy
    · rintro rfl
      exact ⟨rfl, rfl⟩

lemma copyAttempt_copyOf (e : Envelope) (k : Int) : copyAttempt e (some (copyOf e k)) = some k :=
  copyAttempt_eq_some.mpr rfl

lemma Foreign.copyAttempt (hkey : keyForEnvelope e = .ok key) (h : Foreign key body) :
    copyAttempt e body = none := by
  cases hcopy : Proofs.copyAttempt e body with
  | none => rfl
  | some k =>
    have hcopyKey : keyForEnvelope (copyOf e k) = .ok key := hkey
    exact absurd hcopyKey (h _ (copyAttempt_eq_some.mp hcopy))

def retryQueue : Consumer → String
  | .repair => "replica.repair.retry.q"
  | .cleanup => "cleanup.retry.q"
  | .rebalance => "rebalance.retry.q"
  | .failover => "failover.retry.q"

def deadLetterQueue : Consumer → String
  | .repair => "replica.repair.dlq"
  | .cleanup => "cleanup.dlq"
  | .rebalance => "rebalance.dlq"
  | .failover => "failover.dlq"

lemma queue_injective (h : d.queue = c.queue) : d = c := by
  cases c <;> cases d <;> first | rfl | exact absurd h (by decide)

lemma retryQueue_injective (h : retryQueue d = retryQueue c) : d = c := by
  cases c <;> cases d <;> first | rfl | exact absurd h (by decide)

lemma queue_ne_retryQueue : d.queue ≠ retryQueue c := by
  cases c <;> cases d <;> decide

lemma queue_ne_deadLetterQueue : d.queue ≠ deadLetterQueue c := by
  cases c <;> cases d <;> decide

lemma retryQueue_ne_deadLetterQueue : retryQueue d ≠ deadLetterQueue c := by
  cases c <;> cases d <;> decide

lemma retry_binding (c : Consumer) : ∃ routingKey,
    retryRoutingKey c.kind = .ok routingKey ∧
      queueFor retryExchange routingKey = some (retryQueue c) := by
  cases c <;> exact ⟨_, rfl, by decide⟩

lemma dlq_binding (c : Consumer) : ∃ routingKey,
    dlqRoutingKey c.kind = .ok routingKey ∧
      queueFor dlxExchange routingKey = some (deadLetterQueue c) := by
  cases c <;> exact ⟨_, rfl, by decide⟩

lemma return_binding (h : (name, routingKey) ∈ retryQueues) :
    ∃ c, name = retryQueue c ∧ queueFor tasksExchange routingKey = some c.queue := by
  simp only [retryQueues, List.mem_cons, List.not_mem_nil, or_false, Prod.mk.injEq] at h
  rcases h with ⟨rfl, rfl⟩ | ⟨rfl, rfl⟩ | ⟨rfl, rfl⟩ | ⟨rfl, rfl⟩
  · exact ⟨.repair, rfl, by decide⟩
  · exact ⟨.cleanup, rfl, by decide⟩
  · exact ⟨.rebalance, rfl, by decide⟩
  · exact ⟨.failover, rfl, by decide⟩

def copiesIn (e : Envelope) (s : Broker) (name : String) : Multiset Int :=
  (s.queues name).filterMap (copyAttempt e)

section CopiesIn

lemma copiesIn_put_ne (h : name ≠ queue) :
    copiesIn e (s.put queue body) name = copiesIn e s name := by
  simp [copiesIn, put, update_of_ne h]

lemma copiesIn_put_copy :
    copiesIn e (s.put queue (some (copyOf e k))) queue = k ::ₘ copiesIn e s queue := by
  simp only [copiesIn, put, update_self]
  exact filterMap_cons_some _ _ _ (copyAttempt_copyOf e k)

lemma copiesIn_put_none (h : copyAttempt e body = none) :
    copiesIn e (s.put queue body) name = copiesIn e s name := by
  by_cases hname : name = queue
  · subst hname
    simp only [copiesIn, put, update_self]
    exact filterMap_cons_none _ _ h
  · exact copiesIn_put_ne hname

lemma copiesIn_take_ne (h : name ≠ queue) :
    copiesIn e (s.take queue body) name = copiesIn e s name := by
  simp [copiesIn, take, update_of_ne h]

lemma put_take (h : body ∈ s.queues queue) : (s.take queue body).put queue body = s := by
  simp only [put, take, update_self, cons_erase h,
    update_idem, update_eq_self]

lemma copiesIn_take_none (hbody : body ∈ s.queues queue) (h : copyAttempt e body = none) :
    copiesIn e (s.take queue body) name = copiesIn e s name := by
  conv_rhs => rw [← put_take hbody]
  rw [copiesIn_put_none h]

lemma copiesIn_take_copy (hbody : some (copyOf e k) ∈ s.queues queue) :
    copiesIn e (s.take queue (some (copyOf e k))) queue = (copiesIn e s queue).erase k := by
  conv_rhs => rw [← put_take hbody]
  rw [copiesIn_put_copy, erase_cons_head]

lemma mem_copiesIn : k ∈ copiesIn e s name ↔ some (copyOf e k) ∈ s.queues name := by
  rw [copiesIn, mem_filterMap]
  constructor
  · rintro ⟨body, hbody, hcopy⟩
    rwa [copyAttempt_eq_some.mp hcopy] at hbody
  · intro h
    exact ⟨_, h, copyAttempt_copyOf e k⟩

end CopiesIn

section Program

def either (o : ConsumerOp) (result : consumerSteps.Reply o → Bool)
    (onSuccess onFailure : Prog consumerSteps (Except String Unit)) :
    Prog consumerSteps (Except String Unit) :=
  .op o fun r => if result r then onSuccess else onFailure

variable (policy : Policy) (e : Envelope) (c : Consumer) (key : String) (k : Int)

def routeOf : String × String × Int :=
  if policy.withDefaults.maxAttempts ≤ k then
    (dlxExchange, (dlqRoutingKey c.kind).toOption.getD "", k)
  else (retryExchange, (retryRoutingKey c.kind).toOption.getD "", k + 1)

def nacking : Prog consumerSteps (Except String Unit) := .op .nack fun _ => .done (.ok ())

def routing : Prog consumerSteps (Except String Unit) :=
  either (.publish (routeOf policy c k).1 (routeOf policy c k).2.1
      (copyOf e (routeOf policy c k).2.2)) (succeeded (.publish _ _ _))
    (either .ack (succeeded .ack) (.done (.ok ())) nacking) nacking

def acking : Prog consumerSteps (Except String Unit) :=
  either .ack (succeeded .ack) (.done (.ok ())) (routing policy e c k)

def completing : Prog consumerSteps (Except String Unit) :=
  .op (.complete key) fun _ => acking policy e c k

def releasing : Prog consumerSteps (Except String Unit) :=
  .op (.release key) fun _ => routing policy e c k

def executing : Prog consumerSteps (Except String Unit) :=
  either (.execute (copyOf e k)) (succeeded (.execute _)) (completing policy e c key k)
    (releasing policy e c key k)

/-- The rest of a delivery from the point on. -/
def Point.program : Point → Prog consumerSteps (Except String Unit)
  | .claim => either (.claim key) (fun duplicate => duplicate) (acking policy e c k)
      (executing policy e c key k)
  | .execute => executing policy e c key k
  | .complete => completing policy e c key k
  | .release => releasing policy e c key k
  | .ack => acking policy e c k
  | .route => routing policy e c k
  | .ackRouted => either .ack (succeeded .ack) (.done (.ok ())) nacking
  | .nack => nacking
  | .done => .done (.ok ())

variable {policy e c key k}

lemma routeFailure_copy (hkind : e.taskType = c.kind) (hk : 1 ≤ k) :
    routeFailure policy (copyOf e k) = fallible (step (.publish (routeOf policy c k).1
      (routeOf policy c k).2.1 (copyOf e (routeOf policy c k).2.2))) := by
  have hattempt : attemptOf (copyOf e k) = k := if_neg (by change ¬k ≤ 0; omega)
  have htype (j : Int) : (copyOf e j).taskType = c.kind := hkind
  have hnext : nextAttempt (copyOf e k) = copyOf e (k + 1) := by
    rw [nextAttempt, hattempt]
    rfl
  obtain ⟨dlqKey, hdlq, -⟩ := dlq_binding c
  obtain ⟨retryKey, hretry, -⟩ := retry_binding c
  rw [routeFailure, hattempt, hnext, htype, htype, hretry, routeOf, hdlq, hretry]
  by_cases hmax : policy.withDefaults.maxAttempts ≤ k
  · rw [if_pos hmax, if_pos hmax]
    rfl
  · rw [if_neg hmax, if_neg hmax]
    rfl

lemma recover_copy (hkind : e.taskType = c.kind) (hk : 1 ≤ k) :
    (recover policy (some (copyOf e k))).run = routing policy e c k := by
  simp only [recover, processDeliveryFailure, routeFailure_copy hkind hk, routing, either]
  refine congrArg (Prog.op _) (funext fun r => ?_)
  rcases (r : Except String Unit) with _ | _
  · refine congrArg (Prog.op _) (funext fun r => ?_)
    rcases (r : Except String Unit) with _ | _
    · rfl
    · rfl
  · refine congrArg (Prog.op _) (funext fun r => ?_)
    rcases (r : Except String Unit) with _ | _
    · refine congrArg (Prog.op _) (funext fun r => ?_)
      rcases (r : Except String Unit) with _ | _
      · rfl
      · rfl
    · rfl

lemma consume_copy (hkind : e.taskType = c.kind) (hpayload : e.payload.isSome)
    (hkey : keyForEnvelope e = .ok key) (hk : 1 ≤ k) :
    (consume policy c.kind (some (copyOf e k))).run =
      Point.program policy e c key k .claim := by
  have hdecode : decodeTaskDelivery (some (copyOf e k)) c.kind = .ok (copyOf e k) := by
    have htype : (copyOf e k).taskType = c.kind := hkind
    have hsome : (copyOf e k).payload.isNone = false := by
      rw [← not_isSome, Bool.not_eq_false']
      exact hpayload
    simp [decodeTaskDelivery, htype, hsome]
  have hcopyKey : keyForEnvelope (copyOf e k) = .ok key := hkey
  have hrecover : (recover policy (some (copyOf e k))).run = routing policy e c k :=
    recover_copy hkind hk
  simp only [consume, handle, hdecode, executeOnce, hcopyKey]
  refine congrArg (Prog.op _) (funext fun duplicate => ?_)
  rcases (duplicate : Bool) with _ | _
  · refine congrArg (Prog.op _) (funext fun r => ?_)
    rcases (r : Except String Unit) with _ | _
    · exact congrArg (Prog.op _) (funext fun _ => hrecover)
    · refine congrArg (Prog.op _) (funext fun _ => congrArg (Prog.op _) (funext fun r => ?_))
      rcases (r : Except String Unit) with _ | _
      · exact hrecover
      · rfl
  · refine congrArg (Prog.op _) (funext fun r => ?_)
    rcases (r : Except String Unit) with _ | _
    · exact hrecover
    · rfl

end Program

def ForeignOp (key : String) : ConsumerOp → Prop
  | .claim other => other ≠ key
  | .complete other => other ≠ key
  | .release other => other ≠ key
  | .execute e => keyForEnvelope e ≠ .ok key
  | .publish _ _ e => keyForEnvelope e ≠ .ok key
  | .ack => True
  | .nack => True

section Foreign

variable (policy : Policy) (kind : TaskType)

lemma foreign_step (o : ConsumerOp) (h : ForeignOp key o) :
    AsksOnly (ForeignOp key) (TaskQueue.step o) :=
  asksOnly_of_asks ⟨h, fun _ => trivial⟩

lemma foreign_fallible (hx : AsksOnly (ForeignOp key) x) :
    AsksOnly (ForeignOp key) (TaskQueue.fallible x) := by
  refine hx.bind fun r => ?_
  cases r with
  | ok _ => exact asksOnly_pure
  | error err => exact asksOnly_throw

lemma foreign_executeOnce (h : keyForEnvelope e ≠ .ok key) : AsksOnly (ForeignOp key)
      (executeOnce e (TaskQueue.fallible (TaskQueue.step (.execute e)))) := by
  unfold executeOnce
  cases hkey : keyForEnvelope e with
  | error err => exact asksOnly_throw
  | ok other =>
    have hne : other ≠ key := fun heq => h (heq ▸ hkey)
    refine (foreign_step (.claim other) hne).bind fun (duplicate : Bool) => ?_
    refine AsksOnly.ite asksOnly_pure ?_
    refine (foreign_fallible (foreign_step (.execute e) h)).attempt.bind fun r => ?_
    cases r with
    | ok _ => exact (foreign_step (.complete other) hne).bind fun _ => asksOnly_pure
    | error err => exact (foreign_step (.release other) hne).bind fun _ => asksOnly_throw

lemma foreign_handle (h : Foreign key body) :
    AsksOnly (ForeignOp key) (TaskQueue.handle kind body) := by
  unfold TaskQueue.handle
  cases hdecode : decodeTaskDelivery body kind with
  | error err => exact asksOnly_throw
  | ok e =>
    have hbody : body = some e := by
      unfold decodeTaskDelivery at hdecode
      cases body with
      | none => cases hdecode
      | some e' =>
        dsimp only at hdecode
        split_ifs at hdecode
        cases hdecode
        rfl
    refine (foreign_executeOnce (h e hbody)).bind fun _ => ?_
    exact foreign_fallible (foreign_step .ack trivial)

lemma foreign_publishEnvelope {routingKey : Except String String} (h : keyForEnvelope e ≠ .ok key) :
    AsksOnly (ForeignOp key) (publishEnvelope exchange routingKey e) := by
  cases routingKey with
  | error err => exact asksOnly_throw
  | ok routingKey => exact foreign_fallible (foreign_step (.publish exchange routingKey e) h)

lemma foreign_recover (h : Foreign key body) : AsksOnly (ForeignOp key) (recover policy body) := by
  refine AsksOnly.bind (AsksOnly.attempt ?_) fun r => ?_
  · cases body with
    | none => exact asksOnly_throw
    | some e =>
      have he : keyForEnvelope e ≠ .ok key := h e rfl
      refine AsksOnly.bind ?_ fun _ => foreign_fallible (foreign_step .ack trivial)
      exact AsksOnly.ite (foreign_publishEnvelope he) (foreign_publishEnvelope he)
  · cases r with
    | ok _ => exact asksOnly_pure
    | error err =>
      refine (foreign_fallible (foreign_step .nack trivial)).attempt.bind fun r => ?_
      cases r with
      | ok _ | error _ => exact asksOnly_pure

lemma foreign_consume (h : Foreign key body) :
    AsksOnly (ForeignOp key) (consume policy kind body) := by
  refine (foreign_handle kind h).attempt.bind fun r => ?_
  cases r with
  | ok _ => exact asksOnly_pure
  | error err => exact foreign_recover policy h

end Foreign

def results (e : Envelope) (s : Broker) : List Bool :=
  (s.executed.filter fun r => (copyAttempt e (some r.1)).isSome).map Prod.snd

def InPlace (e : Envelope) (c : Consumer) (key : String) (s : Broker) : Prop :=
  ∀ name body, body ∈ s.queues name → Foreign key body ∨ (∃ k, body = some (copyOf e k)) ∧
    (name = c.queue ∨ name = retryQueue c ∨ name = deadLetterQueue c)

lemma InPlace.take (h : InPlace e c key s) : InPlace e c key (s.take name body) := by
  intro other b hb
  by_cases hname : other = name
  · subst hname
    simp only [Broker.take, update_self] at hb
    exact h other b (mem_of_mem_erase hb)
  · simp only [Broker.take, update_of_ne hname] at hb
    exact h other b hb

lemma InPlace.put (h : InPlace e c key s) (hbody : Foreign key body ∨
    (∃ k, body = some (copyOf e k)) ∧
      (name = c.queue ∨ name = retryQueue c ∨ name = deadLetterQueue c)) :
    InPlace e c key (s.put name body) := by
  intro other b hb
  by_cases hname : other = name
  · subst hname
    simp only [Broker.put, update_self, mem_cons] at hb
    rcases hb with rfl | hb
    · exact hbody
    · exact h other b hb
  · simp only [Broker.put, update_of_ne hname] at hb
    exact h other b hb

structure Pictured (e : Envelope) (c : Consumer) (key : String) (s : Broker) (l : Life) : Prop where
  queued : l.queued = copiesIn e s c.queue + copiesIn e s (retryQueue c)
  dead : l.dead = copiesIn e s (deadLetterQueue c)
  held : l.held = (s.unacked c).bind (copyAttempt e)
  runs : l.runs = results e s
  claimed : l.claimed = (s.entries.lookup key).isSome
  placed : InPlace e c key s
  others : ∀ d body, d ≠ c → s.unacked d = some body → Foreign key body

section Pictured

variable {l : Life} (hkey : keyForEnvelope e = .ok key)

lemma Pictured.entries (h : Pictured e c key s l) (entries : Table String Time) :
    Pictured e c key { s with entries := entries }
      { l with claimed := (entries.lookup key).isSome } :=
  ⟨h.queued, h.dead, h.held, h.runs, rfl, h.placed, h.others⟩

lemma Pictured.phase (h : Pictured e c key s l) (phase : Option (Point × Int)) :
    Pictured e c key s { l with phase := phase } :=
  ⟨h.queued, h.dead, h.held, h.runs, h.claimed, h.placed, h.others⟩

include hkey

section

variable (h : Pictured e c key s l)
include h

lemma Pictured.put_foreign (hbody : Foreign key body) : Pictured e c key (s.put name body) l := by
  have hnone := hbody.copyAttempt hkey
  refine ⟨?_, ?_, h.held, h.runs, h.claimed, h.placed.put (.inl hbody), h.others⟩
  · rw [copiesIn_put_none hnone, copiesIn_put_none hnone]
    exact h.queued
  · rw [copiesIn_put_none hnone]
    exact h.dead

lemma Pictured.accept_foreign (hbody : Foreign key body) :
    Pictured e c key (s.accept exchange routingKey body) l := by
  unfold accept
  cases queueFor exchange routingKey with
  | none => exact h
  | some queue => exact h.put_foreign hkey hbody

section

variable (hbody : ∀ body, s.unacked d = some body → Foreign key body)
include hbody

lemma Pictured.acknowledge_foreign : Pictured e c key (s.acknowledge d) l := by
  refine ⟨h.queued, h.dead, ?_, h.runs, h.claimed, h.placed, fun d' body hne hun => ?_⟩
  · rw [h.held]
    by_cases hd : c = d
    · subst hd
      simp only [acknowledge, update_self, bind_none]
      cases hun : s.unacked c with
      | none => rfl
      | some body => exact (hbody body hun).copyAttempt hkey
    · simp only [acknowledge, update_of_ne hd]
  · exact h.others d' body hne (update_none_eq_some.mp hun).2

lemma Pictured.requeue_foreign : Pictured e c key (s.requeue d) l := by
  unfold requeue
  cases hun : s.unacked d with
  | none => exact h
  | some body => exact (h.acknowledge_foreign hkey hbody).put_foreign hkey (hbody body hun)

end

lemma Pictured.take_foreign (hmem : body ∈ s.queues name) (hbody : Foreign key body) :
    Pictured e c key (s.take name body) l := by
  have hnone := hbody.copyAttempt hkey
  refine ⟨?_, ?_, h.held, h.runs, h.claimed, h.placed.take, h.others⟩
  · rw [copiesIn_take_none hmem hnone, copiesIn_take_none hmem hnone]
    exact h.queued
  · rw [copiesIn_take_none hmem hnone]
    exact h.dead

end

omit hkey

section

variable (h : Pictured e c key s l)
include h

lemma Pictured.put_queue :
    Pictured e c key (s.put c.queue (some (copyOf e k))) { l with queued := k ::ₘ l.queued } := by
  refine ⟨?_, ?_, h.held, h.runs, h.claimed, h.placed.put (.inr ⟨⟨k, rfl⟩, .inl rfl⟩), h.others⟩
  · rw [copiesIn_put_copy, copiesIn_put_ne queue_ne_retryQueue.symm, cons_add, h.queued]
  · rw [copiesIn_put_ne queue_ne_deadLetterQueue.symm]
    exact h.dead

lemma Pictured.put_retryQueue : Pictured e c key (s.put (retryQueue c) (some (copyOf e k)))
      { l with queued := k ::ₘ l.queued } := by
  refine ⟨?_, ?_, h.held, h.runs, h.claimed,
    h.placed.put (.inr ⟨⟨k, rfl⟩, .inr (.inl rfl)⟩), h.others⟩
  · rw [copiesIn_put_copy, copiesIn_put_ne queue_ne_retryQueue, add_cons, h.queued]
  · rw [copiesIn_put_ne retryQueue_ne_deadLetterQueue.symm]
    exact h.dead

lemma Pictured.put_deadLetterQueue :
    Pictured e c key (s.put (deadLetterQueue c) (some (copyOf e k)))
      { l with dead := k ::ₘ l.dead } := by
  refine ⟨?_, ?_, h.held, h.runs, h.claimed,
    h.placed.put (.inr ⟨⟨k, rfl⟩, .inr (.inr rfl)⟩), h.others⟩
  · rw [copiesIn_put_ne queue_ne_deadLetterQueue, copiesIn_put_ne retryQueue_ne_deadLetterQueue]
    exact h.queued
  · rw [copiesIn_put_copy, h.dead]

lemma Pictured.acknowledge : Pictured e c key (s.acknowledge c) { l with held := none } := by
  refine ⟨h.queued, h.dead, ?_, h.runs, h.claimed, h.placed, fun d body hd hun => ?_⟩
  · simp [Broker.acknowledge]
  · exact h.others d body hd (update_none_eq_some.mp hun).2

end

lemma Pictured.requeue (hkey : keyForEnvelope e = .ok key) (h : Pictured e c key s l)
    (hbody : ∀ body, s.unacked c = some body →
      Foreign key body ∨ ∃ k, body = some (copyOf e k)) :
    Pictured e c key (s.requeue c) l.requeued := by
  have hheld := h.held
  unfold Broker.requeue Life.requeued
  cases hun : s.unacked c with
  | none =>
    rw [hun] at hheld
    rw [hheld]
    exact ⟨h.queued, h.dead, by rw [hun]; rfl, h.runs, h.claimed, h.placed, h.others⟩
  | some body =>
    rw [hun] at hheld
    rcases hbody body hun with hforeign | ⟨k, rfl⟩
    · have hnone : l.held = none := hheld.trans (hforeign.copyAttempt hkey)
      rw [hnone]
      exact h.acknowledge.put_foreign hkey hforeign
    · have hcopy : l.held = some k := hheld.trans (copyAttempt_copyOf e k)
      rw [hcopy]
      exact h.acknowledge.put_queue

section

variable (h : Pictured e c key s l)
include h

lemma Pictured.route :
    Pictured e c key (s.accept (routeOf policy c k).1 (routeOf policy c k).2.1
      (some (copyOf e (routeOf policy c k).2.2))) (l.routed policy.withDefaults.maxAttempts k) := by
  obtain ⟨dlqKey, hdlq, hdlqQueue⟩ := dlq_binding c
  obtain ⟨retryKey, hretry, hretryQueue⟩ := retry_binding c
  unfold routeOf Life.routed accept
  rw [hdlq, hretry]
  by_cases hmax : policy.withDefaults.maxAttempts ≤ k
  · rw [if_pos hmax, if_pos hmax]
    dsimp only [Except.toOption, getD_some]
    rw [hdlqQueue]
    exact h.put_deadLetterQueue
  · rw [if_neg hmax, if_neg hmax]
    dsimp only [Except.toOption, getD_some]
    rw [hretryQueue]
    exact h.put_retryQueue

lemma Pictured.execute (ok : Bool) :
    Pictured e c key { s with executed := (copyOf e k, ok) :: s.executed }
      { l with runs := ok :: l.runs } := by
  refine ⟨h.queued, h.dead, h.held, ?_, h.claimed, h.placed, h.others⟩
  have hcopy : (copyAttempt e (some (copyOf e k))).isSome = true := by
    rw [copyAttempt_copyOf]
    rfl
  rw [h.runs]
  simp [results, hcopy]

lemma Pictured.deliver (hmem : some (copyOf e k) ∈ s.queues c.queue) : Pictured e c key
      { s.take c.queue (some (copyOf e k)) with
        unacked := update s.unacked c (some (some (copyOf e k))) }
      { l with queued := l.queued.erase k, held := some k } := by
  refine ⟨?_, ?_, ?_, h.runs, h.claimed, h.placed.take, fun d b hd hun => ?_⟩
  · have hk : k ∈ copiesIn e s c.queue := mem_copiesIn.mpr hmem
    change l.queued.erase k = copiesIn e (s.take c.queue (some (copyOf e k))) c.queue +
      copiesIn e (s.take c.queue (some (copyOf e k))) (retryQueue c)
    rw [copiesIn_take_copy hmem, copiesIn_take_ne queue_ne_retryQueue.symm, h.queued,
      erase_add_left_pos _ hk]
  · change l.dead = copiesIn e (s.take c.queue (some (copyOf e k))) (deadLetterQueue c)
    rw [copiesIn_take_ne queue_ne_deadLetterQueue.symm]
    exact h.dead
  · simp [copyAttempt_copyOf]
  · simp only [update_of_ne hd] at hun
    exact h.others d b hd hun

lemma Pictured.returned (hmem : some (copyOf e k) ∈ s.queues (retryQueue c)) : Pictured e c key
      ((s.take (retryQueue c) (some (copyOf e k))).put c.queue (some (copyOf e k))) l := by
  refine ⟨?_, ?_, h.held, h.runs, h.claimed,
    h.placed.take.put (.inr ⟨⟨k, rfl⟩, .inl rfl⟩), h.others⟩
  · have hk : k ∈ copiesIn e s (retryQueue c) := mem_copiesIn.mpr hmem
    rw [copiesIn_put_copy, copiesIn_put_ne queue_ne_retryQueue.symm, copiesIn_take_copy hmem,
      copiesIn_take_ne queue_ne_retryQueue, h.queued, cons_add, ← add_cons,
      cons_erase hk]
  · rw [copiesIn_put_ne queue_ne_deadLetterQueue.symm,
      copiesIn_take_ne retryQueue_ne_deadLetterQueue.symm]
    exact h.dead

end

end Pictured

end AstraStorage.Proofs
