import AstraStorage.Model.CoordinatorSteps
import Mathlib.Data.Multiset.AddSub

/-!
# The task queues

`internal/mds/mq`, `internal/platform/mq/contracts` and `internal/platform/mq/rabbitmq`. A consumer
claims the key of an envelope, runs the handler and acknowledges the message; if that fails it
publishes the envelope once more, to the retry queue or the dead-letter queue.
-/

namespace AstraStorage.TaskQueue
open Lib Coordinator

/-! ### Envelopes -/

/-- The kinds of tasks, and any other text. -/
inductive TaskType where
  | replicaRepair
  | cleanup
  | rebalance
  | failover
  | other (text : String)
  deriving DecidableEq

def TaskType.text : TaskType → String
  | .replicaRepair => "replica.repair"
  | .cleanup => "cleanup"
  | .rebalance => "rebalance"
  | .failover => "failover"
  | .other text => text

/-- The payload is missing if it is not the JSON text of a task. -/
structure Envelope where
  messageID : String
  eventID : String
  taskType : TaskType
  attempt : Int
  payload : Option Task
  deriving DecidableEq

/-- What a message says, or nothing if it is not the JSON text of an envelope. -/
abbrev Body := Option Envelope

/-- The field `plan_id` of a payload. -/
def planID : Task → String
  | .replicaRepair task => task.planID
  | .cleanup task => task.planID
  | .rebalance task => task.planID
  | .failover task => task.planID

/-- The key that marks a task as claimed or done. -/
def keyForEnvelope (envelope : Envelope) : Except String String :=
  if trimSpace envelope.eventID ≠ "" then .ok (trimSpace envelope.eventID)
  else if envelope.payload.any (fun task => trimSpace (planID task) ≠ "") then
    .ok (envelope.taskType.text ++ ":" ++
      trimSpace (envelope.payload.elim "" planID))
  else if trimSpace envelope.messageID ≠ "" then .ok (trimSpace envelope.messageID)
  else .error "rabbitmq idempotency: envelope has no stable identifier"

/-! ### Claims -/

/-- `pruneLocked` of the in-memory store: expired entries go. -/
def pruneLocked (entries : Table String Time) (now : Time) : Table String Time :=
  ((entries.entries.filter fun e => e.2 ≤ now).map Sigma.fst).foldl
    (fun table key => table.erase key) entries

/-- Whether the key is taken, and the entries with the claim if it is not. -/
def claim (entries : Table String Time) (key : String) (ttl : Int64) (now : Time) :
    Bool × Table String Time :=
  let entries := pruneLocked entries now
  if (entries.lookup key).any (· > now) then (true, entries)
  else (false, entries.insert key (now + ttl.toInt))

/-! ### Routing -/

def tasksExchange : String := "astra.tasks"

/-- The exchange of tasks that wait for another attempt. -/
def retryExchange : String := "astra.retry"

/-- The exchange of tasks that are given up. -/
def dlxExchange : String := "astra.dlx"

structure BindingDefinition where
  exchange : String
  queue : String
  routingKey : String

/-- The queues behind the exchanges. -/
def bindings : List BindingDefinition :=
  [{ exchange := tasksExchange, queue := "replica.repair.q", routingKey := "task.replica.repair" },
   { exchange := tasksExchange, queue := "cleanup.q", routingKey := "task.cleanup" },
   { exchange := tasksExchange, queue := "rebalance.q", routingKey := "task.rebalance" },
   { exchange := tasksExchange, queue := "failover.q", routingKey := "task.failover" },
   { exchange := retryExchange, queue := "replica.repair.retry.q",
     routingKey := "retry.replica.repair" },
   { exchange := retryExchange, queue := "cleanup.retry.q", routingKey := "retry.cleanup" },
   { exchange := retryExchange, queue := "rebalance.retry.q", routingKey := "retry.rebalance" },
   { exchange := retryExchange, queue := "failover.retry.q", routingKey := "retry.failover" },
   { exchange := dlxExchange, queue := "replica.repair.dlq", routingKey := "dlq.replica.repair" },
   { exchange := dlxExchange, queue := "cleanup.dlq", routingKey := "dlq.cleanup" },
   { exchange := dlxExchange, queue := "rebalance.dlq", routingKey := "dlq.rebalance" },
   { exchange := dlxExchange, queue := "failover.dlq", routingKey := "dlq.failover" }]

/-- The queue that the exchange puts a message with the key into. -/
def queueFor (exchange routingKey : String) : Option String :=
  (bindings.find? fun b => b.exchange = exchange && b.routingKey = routingKey).map (·.queue)

/-- The retry queues, each with the routing key under which a message goes back to the task
exchange when its time in the queue is over. -/
def retryQueues : List (String × String) :=
  [("replica.repair.retry.q", "task.replica.repair"),
   ("cleanup.retry.q", "task.cleanup"),
   ("rebalance.retry.q", "task.rebalance"),
   ("failover.retry.q", "task.failover")]

def unsupported (taskType : TaskType) : String :=
  "rabbitmq retry: unsupported task type " ++ taskType.text.quote

def retryRoutingKey : TaskType → Except String String
  | .replicaRepair => .ok "retry.replica.repair"
  | .cleanup => .ok "retry.cleanup"
  | .rebalance => .ok "retry.rebalance"
  | .failover => .ok "retry.failover"
  | .other text => .error (unsupported (.other text))

def dlqRoutingKey : TaskType → Except String String
  | .replicaRepair => .ok "dlq.replica.repair"
  | .cleanup => .ok "dlq.cleanup"
  | .rebalance => .ok "dlq.rebalance"
  | .failover => .ok "dlq.failover"
  | .other text => .error (unsupported (.other text))

/-! ### Steps of a consumer -/

/-- `ack` and `nack` are about the message that was delivered, and `execute` hands its task to
the executor of the consumer. -/
inductive ConsumerOp where
  | claim (key : String)
  | complete (key : String)
  | release (key : String)
  | execute (envelope : Envelope)
  | publish (exchange routingKey : String) (envelope : Envelope)
  | ack
  | nack

def consumerSteps : Interface where
  Op := ConsumerOp
  Reply
    | .claim _ => Bool
    | .complete _ => Unit
    | .release _ => Unit
    | .execute _ => Except String Unit
    | .publish .. => Except String Unit
    | .ack => Except String Unit
    | .nack => Except String Unit

abbrev ConsumerM := ExceptT String (Prog consumerSteps)

def step (o : ConsumerOp) : ConsumerM (consumerSteps.Reply o) :=
  ExceptT.mk (Prog.op (I := consumerSteps) o fun r => pure (.ok r))

/-- A step whose failure is the failure of the caller. -/
def fallible (x : ConsumerM (Except String Unit)) : ConsumerM Unit := do
  match ← x with
  | .ok _ => return ()
  | .error err => throw err

/-! ### Consumers -/

/-- `Handler.Execute`: whether the task is a duplicate, in which case it is not executed. -/
def executeOnce (envelope : Envelope) (fn : ConsumerM Unit) : ConsumerM Bool :=
  match keyForEnvelope envelope with
  | .error err => throw err
  | .ok key => do
    let duplicate : Bool ← step (.claim key)
    if duplicate then return true
    else
      match ← Prog.attempt fn with
      | .error err =>
        step (.release key)
        throw err
      | .ok _ =>
        step (.complete key)
        return false

/-- A task of another kind is refused. -/
def decodeTaskDelivery (body : Body) (kind : TaskType) : Except String Envelope :=
  match body with
  | none => .error "unexpected end of JSON input"
  | some envelope =>
    if envelope.taskType ≠ kind then
      .error ("mds mq: unexpected task type " ++ envelope.taskType.text.quote)
    else if envelope.payload.isNone then .error "unexpected end of JSON input"
    else .ok envelope

/-- `Handle` of the consumer for one type of tasks. A duplicate is acknowledged like a task that
was executed. -/
def handle (kind : TaskType) (body : Body) : ConsumerM Unit :=
  match decodeTaskDelivery body kind with
  | .error err => throw err
  | .ok envelope => do
    let _duplicate ← executeOnce envelope (fallible (step (.execute envelope)))
    fallible (step .ack)

/-- `retry.Attempt`. -/
def attemptOf (envelope : Envelope) : Int :=
  if envelope.attempt ≤ 0 then 1 else envelope.attempt

def nextAttempt (envelope : Envelope) : Envelope :=
  { envelope with attempt := attemptOf envelope + 1 }

/-- How often a task is tried. -/
structure Policy where
  maxAttempts : Int := 0

/-- Three attempts by default. -/
def Policy.withDefaults (policy : Policy) : Policy :=
  if policy.maxAttempts ≤ 0 then { policy with maxAttempts := 3 } else policy

def publishEnvelope (exchange : String) (routingKey : Except String String) (envelope : Envelope) :
    ConsumerM Unit :=
  match routingKey with
  | .error err => throw err
  | .ok routingKey => fallible (step (.publish exchange routingKey envelope))

/-- A task is retried until its attempts are used up. -/
def routeFailure (policy : Policy) (envelope : Envelope) : ConsumerM Unit :=
  if attemptOf envelope ≥ policy.withDefaults.maxAttempts then
    publishEnvelope dlxExchange (dlqRoutingKey envelope.taskType) envelope
  else
    publishEnvelope retryExchange (retryRoutingKey (nextAttempt envelope).taskType)
      (nextAttempt envelope)

/-- The delivery is acknowledged only after the task has been routed. -/
def processDeliveryFailure (policy : Policy) (body : Body) : ConsumerM Unit :=
  match body with
  | none => throw "unexpected end of JSON input"
  | some envelope => do
    routeFailure policy envelope
    fallible (step .ack)

/-- What the orchestrator does after a delivery that failed. -/
def recover (policy : Policy) (body : Body) : ConsumerM Unit := do
  match ← Prog.attempt (processDeliveryFailure policy body) with
  | .ok _ => return ()
  | .error _ =>
    match ← Prog.attempt (fallible (step .nack)) with
    | .ok _ => return ()
    | .error _ => return ()

/-- What the orchestrator does with a delivery. -/
def consume (policy : Policy) (kind : TaskType) (body : Body) : ConsumerM Unit := do
  match ← Prog.attempt (handle kind body) with
  | .ok _ => return ()
  | .error _ => recover policy body

/-- The registered consumers. -/
inductive Consumer where
  | repair
  | cleanup
  | rebalance
  | failover
  deriving DecidableEq

def consumers : List Consumer := [.repair, .cleanup, .rebalance, .failover]

def Consumer.queue : Consumer → String
  | .repair => "replica.repair.q"
  | .cleanup => "cleanup.q"
  | .rebalance => "rebalance.q"
  | .failover => "failover.q"

def Consumer.kind : Consumer → TaskType
  | .repair => .replicaRepair
  | .cleanup => .cleanup
  | .rebalance => .rebalance
  | .failover => .failover

/-! ### The broker -/

/-- The messages in the queues, the message that each consumer was given and has not
acknowledged, the entries of the in-memory store that the consumers share, and the envelopes that
were executed, most recent first, each with whether it succeeded. -/
structure Broker where
  queues : String → Multiset Body
  unacked : Consumer → Option Body := fun _ => none
  entries : Table String Time := ∅
  executed : List (Envelope × Bool) := []

namespace Broker

def put (s : Broker) (queue : String) (body : Body) : Broker :=
  { s with queues := Function.update s.queues queue (body ::ₘ s.queues queue) }

def take (s : Broker) (queue : String) (body : Body) : Broker :=
  { s with queues := Function.update s.queues queue ((s.queues queue).erase body) }

/-- A message that no queue is bound for is dropped. -/
def accept (s : Broker) (exchange routingKey : String) (body : Body) : Broker :=
  match queueFor exchange routingKey with
  | none => s
  | some queue => s.put queue body

def acknowledge (s : Broker) (c : Consumer) : Broker :=
  { s with unacked := Function.update s.unacked c none }

/-- An unacknowledged message goes back to its queue. -/
def requeue (s : Broker) (c : Consumer) : Broker :=
  match s.unacked c with
  | none => s
  | some body => (s.acknowledge c).put c.queue body

end Broker

/-- How long a key stays claimed: ten minutes. -/
def ttl : Int64 := 600000000000

/-- What a step of a consumer may answer and leave. A publish or an acknowledgement that failed
may have reached the broker all the same. -/
def semantics (c : Consumer) : Semantics consumerSteps Broker
  | .claim key, s, duplicate, t => ∃ now,
      duplicate = (claim s.entries key ttl now).1 ∧
        t = { s with entries := (claim s.entries key ttl now).2 }
  | .complete key, s, _, t => ∃ now : Time,
      t = { s with entries := s.entries.insert key (now + ttl.toInt) }
  | .release key, s, _, t => t = { s with entries := s.entries.erase key }
  | .execute envelope, s, r, t => t = { s with executed := (envelope, r.isOk) :: s.executed }
  | .publish exchange routingKey envelope, s, r, t =>
      t = s.accept exchange routingKey (some envelope) ∨ r.isOk = false ∧ t = s
  | .ack, s, r, t => t = s.acknowledge c ∨ r.isOk = false ∧ t = s
  | .nack, s, r, t => t = s.requeue c ∨ r.isOk = false ∧ t = s

/-- Whether the step succeeded. -/
def succeeded : (o : ConsumerOp) → consumerSteps.Reply o → Bool
  | .execute _, r => Except.isOk r
  | .publish .., r => Except.isOk r
  | .ack, r => Except.isOk r
  | .nack, r => Except.isOk r
  | .claim _, _ => true
  | .complete _, _ => true
  | .release _, _ => true

/-- How far each consumer has got with the message it was given. -/
abbrev Progress := Consumer → Option (Prog consumerSteps (Except String Unit))

structure System where
  broker : Broker
  running : Progress := fun _ => none

/-- A consumer is given a message, performs a step or is done with the message; a message goes
from a retry queue back to the work queue; a task is published; or the consumers are started
anew, with an empty store. -/
inductive QueueAction where
  | deliver (c : Consumer) (body : Body)
  | perform (c : Consumer) (o : ConsumerOp) (ok : Bool)
  | finish (c : Consumer)
  | returned (retryQueue : String) (body : Body)
  | published (exchange routingKey : String) (body : Body)
  | restart

/-- The steps of broker, producers and consumers; a restart forgets the entries. -/
inductive QueueStep (policy : Policy) : System → QueueAction → System → Prop
  | deliver {s : Broker} {running : Progress}
      {c : Consumer} {body : Body} (hidle : running c = none) (hbody : body ∈ s.queues c.queue) :
      QueueStep policy ⟨s, running⟩ (.deliver c body)
        ⟨{ s.take c.queue body with unacked := Function.update s.unacked c (some body) },
          Function.update running c (some (consume policy c.kind body).run)⟩
  | perform {s t : Broker} {running : Progress}
      {c : Consumer} {o : ConsumerOp} {next : consumerSteps.Reply o → Prog consumerSteps _}
      {r : consumerSteps.Reply o} (hc : running c = some (.op o next))
      (hstep : semantics c o s r t) :
      QueueStep policy ⟨s, running⟩ (.perform c o (succeeded o r))
        ⟨t, Function.update running c (some (next r))⟩
  | finish {s : Broker} {running : Progress}
      {c : Consumer} {r : Except String Unit} (hc : running c = some (.done r)) :
      QueueStep policy ⟨s, running⟩ (.finish c)
        ⟨s.requeue c, Function.update running c none⟩
  | returned {s : Broker} {running : Progress}
      {retryQueue routingKey : String} {body : Body} (hqueue : (retryQueue, routingKey) ∈ retryQueues)
      (hbody : body ∈ s.queues retryQueue) :
      QueueStep policy ⟨s, running⟩ (.returned retryQueue body)
        ⟨(s.take retryQueue body).accept tasksExchange routingKey body, running⟩
  | published {s : Broker} {running : Progress}
      {exchange routingKey : String} {body : Body} :
      QueueStep policy ⟨s, running⟩ (.published exchange routingKey body)
        ⟨s.accept exchange routingKey body, running⟩
  | restart {s : Broker} {running : Progress} :
      QueueStep policy ⟨s, running⟩ .restart
        ⟨{ consumers.foldl Broker.requeue s with entries := ∅ }, fun _ => none⟩

end AstraStorage.TaskQueue
