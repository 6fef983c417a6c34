import AstraStorage.Model.TaskQueue

/-!
# Messages that cannot be handled

While the broker takes publishes and acknowledgements, a delivery is set aside unless the failure
path itself fails on the body.
-/

namespace AstraStorage.Proofs
open Lib Prog TaskQueue List

variable {policy : Policy} {c : Consumer} {body : Body} {e : Envelope} {log : List ConsumerOp}

def logged : Semantics consumerSteps (List ConsumerOp)
  | .publish exchange routingKey envelope, log, r, log' =>
      log' = .publish exchange routingKey envelope :: log ∧ r = .ok ()
  | .ack, log, r, log' => log' = .ack :: log ∧ r = .ok ()
  | o, log, _, log' => log' = o :: log

def SetAside (log : List ConsumerOp) : Prop := .ack ∈ log ∧ .nack ∉ log

section Steps

variable (hlog : .nack ∉ log)
include hlog

lemma not_nack_cons (h : .nack ≠ o) : .nack ∉ o :: log :=
  not_mem_cons_of_ne_of_not_mem h hlog

lemma ensures_ack :
    Ensures logged log (fallible (step .ack)) (fun _ => SetAside) fun _ => False := by
  rintro r _ ⟨rfl, rfl⟩
  exact ⟨mem_cons_self, not_nack_cons hlog nofun⟩

lemma ensures_routeFailure (htype : e.taskType = c.kind) :
    Ensures logged log (routeFailure policy e) (fun _ log' => .nack ∉ log') fun _ => False := by
  have hpublish (exchange routingKey : String) (envelope : Envelope) :
      Ensures logged log (fallible (step (.publish exchange routingKey envelope)))
        (fun _ log' => .nack ∉ log') fun _ => False := by
    rintro r _ ⟨rfl, rfl⟩
    exact not_nack_cons hlog nofun
  have hnext : (nextAttempt e).taskType = c.kind := htype
  unfold routeFailure
  rw [hnext, htype]
  refine ensures_ite (fun _ => ?_) fun _ => ?_
  all_goals
    cases c
    all_goals exact hpublish _ _ _

lemma ensures_recover (htype : e.taskType = c.kind) :
    Ensures logged log (recover policy (some e)) (fun _ => SetAside) fun _ => False := by
  have hfailure : Ensures logged log (processDeliveryFailure policy (some e)) (fun _ => SetAside)
      fun _ => False :=
    (ensures_routeFailure hlog htype).bind fun _ log' h => ensures_ack h
  refine hfailure.attempt.bind ?_
  rintro (err | _) log' h
  · exact h.elim
  · exact ensures_pure h

lemma ensures_executeOnce (e : Envelope) :
    Ensures logged log (executeOnce e (fallible (step (.execute e)))) (fun _ log' => .nack ∉ log')
      fun log' => .nack ∉ log' := by
  unfold executeOnce
  cases keyForEnvelope e with
  | error err => exact ensures_throw hlog
  | ok key =>
    rintro (_ | _) _ rfl
    · have hexecuted := not_nack_cons (not_nack_cons hlog (o := .claim key) nofun)
        (o := .execute e) nofun
      rintro (err | _) _ rfl
      · rintro _ _ rfl
        exact not_nack_cons hexecuted nofun
      · rintro _ _ rfl
        exact not_nack_cons hexecuted nofun
    · exact not_nack_cons hlog nofun

end Steps

lemma consume_unknown (h : ∀ e, body = some e → ∀ d : Consumer, e.taskType ≠ d.kind) :
    (consume policy c.kind body).run = .op .nack fun _ => .done (.ok ()) := by
  have hdecode : ∃ err, decodeTaskDelivery body c.kind = .error err := by
    cases body with
    | none => exact ⟨_, rfl⟩
    | some e => exact ⟨_, if_pos (h e rfl c)⟩
  have hroute : ∃ err, processDeliveryFailure policy body = throw err := by
    cases body with
    | none => exact ⟨_, rfl⟩
    | some e =>
      cases htype : e.taskType with
      | other text =>
        have hnext : (nextAttempt e).taskType = .other text := htype
        rw [processDeliveryFailure, routeFailure, hnext, htype]
        split_ifs
        · exact ⟨_, rfl⟩
        · exact ⟨_, rfl⟩
      | replicaRepair => exact absurd htype (h e rfl .repair)
      | cleanup => exact absurd htype (h e rfl .cleanup)
      | rebalance => exact absurd htype (h e rfl .rebalance)
      | failover => exact absurd htype (h e rfl .failover)
  obtain ⟨err, hdecode⟩ := hdecode
  obtain ⟨err', hroute⟩ := hroute
  simp only [consume, handle, hdecode, recover, hroute]
  refine congrArg (Prog.op _) (funext fun r => ?_)
  rcases (r : Except String Unit) with _ | _
  · rfl
  · rfl

/-- A delivery is set aside exactly if its body is an envelope of a task that some consumer takes. -/
theorem delivery_setAside_iff (policy : Policy) (c : Consumer) (body : Body) :
    (∀ r log, (consume policy c.kind body).run.Runs logged [] r log → SetAside log) ↔
      ∃ e, body = some e ∧ ∃ d : Consumer, e.taskType = d.kind := by
  constructor
  · intro h
    by_contra hnot
    have hunknown : ∀ e, body = some e → ∀ d : Consumer, e.taskType ≠ d.kind :=
      fun e he d htype => hnot ⟨e, he, d, htype⟩
    rw [consume_unknown hunknown] at h
    have hrequeued : SetAside [.nack] :=
      wp_iff_runs.mpr h (Except.ok () : Except String Unit) [.nack] rfl
    exact hrequeued.2 mem_cons_self
  · rintro ⟨e, rfl, d, htype⟩ r log hrun
    have hhandle : Ensures logged [] (handle c.kind (some e)) (fun _ => SetAside)
        fun log' => .nack ∉ log' := by
      unfold handle
      cases decodeTaskDelivery (some e) c.kind with
      | error err => exact ensures_throw not_mem_nil
      | ok envelope =>
        refine (ensures_executeOnce not_mem_nil envelope).bind fun _ log' h => ?_
        exact (ensures_ack h).mono (fun _ _ => id) fun _ => False.elim
    have hconsume : Ensures logged [] (consume policy c.kind (some e)) (fun _ => SetAside)
        fun _ => False := by
      refine hhandle.attempt.bind ?_
      rintro (err | _) log' h
      · exact ensures_recover h htype
      · exact ensures_pure h
    have hend := wp_iff_runs.mp hconsume r log hrun
    cases r with
    | error err => exact hend.elim
    | ok => exact hend

/-- A message that is no envelope goes back to the queue as it is. -/
theorem delivery_notJSON : ∃ r log,
    (consume {} Consumer.repair.kind none).run.Runs logged [] r log ∧ .nack ∈ log ∧ .ack ∉ log := by
  refine ⟨.ok (), [.nack], ?_, mem_cons_self, by simp⟩
  exact .op (r := (Except.ok () : Except String Unit)) rfl .done

end AstraStorage.Proofs
