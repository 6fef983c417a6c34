import AstraStorage.Proofs.CacheKeys

/-!
# Reading through the cache while others use it

A read through the cache takes the entry, waits for another reader or loads and stores the entry
itself. What it returns is proved here for all conditions that survive its steps.
-/

namespace AstraStorage.Proofs
open Lib Prog ReadCache

variable {α : Type} {faults : RedisFaults} {G : CacheWorld → CacheWorld → Prop}
  {P : CacheWorld → Prop} {Q : CacheValue → CacheWorld → Prop} {key lockKey nullKey : String}
  {loader : CacheM CacheValue}

abbrev CacheTriple (faults : RedisFaults) (G : CacheWorld → CacheWorld → Prop)
    (P : CacheWorld → Prop) (x : CacheM α) (Q : α → CacheWorld → Prop) : Prop :=
  Triple (cacheSemantics faults) G (fun _ => G) P x Q

lemma triple_step {Q : cacheSteps.Reply o → CacheWorld → Prop} (hP : Stable G P)
    (hQ : ∀ r, Stable G (Q r))
    (h : ∀ w r w', P w → CacheStep faults o w r w' → G w w' ∧ Q r w') :
    CacheTriple faults G P (step o) Q := by
  intro w hw t ht r u hu
  obtain ⟨hstep, hr⟩ := h t r u (hP w t hw ht) hu
  exact ⟨hstep, fun x hx => hQ r u x hr hx⟩

lemma triple_neutral (hP : Stable G P) (h : ∀ w r w', P w → CacheStep faults o w r w' → G w w') :
    CacheTriple faults G P (step o) fun _ => P :=
  triple_step hP (fun _ => hP) fun w r w' hw hstep =>
    ⟨h w r w' hw hstep, hP w w' hw (h w r w' hw hstep)⟩

section

variable {ε : Type} {x : CacheM (Except ε α)} (hrefl : ∀ w, G w w)
include hrefl

lemma triple_fallible {Q : α → CacheWorld → Prop} (hQ : ∀ a, Stable G (Q a))
    (h : CacheTriple faults G P x (OnSuccess Q)) : CacheTriple faults G P (fallible x error) Q := by
  refine triple_bind hrefl h ?_
  rintro (e | a)
  · exact triple_throw
  · exact triple_pure (hQ a) fun _ hw => hw

lemma triple_command (hP : Stable G P) (h : CacheTriple faults G P x fun _ => P) :
    CacheTriple faults G P (fallible x error) fun _ => P := by
  refine triple_fallible hrefl (fun _ => hP) (h.post ?_)
  rintro (e | a) w hw
  · trivial
  · exact hw

end

structure ReadsThrough (faults : RedisFaults) (G : CacheWorld → CacheWorld → Prop)
    (P : CacheWorld → Prop) (Q : CacheValue → CacheWorld → Prop) (lockKey key nullKey : String)
    (loader : CacheM CacheValue) : Prop where
  locks : ∀ w locks, G w { w with locks := locks }
  stable : Stable G P
  served : ∀ value, Stable G (Q value)
  found : ∀ w r w', P w → CacheStep faults (.get key) w r w' →
    G w w' ∧ ∀ value, r = .ok (some value) → Q value w'
  load : CacheTriple faults G P loader Q
  set : ∀ value w r w', Q value w → CacheStep faults (.set key value) w r w' → G w w'
  setNull : nullKey ≠ "" → ∀ w r w', CacheStep faults (.set nullKey (.number 1)) w r w' → G w w'
  delNull : nullKey ≠ "" → ∀ w r w', CacheStep faults (.del [nullKey]) w r w' → G w w'

namespace ReadsThrough

section

variable (h : ReadsThrough faults G P Q lockKey key nullKey loader)
include h

lemma refl (w : CacheWorld) : G w w := h.locks w w.locks

lemma get : CacheTriple faults G P (ReadCache.get key) fun r w => P w ∧ ∀ value ∈ r, Q value w := by
  have hstable : ∀ r : Option CacheValue, Stable G fun w => P w ∧ ∀ value ∈ r, Q value w :=
    fun r w w' hw hstep => ⟨h.stable w w' hw.1 hstep,
      fun value hr => h.served value w w' (hw.2 value hr) hstep⟩
  refine triple_fallible h.refl hstable (triple_step h.stable (Stable.onSuccess hstable) ?_)
  intro w r w' hw hstep
  obtain ⟨hstep', hvalue⟩ := h.found w r w' hw hstep
  refine ⟨hstep', onSuccess_of fun r hr => ⟨h.stable w w' hw hstep', fun value hfound => ?_⟩⟩
  exact hvalue value (hr.trans (congrArg Except.ok hfound))

lemma loadAndStore : CacheTriple faults G P (ReadCache.loadAndStore key nullKey loader) Q := by
  refine triple_bind h.refl (h.load.attempt h.refl h.served h.stable
    (fun _ => h.stable) fun _ hw => hw) ?_
  rintro (err | payload)
  · refine Triple.pre (triple_ite (fun hnull => ?_) fun _ => triple_throw) fun w hw => hw.2
    rw [Bool.and_eq_true, decide_eq_true_eq] at hnull
    exact triple_bind h.refl (triple_command h.refl h.stable
      (triple_neutral h.stable fun w r w' _ => h.setNull hnull.2 w r w')) fun _ => triple_throw
  · refine (triple_bind h.refl (triple_command h.refl (h.served payload)
      (triple_neutral (h.served payload) (h.set payload))) fun _ => ?_).pre fun w hw => hw.1
    have hreturn : CacheTriple faults G (Q payload) (pure payload) Q :=
      triple_pure (h.served payload) fun _ hw => hw
    refine triple_ite (fun hnull => triple_bind h.refl ?_ fun _ => hreturn) fun _ => hreturn
    exact triple_command h.refl (h.served payload)
      (triple_neutral (h.served payload) fun w r w' _ => h.delNull hnull w r w')

lemma pollThenLoad (attempts : Nat) :
    CacheTriple faults G P (ReadCache.pollThenLoad key loader attempts) Q := by
  induction attempts with
  | zero => exact h.load
  | succ attempts ih =>
    refine triple_bind h.refl h.get ?_
    rintro (_ | value)
    · exact ih.pre fun w hw => hw.1
    · exact (triple_pure (h.served value) fun _ hw => hw).pre fun w hw => hw.2 value rfl

theorem readThroughWithLock :
    CacheTriple faults G P (ReadCache.readThroughWithLock lockKey key nullKey loader) Q := by
  refine triple_bind h.refl (triple_command h.refl h.stable
    (triple_neutral h.stable fun w r w' _ hstep => ?_)) fun token => ?_
  · cases hstep with
    | perform | token | failedToken _ => exact h.refl w
  refine triple_bind h.refl (triple_command h.refl h.stable
    (triple_neutral h.stable fun w r w' _ hstep => ?_)) fun acquired => ?_
  · obtain ⟨locks, rfl⟩ := locks_of_setNX hstep
    exact h.locks w locks
  cases acquired with
  | false => exact h.pollThenLoad 3
  | true =>
    refine triple_bind h.refl (h.loadAndStore.attempt h.refl h.served h.stable
      (fun _ => h.stable) fun _ hw => hw) fun result => ?_
    have hresult : Stable G fun w => OnSuccess Q result w ∧ P w :=
      (Stable.onSuccess h.served result).and h.stable
    refine triple_bind h.refl (triple_neutral hresult fun w r w' _ hstep => ?_) fun _ => ?_
    · obtain ⟨locks, rfl⟩ := locks_of_compareDelete hstep
      exact h.locks w locks
    cases result with
    | error err => exact triple_throw
    | ok payload => exact (triple_pure (h.served payload) fun _ hw => hw).pre fun _ hw => hw.1

variable {decode : CacheValue → Option α} {R : α → CacheWorld → Prop} (hR : ∀ a, Stable G (R a))
  (hdecode : ∀ value a w, decode value = some a → Q value w → R a w)
include hdecode

lemma decodePayload (value : CacheValue) :
    CacheTriple faults G (Q value) (ReadCache.decodePayload decode value) R := by
  unfold ReadCache.decodePayload
  cases ha : decode value with
  | none => exact triple_throw
  | some a => exact triple_pure (h.served value) fun w => hdecode value a w ha

include hR

lemma loadJSON : CacheTriple faults G P (ReadCache.loadJSON decode key)
    fun r w => P w ∧ ∀ a ∈ r, R a w := by
  refine triple_bind h.refl h.get ?_
  rintro (_ | value)
  · exact (triple_pure h.stable fun w hw => ⟨hw, nofun⟩).pre fun w hw => hw.1
  · cases ha : decode value with
    | none => simpa only [ha] using triple_throw
    | some a =>
      have hfound : ∀ w, P w ∧ (∀ value' ∈ some value, Q value' w) → P w ∧ R a w :=
        fun w hw => ⟨hw.1, hdecode value a w ha (hw.2 value rfl)⟩
      have hreturn : CacheTriple faults G (fun w => P w ∧ R a w) (pure (some a))
          fun r w => P w ∧ ∀ b ∈ r, R b w := by
        refine triple_pure (h.stable.and (hR a)) fun w hw => ⟨hw.1, ?_⟩
        rintro b ⟨⟩
        exact hw.2
      simpa only [ha] using hreturn.pre hfound

end

end ReadsThrough

end AstraStorage.Proofs
