import AstraStorage.Model.CacheConfig
import Mathlib.Algebra.Ring.Int.Defs

/-!
# How long cache entries live

One jitter is added to three times to live, and nothing compares it with them.
-/

namespace AstraStorage.Proofs
open CacheConfig

variable {ttl jitter : Int64} {random : Nat}

def exactTTL (ttl jitter : Int64) (random : Nat) : Int :=
  ttl.toInt + (random % (jitter.toInt * 2 + 1) - jitter.toInt)

def Expires (policy : Policy) (entry : Entry) (random : Nat) : Prop :=
  ∃ t, policy.expiration entry random = some t ∧ 0 < t ∧
    t.toInt = exactTTL (policy.ttl entry) policy.fileMetaTTLJitter random

lemma orDefault_pos {value default : Int64} (h : 0 < default) : 0 < orDefault value default := by
  unfold orDefault
  split_ifs with hvalue
  · exact h
  · exact Int64.not_le.mp hvalue

lemma newPolicy_pos (cfg : ReplicationGroupConfig) :
    0 < (newPolicy cfg).fileMetaTTLJitter ∧ ∀ entry, 0 < (newPolicy cfg).ttl entry := by
  refine ⟨orDefault_pos (by decide), fun entry => ?_⟩
  cases entry with
  | file | downloadPlan | directoryList => exact orDefault_pos (by decide)

lemma applyTTLJitter_exact (hpos : 0 < jitter.toInt) (hlt : jitter.toInt < ttl.toInt)
    (hfits : ttl.toInt + jitter.toInt < 2 ^ 63) :
    ∃ t, applyTTLJitter random ttl jitter = some t ∧ 0 < t ∧
      t.toInt = exactTTL ttl jitter random := by
  have hpositive {t : Int64} (h : 0 < t.toInt) : ¬t ≤ 0 := by
    rw [Int64.not_le, Int64.lt_iff_toInt_lt]
    exact h
  have hwindow : (jitter * 2 + 1).toInt = jitter.toInt * 2 + 1 := by
    have hofInt : jitter * 2 + 1 = Int64.ofInt (jitter.toInt * 2 + 1) := by
      rw [Int64.ofInt_add, Int64.ofInt_mul, Int64.ofInt_toInt]
      rfl
    rw [hofInt, Int64.toInt_ofInt_of_le (by omega) (by omega)]
  have hdraw : 0 ≤ (random : Int) % (jitter.toInt * 2 + 1) := Int.emod_nonneg _ (by omega)
  have hdraw' := Int.emod_lt_of_pos (random : Int) (by omega : 0 < jitter.toInt * 2 + 1)
  have hsum : (ttl + (Int64.ofInt (random % (jitter.toInt * 2 + 1)) - jitter)).toInt =
      exactTTL ttl jitter random := by
    have hofInt : ttl + (Int64.ofInt (random % (jitter.toInt * 2 + 1)) - jitter) =
        Int64.ofInt (exactTTL ttl jitter random) := by
      rw [exactTTL, Int64.ofInt_add, Int64.ofInt_sub, Int64.ofInt_toInt, Int64.ofInt_toInt]
    rw [hofInt, Int64.toInt_ofInt_of_le] <;> unfold exactTTL <;> omega
  refine ⟨_, ?_, Int64.not_le.mp (hpositive ?_), hsum⟩
  · rw [applyTTLJitter, if_neg (not_or.mpr ⟨hpositive (by omega), hpositive hpos⟩)]
    simp only [int63n]
    rw [if_neg (hpositive (by omega)), hwindow]
    rfl
  · rw [hsum, exactTTL]
    omega

/-- All expirations are positive exactly if the jitter is smaller than every time to live and their
sum is in range. -/
theorem expirations_positive_iff (c : Config) :
    (∀ entry random, Expires (newPolicy c.withDefaults.cache) entry random) ↔
      ∀ entry, (newPolicy c.withDefaults.cache).fileMetaTTLJitter <
          (newPolicy c.withDefaults.cache).ttl entry ∧
        ((newPolicy c.withDefaults.cache).ttl entry).toInt +
          (newPolicy c.withDefaults.cache).fileMetaTTLJitter.toInt < 2 ^ 63 := by
  obtain ⟨hjitter, -⟩ := newPolicy_pos c.withDefaults.cache
  set policy := newPolicy c.withDefaults.cache
  have hpos : 0 < policy.fileMetaTTLJitter.toInt := Int64.lt_iff_toInt_lt.mp hjitter
  refine forall_congr' fun entry => ⟨fun h => ?_, ?_⟩
  · -- the smallest and the largest draw
    obtain ⟨least, -, hleast, heq⟩ := h 0
    obtain ⟨most, -, -, heq'⟩ := h (policy.fileMetaTTLJitter.toInt * 2).toNat
    have hbound := most.toInt_lt
    rw [Int64.lt_iff_toInt_lt, heq, exactTTL] at hleast
    rw [heq', exactTTL, Int.emod_eq_of_lt (by omega) (by omega)]
      at hbound
    refine ⟨Int64.lt_iff_toInt_lt.mpr ?_, by omega⟩
    simp at hleast
    omega
  · rintro ⟨hlt, hfits⟩ random
    obtain ⟨t, ht⟩ := applyTTLJitter_exact hpos (Int64.lt_iff_toInt_lt.mp hlt) hfits
    exact ⟨t, (if_pos hjitter).trans ht.1, ht.2⟩

def redisConfig (cache : ReplicationGroupConfig) : Config where
  enabled := true
  sentinelEndpoints := ["sentinel:26379"]
  cache := cache
  coord := { masterSetName := "coord" }

/-- A directory listing lives for ten seconds with thirty seconds of jitter: the default. -/
theorem expiration_negative :
    let c := redisConfig { masterSetName := "cache", directoryListTTL := 10 * second }
    c.validate.isOk = true ∧
      (newPolicy c.withDefaults.cache).expiration .directoryList 0 = some (-20 * second) := by
  decide +kernel

end AstraStorage.Proofs
