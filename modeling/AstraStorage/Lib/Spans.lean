import Mathlib.Tactic.Lemma

/-!
# Spans of positions

Finitely many half-open ranges leave no position from 0 up to `n` out if none is left out at 0 or
where a range ends.
-/

namespace AstraStorage.Lib

def Covered (spans : List (Int × Int)) (p : Int) : Prop :=
  ∃ span ∈ spans, span.1 ≤ p ∧ p < span.2

instance (spans : List (Int × Int)) (p : Int) : Decidable (Covered spans p) :=
  inferInstanceAs (Decidable (∃ span ∈ spans, span.1 ≤ p ∧ p < span.2))

/-- No position from 0 up to `n` is left out. -/
def ReachesTo (spans : List (Int × Int)) (n : Int) : Prop :=
  ∀ p, 0 ≤ p → p < n → Covered spans p

section

variable {spans spans' : List (Int × Int)} {n p : Int}

lemma reachesTo_of_nonpos (hn : n ≤ 0) : ReachesTo spans n := by
  intro p hp hlt
  omega

lemma ReachesTo.mono (h : ReachesTo spans n) (hsub : ∀ span ∈ spans, span ∈ spans') :
    ReachesTo spans' n := by
  intro p hp hlt
  obtain ⟨span, hspan, hin⟩ := h p hp hlt
  exact ⟨span, hsub span hspan, hin⟩

lemma ReachesTo.extend {m : Int} (h : ReachesTo spans n) (hsub : ∀ span ∈ spans, span ∈ spans')
    (hnext : (n, m) ∈ spans') : ReachesTo spans' m := by
  intro p hp hlt
  by_cases hpn : p < n
  · exact h.mono hsub p hp hpn
  · exact ⟨(n, m), hnext, Int.not_lt.mp hpn, hlt⟩

/-- From a covered position the ends of the spans lead on to every later one. -/
lemma covered_of_ends (h : ∀ q ∈ 0 :: spans.map Prod.snd, 0 ≤ q → q < n → Covered spans q)
    (hlt : p < n) (q : Int) (hq : q ∈ 0 :: spans.map Prod.snd) (hnonneg : 0 ≤ q) (hle : q ≤ p) :
    Covered spans p := by
  induction hm : (p - q).toNat using Nat.strongRecOn generalizing q with
  | _ m ih =>
    obtain ⟨span, hspan, hstart, hend⟩ := h q hq hnonneg (by omega)
    by_cases hin : p < span.2
    · exact ⟨span, hspan, by omega, hin⟩
    · exact ih _ (by omega) span.2 (List.mem_cons_of_mem _ (List.mem_map_of_mem hspan)) (by omega)
        (by omega) rfl

lemma reachesTo_iff :
    ReachesTo spans n ↔ ∀ q ∈ 0 :: spans.map Prod.snd, 0 ≤ q → q < n → Covered spans q :=
  ⟨fun h q _ => h q, fun h _ hp hlt => covered_of_ends h hlt 0 List.mem_cons_self (Int.le_refl 0) hp⟩

end

instance (spans : List (Int × Int)) (n : Int) : Decidable (ReachesTo spans n) :=
  decidable_of_iff _ reachesTo_iff.symm

end AstraStorage.Lib
