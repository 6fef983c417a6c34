import Mathlib.Data.Multiset.AddSub

/-!
# The life of a task

What becomes of the copies of one task, whatever else the queues hold. If the handler has not
succeeded, a copy is always somewhere, and undisturbed attempts lead straight to the dead-letter
queue.
-/

namespace AstraStorage.Proofs

variable {point : Point} {max k : Int} {l l' : Life}

inductive Point where
  | claim
  | execute
  | complete
  | release
  | ack
  | route
  | ackRouted
  | nack
  | done

structure Life where
  queued : Multiset Int
  dead : Multiset Int := 0
  held : Option Int := none
  runs : List Bool := []
  claimed : Bool := false
  phase : Option (Point × Int) := none

namespace Life

def requeued (l : Life) : Life :=
  { l with queued := l.held.elim l.queued (· ::ₘ l.queued), held := none }

def routed (max k : Int) (l : Life) : Life :=
  if max ≤ k then { l with dead := k ::ₘ l.dead } else { l with queued := (k + 1) ::ₘ l.queued }

inductive Step (max : Int) (calm : Prop) : Life → Life → Prop
  | aside {l claimed} (hclaimed : claimed = true → l.claimed = true) :
      Step max calm l { l with claimed := claimed }
  | deliver {l : Life} {k : Int} (hphase : l.phase = none) (hk : k ∈ l.queued) :
      Step max calm l
        { l with queued := l.queued.erase k, held := some k, phase := some (.claim, k) }
  | claim {l k duplicate} (hphase : l.phase = some (.claim, k))
      (hduplicate : duplicate = true → l.claimed = true) :
      Step max calm l
        { l with claimed := true, phase := some (if duplicate then .ack else .execute, k) }
  | execute {l k ok} (hphase : l.phase = some (.execute, k))
      (hcalm : calm → ok = false) :
      Step max calm l
        { l with runs := ok :: l.runs, phase := some (if ok then .complete else .release, k) }
  | complete {l : Life} {k : Int} (hphase : l.phase = some (.complete, k)) :
      Step max calm l { l with claimed := true, phase := some (.ack, k) }
  | release {l : Life} {k : Int} (hphase : l.phase = some (.release, k)) :
      Step max calm l { l with claimed := false, phase := some (.route, k) }
  | ack {l k ok held} (hphase : l.phase = some (.ack, k))
      (hheld : held = none ∨ ok = false ∧ held = l.held) :
      Step max calm l { l with held := held, phase := some (if ok then .done else .route, k) }
  | route {l l' k ok} (hphase : l.phase = some (.route, k))
      (hrouted : l' = l.routed max k ∨ ok = false ∧ l' = l) (hcalm : calm → ok = true) :
      Step max calm l { l' with phase := some (if ok then .ackRouted else .nack, k) }
  | ackRouted {l k ok held}
      (hphase : l.phase = some (.ackRouted, k)) (hheld : held = none ∨ ok = false ∧ held = l.held)
      (hcalm : calm → ok = true) :
      Step max calm l { l with held := held, phase := some (if ok then .done else .nack, k) }
  | nack {l l' : Life} {k : Int} (hphase : l.phase = some (.nack, k))
      (hrequeued : l' = l.requeued ∨ l' = l) :
      Step max calm l { l' with phase := some (.done, k) }
  | finish {l : Life} {k : Int} (hphase : l.phase = some (.done, k)) :
      Step max calm l { l.requeued with phase := none }
  | restart {l : Life} (hcalm : ¬calm) :
      Step max calm l { l.requeued with claimed := false, phase := none }

def Bounded (max : Int) (l : Life) : Prop :=
  ∀ k, k ∈ l.queued ∨ k ∈ l.dead ∨ l.held = some k → 1 ≤ k ∧ k ≤ max

def Kept (l : Life) : Prop := true ∈ l.runs ∨ l.dead ≠ 0 ∨ l.queued ≠ 0

def Live (l : Life) : Prop := l.Kept ∨ l.held.isSome

def Settled (l : Life) : Prop := l.claimed = true → true ∈ l.runs

def Holds : Point → Life → Prop
  | .execute, _ => True
  | .release, _ => True
  | .complete, l => true ∈ l.runs
  | .ack, l => true ∈ l.runs
  | .ackRouted, l => l.Settled ∧ l.Kept
  | _, l => l.Settled

structure Sound (max : Int) (l : Life) : Prop where
  bounded : l.Bounded max
  live : l.Live
  idle : l.phase = none → l.held = none ∧ l.Settled
  busy : ∀ point k, l.phase = some (point, k) →
    (1 ≤ k ∧ k ≤ max) ∧ (l.held = none ∨ l.held = some k) ∧ Holds point l

section Sound

variable {calm : Prop}

lemma mem_requeued : k ∈ l.requeued.queued ↔ k ∈ l.queued ∨ l.held = some k := by
  unfold requeued
  cases l.held with
  | none => simp
  | some j => simp [or_comm, eq_comm]

lemma Bounded.requeued (h : l.Bounded max) : l.requeued.Bounded max := by
  rintro k (hk | hk | hk)
  · rcases mem_requeued.mp hk with hk | hk
    · exact h k (.inl hk)
    · exact h k (.inr (.inr hk))
  · exact h k (.inr (.inl hk))
  · cases hk

lemma Live.requeued (h : l.Live) : l.requeued.Kept := by
  rcases h with (hrun | hdead | hqueued) | hheld
  · exact .inl hrun
  · exact .inr (.inl hdead)
  · obtain ⟨k, hk⟩ := Multiset.exists_mem_of_ne_zero hqueued
    exact .inr (.inr fun h0 => Multiset.notMem_zero k (h0 ▸ mem_requeued.mpr (.inl hk)))
  · obtain ⟨k, hk⟩ := Option.isSome_iff_exists.mp hheld
    exact .inr (.inr fun h0 => Multiset.notMem_zero k (h0 ▸ mem_requeued.mpr (.inr hk)))

lemma routed_cases (max k : Int) (l : Life) :
    max ≤ k ∧ l.routed max k = { l with dead := k ::ₘ l.dead } ∨
      k < max ∧ l.routed max k = { l with queued := (k + 1) ::ₘ l.queued } := by
  by_cases h : max ≤ k
  · exact .inl ⟨h, if_pos h⟩
  · exact .inr ⟨Int.not_le.mp h, if_neg h⟩

lemma Bounded.routed (h : l.Bounded max) (hk : 1 ≤ k ∧ k ≤ max) : (l.routed max k).Bounded max := by
  rcases routed_cases max k l with ⟨-, heq⟩ | ⟨hlt, heq⟩
  · rw [heq]
    rintro j (hj | hj | hj)
    · exact h j (.inl hj)
    · rcases Multiset.mem_cons.mp hj with rfl | hj
      · exact hk
      · exact h j (.inr (.inl hj))
    · exact h j (.inr (.inr hj))
  · rw [heq]
    rintro j (hj | hj | hj)
    · rcases Multiset.mem_cons.mp hj with rfl | hj
      · omega
      · exact h j (.inl hj)
    · exact h j (.inr (.inl hj))
    · exact h j (.inr (.inr hj))

lemma routed_rest (max k : Int) (l : Life) :
    (l.routed max k).held = l.held ∧ (l.routed max k).runs = l.runs ∧
      (l.routed max k).claimed = l.claimed := by
  rcases routed_cases max k l with ⟨-, heq⟩ | ⟨-, heq⟩
  · rw [heq]
    exact ⟨rfl, rfl, rfl⟩
  · rw [heq]
    exact ⟨rfl, rfl, rfl⟩

lemma kept_routed : (l.routed max k).Kept := by
  rcases routed_cases max k l with ⟨-, heq⟩ | ⟨-, heq⟩
  · rw [heq]
    exact .inr (.inl Multiset.cons_ne_zero)
  · rw [heq]
    exact .inr (.inr Multiset.cons_ne_zero)

lemma Sound.start (h : 1 ≤ k ∧ k ≤ max) : Sound max { queued := {k} } where
  bounded := by
    rintro j (hj | hj | hj)
    · rwa [Multiset.mem_singleton.mp hj]
    · exact absurd hj (Multiset.notMem_zero j)
    · cases hj
  live := .inl (.inr (.inr (Multiset.singleton_ne_zero k)))
  idle _ := ⟨rfl, fun h => by cases h⟩
  busy := by
    rintro point k ⟨⟩

lemma Sound.of_idle (hbounded : l.Bounded max) (hkept : l.Kept) (hphase : l.phase = none)
    (hheld : l.held = none) (hsettled : l.Settled) : Sound max l where
  bounded := hbounded
  live := .inl hkept
  idle _ := ⟨hheld, hsettled⟩
  busy := by
    intro point k h
    rw [hphase] at h
    cases h

lemma Sound.of_busy (hbounded : l.Bounded max) (hlive : l.Live) (hphase : l.phase = some (point, k))
    (hk : 1 ≤ k ∧ k ≤ max) (hheld : l.held = none ∨ l.held = some k) (hholds : Holds point l) :
    Sound max l where
  bounded := hbounded
  live := hlive
  idle h := by
    rw [hphase] at h
    cases h
  busy point' k' h := by
    rw [hphase] at h
    cases h
    exact ⟨hk, hheld, hholds⟩

lemma Sound.moved {runs : List Bool} {claimed : Bool} (h : Sound max l) (hk : 1 ≤ k ∧ k ≤ max)
    (hheld : l.held = none ∨ l.held = some k) (hruns : true ∈ l.runs → true ∈ runs)
    (hholds : Holds point { l with runs := runs, claimed := claimed, phase := some (point, k) }) :
    Sound max { l with runs := runs, claimed := claimed, phase := some (point, k) } :=
  .of_busy h.bounded (h.live.imp_left (Or.imp_left hruns)) rfl hk hheld hholds

lemma Sound.acked {held : Option Int} (h : Sound max l) (hk : 1 ≤ k ∧ k ≤ max)
    (hold : l.held = none ∨ l.held = some k) (hheld : held = none ∨ held = l.held) (hkept : l.Kept)
    (hholds : Holds point { l with held := held, phase := some (point, k) }) :
    Sound max { l with held := held, phase := some (point, k) } := by
  refine .of_busy ?_ (.inl hkept) rfl hk ?_ hholds
  · rintro j (hj | hj | hj)
    · exact h.bounded j (.inl hj)
    · exact h.bounded j (.inr (.inl hj))
    · rcases hheld with rfl | rfl
      · cases hj
      · exact h.bounded j (.inr (.inr hj))
  · rcases hheld with rfl | rfl
    · exact .inl rfl
    · exact hold

theorem Sound.step (h : Sound max l) (hstep : Step max calm l l') : Sound max l' := by
  cases hstep with
  | @aside claimed hclaimed =>
    refine ⟨h.bounded, h.live, fun hphase => ?_, fun point k hphase => ?_⟩
    · obtain ⟨hheld, hsettled⟩ := h.idle hphase
      exact ⟨hheld, fun hc => hsettled (hclaimed hc)⟩
    · obtain ⟨hk, hheld, hholds⟩ := h.busy point k hphase
      refine ⟨hk, hheld, ?_⟩
      cases point with
      | execute | release => trivial
      | complete | ack => exact hholds
      | ackRouted => exact ⟨fun hc => hholds.1 (hclaimed hc), hholds.2⟩
      | claim | route | nack | done => exact fun hc => hholds (hclaimed hc)
  | @deliver k hphase hk =>
    refine .of_busy ?_ (.inr rfl) rfl (h.bounded k (.inl hk)) (.inr rfl) (h.idle hphase).2
    rintro j (hj | hj | hj)
    · exact h.bounded j (.inl (Multiset.mem_of_mem_erase hj))
    · exact h.bounded j (.inr (.inl hj))
    · cases hj
      exact h.bounded k (.inl hk)
  | @claim k duplicate hphase hduplicate =>
    obtain ⟨hk, hheld, hsettled⟩ := h.busy _ _ hphase
    refine h.moved hk hheld id ?_
    cases duplicate with
    | false => trivial
    | true => exact hsettled (hduplicate rfl)
  | @execute k ok hphase =>
    obtain ⟨hk, hheld, -⟩ := h.busy _ _ hphase
    refine h.moved hk hheld (List.mem_cons_of_mem _) ?_
    cases ok with
    | false => trivial
    | true => exact List.mem_cons_self
  | @complete k hphase =>
    obtain ⟨hk, hheld, hrun⟩ := h.busy _ _ hphase
    exact h.moved hk hheld id hrun
  | @release k hphase =>
    obtain ⟨hk, hheld, -⟩ := h.busy _ _ hphase
    exact h.moved hk hheld id fun hc => by cases hc
  | @ack k ok held hphase hheld =>
    obtain ⟨hk, hold, hrun⟩ := h.busy _ _ hphase
    refine h.acked hk hold (hheld.imp_right And.right) (.inl hrun) ?_
    cases ok with
    | false | true => exact fun _ => hrun
  | @route l1 k ok hphase hrouted =>
    obtain ⟨hk, hold, hsettled⟩ := h.busy _ _ hphase
    rcases hrouted with rfl | ⟨rfl, rfl⟩
    · obtain ⟨hheld, hruns, hclaimed⟩ := routed_rest max k l
      have hsettled' : (l.routed max k).Settled := by
        intro hc
        rw [hruns]
        exact hsettled (hclaimed ▸ hc)
      refine .of_busy (h.bounded.routed hk) (.inl kept_routed) rfl hk (hheld.symm ▸ hold) ?_
      cases ok with
      | false => exact hsettled'
      | true => exact ⟨hsettled', kept_routed⟩
    · exact h.moved hk hold id hsettled
  | @ackRouted k ok held hphase hheld =>
    obtain ⟨hk, hold, hsettled, hkept⟩ := h.busy _ _ hphase
    refine h.acked hk hold (hheld.imp_right And.right) hkept ?_
    cases ok with
    | false | true => exact hsettled
  | @nack l1 k hphase hrequeued =>
    obtain ⟨hk, hold, hsettled⟩ := h.busy _ _ hphase
    rcases hrequeued with rfl | rfl
    · exact .of_busy h.bounded.requeued (.inl h.live.requeued) rfl hk (.inl rfl) hsettled
    · exact h.moved hk hold id hsettled
  | @finish k hphase =>
    obtain ⟨-, -, hsettled⟩ := h.busy _ _ hphase
    exact .of_idle h.bounded.requeued h.live.requeued rfl rfl hsettled
  | restart =>
    exact .of_idle h.bounded.requeued h.live.requeued rfl rfl fun hc => by cases hc

end Sound

def Waiting (first max : Int) (l : Life) : Prop :=
  l.queued = {first + l.runs.length} ∧ l.dead = 0 ∧ first + l.runs.length ≤ max

def Over (first max : Int) (l : Life) : Prop :=
  l.queued = 0 ∧ l.dead = {max} ∧ first + l.runs.length = max + 1

def Alone (k : Int) (l : Life) : Prop := l.held = some k ∧ l.queued = 0 ∧ l.dead = 0

def CalmAt (first max : Int) : Option (Point × Int) → Life → Prop
  | none, l => l.held = none ∧ l.claimed = false ∧ (l.Waiting first max ∨ l.Over first max)
  | some (.claim, k), l =>
    l.Alone k ∧ l.claimed = false ∧ k = first + l.runs.length ∧ k ≤ max
  | some (.execute, k), l => l.Alone k ∧ k = first + l.runs.length ∧ k ≤ max
  | some (.release, k), l => l.Alone k ∧ k + 1 = first + l.runs.length ∧ k ≤ max
  | some (.route, k), l =>
    l.Alone k ∧ l.claimed = false ∧ k + 1 = first + l.runs.length ∧ k ≤ max
  | some (.ackRouted, _), l =>
    l.held.isSome ∧ l.claimed = false ∧ (l.Waiting first max ∨ l.Over first max)
  | some (.done, _), l =>
    l.held = none ∧ l.claimed = false ∧ (l.Waiting first max ∨ l.Over first max)
  | some (_, _), _ => False

def Calm (first max : Int) (l : Life) : Prop := CalmAt first max l.phase l

section Calm

variable {first : Int}

lemma Calm.start (h : k ≤ max) : Calm k max { queued := {k} } := by
  refine ⟨rfl, rfl, .inl ⟨?_, rfl, ?_⟩⟩
  · simp
  · simpa using h

lemma Alone.routed (halone : l.Alone k) (hlen : k + 1 = first + l.runs.length) (hk : k ≤ max) :
    (l.routed max k).Waiting first max ∨ (l.routed max k).Over first max := by
  obtain ⟨-, hqueued, hdead⟩ := halone
  rcases routed_cases max k l with ⟨hle, heq⟩ | ⟨hlt, heq⟩
  · right
    obtain rfl : k = max := by omega
    rw [heq]
    refine ⟨hqueued, ?_, hlen.symm⟩
    rw [hdead]
    rfl
  · left
    rw [heq]
    refine ⟨?_, hdead, by change first + (l.runs.length : Int) ≤ max; omega⟩
    rw [hqueued, hlen]
    rfl

theorem Calm.step (h : Calm first max l) (hstep : Step max True l l') : Calm first max l' := by
  unfold Calm at h
  cases hstep with
  | @aside claimed hclaimed =>
    have hfalse (hl : l.claimed = false) : claimed = false := by
      cases hc : claimed with
      | false => rfl
      | true => rw [hclaimed hc] at hl; cases hl
    cases hphase : l.phase with
    | none =>
      rw [hphase] at h
      exact ⟨h.1, hfalse h.2.1, h.2.2⟩
    | some phase =>
      obtain ⟨point, k⟩ := phase
      rw [hphase] at h
      cases point with
      | claim | route | ackRouted | done => exact ⟨h.1, hfalse h.2.1, h.2.2⟩
      | execute | release => exact h
      | complete | ack | nack => exact h.elim
  | @deliver k hphase hk =>
    rw [hphase] at h
    obtain ⟨-, hclaimed, ⟨hqueued, hdead, hmax⟩ | ⟨hqueued, -, -⟩⟩ := h
    · rw [hqueued] at hk
      obtain rfl := Multiset.mem_singleton.mp hk
      refine ⟨⟨rfl, ?_, hdead⟩, hclaimed, rfl, hmax⟩
      rw [hqueued]
      simp
    · rw [hqueued] at hk
      exact absurd hk (Multiset.notMem_zero k)
  | @claim k duplicate hphase hduplicate =>
    rw [hphase] at h
    obtain ⟨halone, hclaimed, hlen, hk⟩ := h
    cases duplicate with
    | false => exact ⟨halone, hlen, hk⟩
    | true =>
      rw [hduplicate rfl] at hclaimed
      cases hclaimed
  | @execute k ok hphase hcalm =>
    rw [hphase] at h
    obtain ⟨halone, hlen, hk⟩ := h
    obtain rfl := hcalm trivial
    refine ⟨halone, ?_, hk⟩
    change k + 1 = first + ((l.runs.length + 1 : Nat) : Int)
    omega
  | @complete k hphase =>
    rw [hphase] at h
    exact h.elim
  | @release k hphase =>
    rw [hphase] at h
    exact ⟨h.1, rfl, h.2⟩
  | @ack k ok held hphase =>
    rw [hphase] at h
    exact h.elim
  | @route l1 k ok hphase hrouted hcalm =>
    rw [hphase] at h
    obtain ⟨halone, hclaimed, hlen, hk⟩ := h
    obtain rfl := hcalm trivial
    rcases hrouted with rfl | ⟨hok, -⟩
    · obtain ⟨hheld, -, hclaimed'⟩ := routed_rest max k l
      refine ⟨?_, hclaimed'.trans hclaimed, halone.routed hlen hk⟩
      rw [hheld, halone.1]
      rfl
    · cases hok
  | @ackRouted k ok held hphase hheld hcalm =>
    rw [hphase] at h
    obtain rfl := hcalm trivial
    rcases hheld with rfl | ⟨hok, -⟩
    · exact ⟨rfl, h.2⟩
    · cases hok
  | @nack l1 k hphase =>
    rw [hphase] at h
    exact h.elim
  | @finish k hphase =>
    rw [hphase] at h
    obtain ⟨hheld, hclaimed, hrest⟩ := h
    have hsame : l.requeued = l := by
      unfold requeued
      cases l
      simp_all
    rw [hsame]
    exact ⟨hheld, hclaimed, hrest⟩
  | restart hcalm => exact absurd trivial hcalm

end Calm

end Life

end AstraStorage.Proofs
