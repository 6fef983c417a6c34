import AstraStorage.Model.Download
import AstraStorage.Proofs.Placement
import Mathlib.Data.Prod.Lex

/-!
# The order of the download candidates

When the order depends only on the replicas, and when the `Ready` ones come first. The
comparison is a part of the lexicographic order of `candidateKey`.
-/

namespace AstraStorage.Proofs
open Lib Service Allocator List

variable {replicas' replicas : ReplicaSet} {α : Type} {a b : Candidate} {l : List Candidate}

abbrev Candidate := NodeID × ReplicaMetadata

/-- One map in two iteration orders. -/
def Reordered (a b : ReplicaSet) : Prop := (replicaEntries a).Perm (replicaEntries b)

structure Sorts (replicas : ReplicaSet) (l : List Candidate) : Prop where
  perm : l.Perm (replicaEntries replicas)
  sorted : l.Pairwise fun a b => candidateLess b a = false

def roleText : ReplicaRole → String
  | .other text => text
  | _ => ""

section Keys

variable {τ : Type} [LinearOrder τ] (f : String → τ)

def candidateKey (c : Candidate) : Bool ×ₗ ℕ ×ₗ τ ×ₗ String :=
  toLex (!readable c.2, toLex (replicaRoleRank c.2.role, toLex (f (roleText c.2.role), c.1)))

lemma candidateKey_le : candidateKey f a ≤ candidateKey f b ↔
    (!readable a.2) < (!readable b.2) ∨ readable a.2 = readable b.2 ∧
      (replicaRoleRank a.2.role < replicaRoleRank b.2.role ∨
        replicaRoleRank a.2.role = replicaRoleRank b.2.role ∧
          (f (roleText a.2.role) < f (roleText b.2.role) ∨
            f (roleText a.2.role) = f (roleText b.2.role) ∧ a.1 ≤ b.1)) := by
  simp only [candidateKey, Prod.Lex.toLex_le_toLex, Bool.not_inj_iff]

omit [LinearOrder τ] in
lemma id_eq_of_candidateKey_eq (h : candidateKey f a = candidateKey f b) : a.1 = b.1 :=
  congrArg (fun k => (ofLex (ofLex (ofLex k).2).2).2) h

lemma role_eq_of_rank_eq (hrank : replicaRoleRank r = replicaRoleRank r')
    (htext : roleText r = roleText r') : r = r' := by
  cases r <;> cases r' <;> simp_all [replicaRoleRank, roleText]

lemma candidateLess_eq_false (h : candidateKey f a ≤ candidateKey f b) :
    candidateLess b a = false := by
  rw [candidateKey_le, Bool.lt_iff] at h
  grind [candidateLess]

lemma candidateKey_dual (hless : candidateLess b a = false)
    (h : candidateKey id b ≤ candidateKey id a) :
    candidateKey OrderDual.toDual a ≤ candidateKey OrderDual.toDual b := by
  rw [candidateKey_le, Bool.lt_iff] at *
  grind [candidateLess, role_eq_of_rank_eq, OrderDual.toDual_lt_toDual]

end Keys

section Orders

lemma eq_of_id_eq (ha : a ∈ replicaEntries replicas) (hb : b ∈ replicaEntries replicas)
    (h : a.1 = b.1) : a = b := by
  obtain ⟨n, r⟩ := a
  obtain ⟨n', r'⟩ := b
  obtain rfl : n = n' := h
  have hr := (mem_replicaEntries.mp ha).symm.trans (mem_replicaEntries.mp hb)
  rw [Option.some.inj hr]

lemma nodup_ids (h : l.Perm (replicaEntries replicas)) : (l.map Prod.fst).Nodup := by
  refine (h.map Prod.fst).nodup_iff.mpr ?_
  rw [replicaEntries, map_map]
  exact (replicas.getD ∅).nodupKeys

lemma pairwise_idxOf (h : l.Perm (replicaEntries replicas)) :
    l.Pairwise fun a b => (l.map Prod.fst).idxOf a.1 < (l.map Prod.fst).idxOf b.1 := by
  refine pairwise_iff_getElem.mpr fun i j hi hj hij => ?_
  have hidx : ∀ k (hk : k < l.length), (l.map Prod.fst).idxOf l[k].1 = k := fun k hk => by
    have hidx := (nodup_ids h).idxOf_getElem k (by rwa [length_map])
    rwa [getElem_map] at hidx
  rw [hidx i hi, hidx j hj]
  exact hij

lemma candidateLess_asymm (h : candidateLess a b = true) : candidateLess b a = false := by
  refine candidateLess_eq_false id (le_of_not_ge fun hle => ?_)
  rw [candidateLess_eq_false id hle] at h
  cases h

lemma exists_sorts_of_key_le {τ : Type} [LinearOrder τ] (f : String → τ)
    (ha : a ∈ replicaEntries replicas) (hb : b ∈ replicaEntries replicas) (hne : a ≠ b)
    (hle : candidateKey f a ≤ candidateKey f b) :
    ∃ l, Sorts replicas l ∧ ∀ P : Candidate → Candidate → Prop, l.Pairwise P → P a b := by
  let byKey := fun a b : Candidate => candidateKey f a ≤ candidateKey f b
  have hsorted := pairwise_insertionSort byKey (replicaEntries replicas)
  refine ⟨(replicaEntries replicas).insertionSort byKey, ⟨perm_insertionSort _ _,
    hsorted.imp (candidateLess_eq_false f)⟩, fun P hP => ?_⟩
  let either := fun a b => P a b ∧ byKey a b ∨ P b a ∧ byKey b a
  have : Std.Symm either := ⟨fun _ _ => Or.symm⟩
  have hall : ((replicaEntries replicas).insertionSort byKey).Pairwise either :=
    (hP.and hsorted).imp Or.inl
  have hone := hall.forall ((mem_insertionSort _).mpr ha)
    ((mem_insertionSort _).mpr hb) hne
  rcases hone with h | h
  · exact h.1
  · exact absurd (eq_of_id_eq ha hb (id_eq_of_candidateKey_eq f (le_antisymm hle h.2))) hne

lemma exists_sorts_before (ha : a ∈ replicaEntries replicas) (hb : b ∈ replicaEntries replicas)
    (hne : a ≠ b) (hless : candidateLess b a = false) :
    ∃ l, Sorts replicas l ∧ ∀ P : Candidate → Candidate → Prop, l.Pairwise P → P a b := by
  rcases le_total (candidateKey id a) (candidateKey id b) with hle | hge
  · exact exists_sorts_of_key_le id ha hb hne hle
  · exact exists_sorts_of_key_le OrderDual.toDual ha hb hne (candidateKey_dual hless hge)

def OneUnknownRole (replicas : ReplicaSet) : Prop :=
  ∀ a ∈ replicaEntries replicas, ∀ b ∈ replicaEntries replicas,
    readable a.2 = readable b.2 → ∀ x y, a.2.role = .other x → b.2.role = .other y → x = y

lemma OneUnknownRole.candidateLess_iff (h : OneUnknownRole replicas)
    (ha : a ∈ replicaEntries replicas) (hb : b ∈ replicaEntries replicas) :
    candidateLess a b = true ↔ candidateKey id a < candidateKey id b := by
  have hrole : readable a.2 = readable b.2 →
      replicaRoleRank a.2.role = replicaRoleRank b.2.role → a.2.role = b.2.role := by
    intro hread
    have hone := h a ha b hb hread
    cases har : a.2.role <;> cases hbr : b.2.role <;> simp_all [replicaRoleRank]
  rw [← not_le, candidateKey_le, Bool.lt_iff]
  grind [candidateLess]

lemma OneUnknownRole.eq_of_not_less (h : OneUnknownRole replicas)
    (ha : a ∈ replicaEntries replicas) (hb : b ∈ replicaEntries replicas)
    (hab : candidateLess a b ≠ true) (hba : candidateLess b a ≠ true) : a = b := by
  rw [ne_eq, h.candidateLess_iff ha hb, not_lt] at hab
  rw [ne_eq, h.candidateLess_iff hb ha, not_lt] at hba
  exact eq_of_id_eq ha hb (id_eq_of_candidateKey_eq id (le_antisymm hba hab))

def sortedEntries (replicas : ReplicaSet) : List Candidate :=
  (replicaEntries replicas).insertionSort fun a b => candidateLess b a = false

lemma Sorts.eq_of_oneUnknownRole (h : OneUnknownRole replicas) (hl : Sorts replicas l)
    (hl' : Sorts replicas l') : l = l' := by
  refine (hl.perm.trans hl'.perm.symm).eq_of_pairwise (fun a b ha hb hab hba => ?_)
    hl.sorted hl'.sorted
  exact h.eq_of_not_less (hl.perm.mem_iff.mp ha) (hl'.perm.mem_iff.mp hb) (by simp [hba])
    (by simp [hab])

lemma sorts_sortedEntries (h : OneUnknownRole replicas) :
    Sorts replicas (sortedEntries replicas) := by
  refine ⟨perm_insertionSort _ _, ?_⟩
  have hkey := map_insertionSort (fun a b : Candidate => candidateLess b a = false)
    (fun a b => candidateKey id a ≤ candidateKey id b) id (replicaEntries replicas)
    fun a ha b hb => by
      rw [id, id, ← not_lt, ← h.candidateLess_iff hb ha, Bool.not_eq_true]
  rw [map_id] at hkey
  rw [sortedEntries, hkey]
  exact (pairwise_insertionSort _ _).imp (candidateLess_eq_false id)

lemma Reordered.sorts (h : Reordered replicas' replicas) (hl : Sorts replicas' l) :
    Sorts replicas l :=
  ⟨hl.perm.trans h, hl.sorted⟩

lemma Reordered.oneUnknownRole (h : Reordered replicas' replicas) (hone : OneUnknownRole replicas) :
    OneUnknownRole replicas' :=
  fun a ha b hb => hone a (h.mem_iff.mp ha) b (h.mem_iff.mp hb)

lemma strictTotal_of_oneUnknownRole (h : OneUnknownRole replicas) :
    IsStrictTotalOrder {c // c ∈ replicaEntries replicas}
      fun a b => candidateLess a.1 b.1 = true where
  trichotomous a b hab hba := Subtype.ext (h.eq_of_not_less a.2 b.2 hab hba)
  irrefl a ha := lt_irrefl _ ((h.candidateLess_iff a.2 a.2).mp ha)
  trans a b c hab hbc := (h.candidateLess_iff a.2 c.2).mpr
    (((h.candidateLess_iff a.2 b.2).mp hab).trans ((h.candidateLess_iff b.2 c.2).mp hbc))

lemma candidateLess_other (hread : readable a.2 = readable b.2) (ha : a.2.role = .other x)
    (hb : b.2.role = .other y) (hne : x ≠ y) : candidateLess a b = false := by
  unfold candidateLess
  rw [if_neg (not_not.mpr hread), if_pos (by rw [ha, hb]; simpa using hne), ha, hb]
  rfl

/-- The candidates come in the same order for every iteration order of the map and every
correct sorting algorithm, and the comparison is a strict total order of them, exactly if no
two of them that are alike readable have different unknown roles. -/
theorem candidateOrder_fixed_iff (replicas : ReplicaSet) :
    ((∀ l replicas', Sorts replicas l → Reordered replicas' replicas →
        orderedReplicaCandidates replicas' =
          (l.map Prod.fst, (l.map Prod.fst).headD "")) ↔ OneUnknownRole replicas) ∧
      (IsStrictTotalOrder {c // c ∈ replicaEntries replicas}
        (fun a b => candidateLess a.1 b.1 = true) ↔ OneUnknownRole replicas) := by
  refine ⟨⟨fun h a ha b hb hread x y hx hy => ?_, fun h l replicas' hl hsame => ?_⟩,
    fun h a ha b hb hread x y hx hy => ?_, strictTotal_of_oneUnknownRole⟩
  · -- two sorted lists with the two candidates in either order have the same nodes
    by_contra hxy
    have hne : a ≠ b := by
      rintro rfl
      exact hxy (ReplicaRole.other.inj (hx.symm.trans hy))
    obtain ⟨l, hl, hab⟩ := exists_sorts_before ha hb hne
      (candidateLess_other hread.symm hy hx (Ne.symm hxy))
    obtain ⟨l', hl', hba⟩ := exists_sorts_before hb ha hne.symm
      (candidateLess_other hread hx hy hxy)
    have hids : l.map Prod.fst = l'.map Prod.fst := congrArg Prod.fst
      ((h l replicas hl (.refl _)).symm.trans (h l' replicas hl' (.refl _)))
    have hba := hba _ (pairwise_idxOf hl'.perm)
    rw [← hids] at hba
    exact absurd (hab _ (pairwise_idxOf hl.perm)) hba.not_gt
  · rw [← Sorts.eq_of_oneUnknownRole h
      (hsame.sorts (sorts_sortedEntries (hsame.oneUnknownRole h))) hl]
    rfl
  · by_contra hxy
    have hab := h.trichotomous ⟨a, ha⟩ ⟨b, hb⟩
      (by simpa using candidateLess_other hread hx hy hxy)
      (by simpa using candidateLess_other hread.symm hy hx (Ne.symm hxy))
    rw [Subtype.mk.injEq] at hab
    rw [hab, hy] at hx
    exact hxy (ReplicaRole.other.inj hx).symm

/-- Two unknown roles: the order of the map decides which node is preferred. -/
theorem candidateOrder_dependsOnIteration :
    let a : Candidate := ("a", { role := .other "x", state := .ready })
    let b : Candidate := ("b", { role := .other "y", state := .ready })
    let replicas : ReplicaSet := some ((∅ : Table ..).insert a.1 a.2 |>.insert b.1 b.2)
    let replicas' : ReplicaSet := some ((∅ : Table ..).insert b.1 b.2 |>.insert a.1 a.2)
    Reordered replicas replicas' ∧
      orderedReplicaCandidates replicas = (["b", "a"], "b") ∧
      orderedReplicaCandidates replicas' = (["a", "b"], "a") := by
  refine ⟨.swap .., ?_, ?_⟩ <;> decide +kernel

end Orders

section ReadyFirst

lemma pairwise_orderedInsert {p : α → Prop} [DecidableRel r] {l : List α}
    (hl : l.Pairwise fun a b => p b → p a)
    (hx : ∀ y ∈ l, (p x → ¬p y → r x y) ∧ (p y → ¬p x → ¬r x y)) :
    (l.orderedInsert r x).Pairwise fun a b => p b → p a := by
  induction l with
  | nil => exact pairwise_singleton _ x
  | cons y l ih =>
    obtain ⟨hy, hrest⟩ := pairwise_cons.mp hl
    rw [forall_mem_cons] at hx
    rw [orderedInsert_cons]
    split_ifs with hxy
    · refine pairwise_cons.mpr ⟨fun z hz hpz => ?_, hl⟩
      have hpy : p y := by
        rcases mem_cons.mp hz with rfl | hz
        · exact hpz
        · exact hy z hz hpz
      by_contra hpx
      exact hx.1.2 hpy hpx hxy
    · refine pairwise_cons.mpr ⟨fun z hz hpz => ?_, ih hrest hx.2⟩
      rcases (mem_orderedInsert r).mp hz with rfl | hz
      · by_contra hpy
        exact hxy (hx.1.1 hpz hpy)
      · exact hy z hz hpz

lemma pairwise_insertionSort_of {p : α → Prop} [DecidableRel r] {l : List α}
    (h : ∀ x ∈ l, ∀ y ∈ l, p x → ¬p y → r x y ∧ ¬r y x) :
    (l.insertionSort r).Pairwise fun a b => p b → p a := by
  induction l with
  | nil => exact List.Pairwise.nil
  | cons x l ih =>
    refine pairwise_orderedInsert (ih fun x hx y hy => ?_) fun y hy => ?_
    · exact h x (mem_cons_of_mem _ hx) y (mem_cons_of_mem _ hy)
    · have hy := mem_cons_of_mem x ((mem_insertionSort r).mp hy)
      exact ⟨fun hx hny => (h x mem_cons_self y hy hx hny).1,
        fun hpy hnx => (h y hy x mem_cons_self hpy hnx).2⟩

lemma exists_reordered (h : l.Perm (replicaEntries replicas)) :
    ∃ replicas', replicaEntries replicas' = l := by
  refine ⟨some ⟨l.map fun c => ⟨c.1, c.2⟩, ?_⟩, ?_⟩
  · rw [List.NodupKeys, keys, map_map]
    exact nodup_ids h
  · simp only [replicaEntries, Option.getD_some, map_map, Function.comp_def, Prod.mk.eta,
      map_id']

def ReadyOn (replicas : ReplicaSet) (nodeID : NodeID) : Prop :=
  ∃ replica, replicaOn replicas nodeID = some replica ∧ replica.state = .ready

lemma readyOn_iff (hc : c ∈ replicaEntries replicas) :
    ReadyOn replicas c.1 ↔ c.2.state = .ready := by
  have hc := mem_replicaEntries.mp hc
  constructor
  · rintro ⟨replica, hreplica, hready⟩
    rwa [Option.mem_unique hc hreplica]
  · exact fun h => ⟨c.2, hc, h⟩

lemma candidateLess_of_ready (ha : a.2.state = .ready) (hb : readable b.2 = false) :
    candidateLess a b = true := by
  have ha : readable a.2 = true := by rw [readable, ha]; rfl
  rw [candidateLess, ha, hb]
  rfl

lemma exists_ready (h : 0 < healthyReplicaCount replicas) :
    ∃ c ∈ replicaEntries replicas, c.2.state = .ready := by
  cases replicas with
  | none => exact absurd h (lt_irrefl _)
  | some replicas =>
    obtain ⟨replica, hmem, hready⟩ := countP_pos_iff.mp (Int.natCast_pos.mp h)
    obtain ⟨e, he, rfl⟩ := mem_map.mp hmem
    exact ⟨(e.1, e.2), mem_map.mpr ⟨e, he, rfl⟩, of_decide_eq_true hready⟩

/-- A plan lists the nodes with a `Ready` replica before all others, in whatever order the map
is read, exactly if the comparison puts every `Ready` replica before every `Writing` one. -/
theorem planChunk_readyFirst_iff {chunk : ChunkMetadata}
    (hready : 0 < healthyReplicaCount chunk.replicas) :
    (∀ replicas, Reordered replicas chunk.replicas →
      ((planChunk { chunk with replicas := replicas }).candidateNodeIDs.Pairwise fun n n' =>
        ReadyOn chunk.replicas n' → ReadyOn chunk.replicas n) ∧
      ReadyOn chunk.replicas (planChunk { chunk with replicas := replicas }).preferredNodeID) ↔
    ∀ a ∈ replicaEntries chunk.replicas, ∀ b ∈ replicaEntries chunk.replicas,
      a.2.state = .ready → b.2.state = .writing → candidateLess a b = true := by
  constructor
  · intro h a ha b hb hready hwriting
    by_contra hless
    have hne : b ≠ a := by
      rintro rfl
      rw [hready] at hwriting
      cases hwriting
    obtain ⟨l, hl, hba⟩ := exists_sorts_before hb ha hne (Bool.not_eq_true _ ▸ hless)
    obtain ⟨replicas, rfl⟩ := exists_reordered hl.perm
    have hfirst := (h replicas hl.perm).1
    have hplan : (planChunk { chunk with replicas := replicas }).candidateNodeIDs =
        (replicaEntries replicas).map Prod.fst := by
      rw [← hl.sorted.insertionSort_eq]
      rfl
    rw [hplan, pairwise_map] at hfirst
    have hready := hba _ hfirst ((readyOn_iff ha).mpr hready)
    rw [(readyOn_iff hb).mp hready] at hwriting
    cases hwriting
  · intro h replicas hsame
    have hfirst : (sortedEntries replicas).Pairwise fun a b =>
        b.2.state = .ready → a.2.state = .ready := by
      refine pairwise_insertionSort_of fun a ha b hb hready hnot => ?_
      have hless : candidateLess a b = true := by
        by_cases hwriting : b.2.state = .writing
        · exact h a (hsame.mem_iff.mp ha) b (hsame.mem_iff.mp hb) hready hwriting
        · exact candidateLess_of_ready hready (by simp [readable, hnot, hwriting])
      rw [hless]
      exact ⟨candidateLess_asymm hless, Bool.noConfusion⟩
    have hmem : ∀ c ∈ sortedEntries replicas, c ∈ replicaEntries chunk.replicas := fun c hc =>
      hsame.mem_iff.mp ((mem_insertionSort _).mp hc)
    refine ⟨pairwise_map.mpr (hfirst.imp_of_mem fun ha hb hab => ?_), ?_⟩
    · rw [readyOn_iff (hmem _ ha), readyOn_iff (hmem _ hb)]
      exact hab
    · obtain ⟨c, hc, hready⟩ := exists_ready hready
      have hc : c ∈ sortedEntries replicas :=
        (mem_insertionSort _).mpr (hsame.mem_iff.mpr hc)
      have hplan : (planChunk { chunk with replicas := replicas }).preferredNodeID =
        ((sortedEntries replicas).map Prod.fst).headD "" := rfl
      rw [hplan]
      cases hlist : sortedEntries replicas with
      | nil =>
        rw [hlist] at hc
        exact absurd hc not_mem_nil
      | cons first rest =>
        rw [hlist] at hc hfirst
        refine (readyOn_iff (hmem first (hlist ▸ mem_cons_self))).mpr ?_
        rcases mem_cons.mp hc with rfl | hc
        · exact hready
        · exact rel_of_pairwise_cons hfirst hc hready

def mixedChunk (state : ReplicaState) : ChunkMetadata where
  id := "c"
  fileID := "f"
  replicas := some ((∅ : Table NodeID ReplicaMetadata).insert "a"
    { role := .secondary, state := .ready } |>.insert "b" { role := .primary, state := state })

theorem planChunk_lostPrimary :
    ReadyOn (mixedChunk .lost).replicas (planChunk (mixedChunk .lost)).preferredNodeID :=
  ((planChunk_readyFirst_iff (by decide)).mpr (by decide +kernel) _ (.refl _)).2

/-- A `Writing` primary is preferred to a `Ready` secondary. -/
theorem planChunk_writingPrimary :
    0 < healthyReplicaCount (mixedChunk .writing).replicas ∧
      (planChunk (mixedChunk .writing)).candidateNodeIDs = ["b", "a"] ∧
      (planChunk (mixedChunk .writing)).preferredNodeID = "b" ∧
      ReadyOn (mixedChunk .writing).replicas "a" ∧
      ¬ReadyOn (mixedChunk .writing).replicas "b" := by
  refine ⟨by decide, by decide +kernel, by decide +kernel, ⟨_, rfl, rfl⟩, ?_⟩
  rintro ⟨replica, hreplica, hready⟩
  cases hreplica
  cases hready

end ReadyFirst

end AstraStorage.Proofs
