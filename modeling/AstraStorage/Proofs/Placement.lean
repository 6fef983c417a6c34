import AstraStorage.Model.Repairer
import Mathlib.Data.String.Basic

/-!
# Where replicas are placed

What the allocator selects, and which nodes a copy is sent to.
-/

namespace AstraStorage.Proofs
open Coordinator Allocator List

lemma lookup_replicas (replicas : ReplicaSet) (nodeID : NodeID) :
    (replicas.getD ∅).lookup nodeID = replicaOn replicas nodeID := by
  cases replicas with
  | none | some replicas => rfl

lemma mem_replicaEntries :
    (nodeID, replica) ∈ replicaEntries replicas ↔ replicaOn replicas nodeID = some replica := by
  rw [← lookup_replicas, replicaEntries, mem_map]
  constructor
  · rintro ⟨e, he, heq⟩
    cases heq
    exact AList.mem_lookup_iff.mpr he
  · intro h
    exact ⟨⟨nodeID, replica⟩, AList.mem_lookup_iff.mp h, rfl⟩

section Placement

variable {req : PlacementRequest} {node : NodeInfo}

lemma admitted_of_mem_select (h : node ∈ selectPlacementTargets req) :
    node ∈ req.candidates ∧ req.admits node = true := by
  unfold selectPlacementTargets at h
  split at h
  · exact absurd h not_mem_nil
  · have hmem := mem_of_mem_take h
    rw [mem_insertionSort, mem_filter] at hmem
    exact hmem

lemma select_ne_nil (hcount : 0 < req.count) :
    selectPlacementTargets req ≠ [] ↔ ∃ node ∈ req.candidates, req.admits node = true := by
  have hpos : req.count.toNat ≠ 0 := by omega
  unfold selectPlacementTargets
  rw [if_neg (not_le.mpr hcount), ne_eq, take_eq_nil_iff, or_iff_right hpos,
    ← length_eq_zero_iff, length_insertionSort, length_eq_zero_iff,
    filter_eq_nil_iff]
  push Not
  rfl

abbrev RanksBefore (a b : NodeInfo) : Prop :=
  availableCapacity a > availableCapacity b ∨
    (availableCapacity a = availableCapacity b ∧ a.id ≤ b.id)

instance : Std.Total RanksBefore where
  total a b := by
    rcases lt_trichotomy (availableCapacity a).toInt (availableCapacity b).toInt with h | h | h
    · exact .inr (.inl (Int64.lt_iff_toInt_lt.mpr h))
    · have h := Int64.toInt_inj.mp h
      exact (le_total a.id b.id).imp (fun hle => .inr ⟨h, hle⟩) fun hle => .inr ⟨h.symm, hle⟩
    · exact .inl (.inl (Int64.lt_iff_toInt_lt.mpr h))

instance : IsTrans NodeInfo RanksBefore where
  trans a b c := by
    rintro (hab | ⟨hab, hab'⟩) (hbc | ⟨hbc, hbc'⟩)
    · exact .inl (Int64.lt_trans hbc hab)
    · exact .inl (hbc ▸ hab)
    · exact .inl (hab ▸ hbc)
    · exact .inr ⟨hab.trans hbc, hab'.trans hbc'⟩

lemma RanksBefore.id_eq (hab : RanksBefore a b) (hba : RanksBefore b a) : a.id = b.id := by
  rcases hab with hab | ⟨hab, hab'⟩
  · rcases hba with hba | ⟨hba, -⟩
    · exact absurd hab (Int64.lt_asymm hba)
    · exact absurd hab (hba ▸ Int64.lt_irrefl)
  · rcases hba with hba | ⟨-, hba'⟩
    · exact absurd hba (hab ▸ Int64.lt_irrefl)
    · exact le_antisymm hab' hba'

lemma head_ranksBefore (h : selectPlacementTargets req = node :: rest)
    (hother : other ∈ req.candidates) (hadmits : req.admits other = true) :
    RanksBefore node other := by
  unfold selectPlacementTargets at h
  split at h
  · cases h
  · have hsorted := pairwise_insertionSort RanksBefore (req.candidates.filter req.admits)
    have hmem : other ∈ (req.candidates.filter req.admits).insertionSort RanksBefore :=
      (mem_insertionSort _).mpr (mem_filter.mpr ⟨hother, hadmits⟩)
    cases hlist : (req.candidates.filter req.admits).insertionSort RanksBefore with
    | nil =>
      rw [hlist] at hmem
      exact absurd hmem not_mem_nil
    | cons first others =>
      obtain ⟨count, hcount⟩ : ∃ count, req.count.toNat = count + 1 :=
        Nat.exists_eq_add_one.mpr (by omega)
      have hfirst : (first :: others).take req.count.toNat = node :: rest := hlist ▸ h
      rw [hcount] at hfirst
      obtain ⟨rfl, -⟩ := cons.inj hfirst
      rw [hlist] at hsorted hmem
      rcases mem_cons.mp hmem with rfl | hmem
      · exact .inr ⟨rfl, le_rfl⟩
      · exact rel_of_pairwise_cons hsorted hmem

def freeBytes (node : NodeInfo) : Int := node.capacity.toInt - node.used.toInt

structure Eligible (req : PlacementRequest) (node : NodeInfo) : Prop where
  healthy : node.healthy = true
  address : trimSpace node.address ≠ ""
  notExcluded : node.id ∉ req.excluded
  used_nonneg : 0 ≤ node.used.toInt
  used_le : node.used.toInt ≤ node.capacity.toInt
  free_pos : 0 < freeBytes node
  fits : req.requiredBytes.toInt ≤ freeBytes node

lemma toInt_availableCapacity_of_le (hused : 0 ≤ node.used.toInt)
    (hle : node.used.toInt ≤ node.capacity.toInt) :
    (availableCapacity node).toInt = freeBytes node := by
  have hmax := node.capacity.toInt_lt
  rw [availableCapacity, Int64.toInt_sub]
  exact Int.bmod_eq_of_le (by omega) (by omega)

lemma admits_iff_eligible : req.admits node = true ↔ Eligible req node := by
  have hzero : (0 : Int64).toInt = 0 := rfl
  simp only [PlacementRequest.admits, Bool.and_eq_true, Bool.not_eq_true', Bool.or_eq_false_iff,
    decide_eq_false_iff_not, decide_eq_true_eq, Int64.lt_iff_toInt_lt, Int64.le_iff_toInt_le,
    not_lt, not_le, hzero, contains_eq_mem]
  constructor
  · rintro ⟨⟨⟨⟨⟨⟨hhealthy, haddress⟩, hexcluded⟩, -, hused⟩, hle⟩, hpos⟩, hfits⟩
    rw [toInt_availableCapacity_of_le hused hle] at hpos hfits
    exact ⟨hhealthy, haddress, hexcluded, hused, hle, hpos, hfits⟩
  · intro h
    rw [toInt_availableCapacity_of_le h.used_nonneg h.used_le]
    exact ⟨⟨⟨⟨⟨⟨h.healthy, h.address⟩, h.notExcluded⟩, h.used_nonneg.trans h.used_le,
      h.used_nonneg⟩, h.used_le⟩, h.free_pos⟩, h.fits⟩

lemma toInt_availableCapacity (h : req.admits node = true) :
    (availableCapacity node).toInt = freeBytes node :=
  have hnode := admits_iff_eligible.mp h
  toInt_availableCapacity_of_le hnode.used_nonneg hnode.used_le

def rankedNodes (req : PlacementRequest) : List NodeInfo :=
  (req.candidates.filter req.admits).insertionSort RanksBefore

lemma mem_rankedNodes : node ∈ rankedNodes req ↔ node ∈ req.candidates ∧ Eligible req node := by
  rw [rankedNodes, mem_insertionSort, mem_filter, admits_iff_eligible]

lemma select_eq_take (hcount : 0 < req.count) :
    selectPlacementTargets req = (rankedNodes req).take req.count.toNat :=
  if_neg (not_le.mpr hcount)

section

variable (hids : (req.candidates.map (·.id)).Nodup)
include hids

lemma rankedNodes_distinct : (rankedNodes req).Pairwise fun a b => a.id ≠ b.id :=
  ((pairwise_map.mp hids).filter _).perm (perm_insertionSort _ _).symm fun h => h.symm

lemma rankedNodes_sorted :
    (rankedNodes req).Pairwise fun a b =>
      freeBytes b < freeBytes a ∨ freeBytes a = freeBytes b ∧ a.id < b.id := by
  have hsorted := pairwise_insertionSort RanksBefore (req.candidates.filter req.admits)
  refine ((rankedNodes_distinct hids).and hsorted).imp_of_mem fun ha hb h => ?_
  have ha := (mem_rankedNodes.mp ha).2
  have hb := (mem_rankedNodes.mp hb).2
  rw [← toInt_availableCapacity_of_le ha.used_nonneg ha.used_le,
    ← toInt_availableCapacity_of_le hb.used_nonneg hb.used_le]
  refine h.2.imp (fun hlt => Int64.lt_iff_toInt_lt.mp hlt) ?_
  rintro ⟨heq, hle⟩
  exact ⟨congrArg Int64.toInt heq, lt_of_le_of_ne hle h.1⟩

lemma rankedNodes_perm (hperm : candidates.Perm req.candidates) :
    rankedNodes { req with candidates := candidates } = rankedNodes req := by
  have hall : (rankedNodes { req with candidates := candidates }).Perm (rankedNodes req) :=
    ((perm_insertionSort _ _).trans (hperm.filter _)).trans
      (perm_insertionSort _ _).symm
  refine hall.eq_of_pairwise (fun a b _ _ hab hba => ?_)
    (rankedNodes_sorted ((hperm.map _).nodup_iff.mpr hids)) (rankedNodes_sorted hids)
  rcases hab with hab | ⟨hab, hlt⟩
  · rcases hba with hba | ⟨hba, -⟩ <;> omega
  · rcases hba with hba | ⟨-, hgt⟩
    · omega
    · exact absurd hlt hgt.not_gt

end

/-- The selection is the beginning of the eligible candidates, sorted by their free capacity
and then their IDs; neither the order of the candidates nor an overflow changes it. -/
theorem selectPlacementTargets_spec (hids : (req.candidates.map (·.id)).Nodup)
    (hcount : 0 < req.count) :
    (∃ ranked : List NodeInfo,
      (∀ node, node ∈ ranked ↔ node ∈ req.candidates ∧ Eligible req node) ∧
      (ranked.Pairwise fun a b =>
        freeBytes b < freeBytes a ∨ freeBytes a = freeBytes b ∧ a.id < b.id) ∧
      selectPlacementTargets req = ranked.take (min req.count.toNat ranked.length)) ∧
    (∀ candidates : List NodeInfo, candidates.Perm req.candidates →
      selectPlacementTargets { req with candidates := candidates } =
        selectPlacementTargets req) ∧
    ∀ node, Eligible req node → (availableCapacity node).toInt = freeBytes node := by
  refine ⟨⟨rankedNodes req, fun _ => mem_rankedNodes, rankedNodes_sorted hids, ?_⟩, ?_, ?_⟩
  · rw [select_eq_take hcount, ← take_eq_take_min]
  · intro candidates hperm
    rw [select_eq_take hcount, ← rankedNodes_perm hids hperm]
    exact select_eq_take hcount
  · exact fun node h => toInt_availableCapacity_of_le h.used_nonneg h.used_le

theorem selectPlacementTargets_twoNodes :
    let a : NodeInfo := { id := "a", address := "x", capacity := 5, healthy := true }
    let b : NodeInfo := { id := "b", address := "y", capacity := 9, used := 1, healthy := true }
    (∃ ranked : List NodeInfo, a ∈ ranked ∧ b ∈ ranked ∧
      (ranked.Pairwise fun a b =>
        freeBytes b < freeBytes a ∨ freeBytes a = freeBytes b ∧ a.id < b.id) ∧
      selectPlacementTargets { candidates := [b, a], count := 1 } =
        ranked.take (min 1 ranked.length)) ∧
    selectPlacementTargets { candidates := [a, b], count := 1 } =
      selectPlacementTargets { candidates := [b, a], count := 1 } ∧
    (availableCapacity b).toInt = freeBytes b := by
  intro a b
  obtain ⟨⟨ranked, hmem, hsorted, hselect⟩, hperm, hfree⟩ :=
    @selectPlacementTargets_spec { candidates := [b, a], count := 1 } (by decide) (by decide)
  have ha := (hmem a).mpr ⟨by simp, admits_iff_eligible.mp (by decide)⟩
  have hb := (hmem b).mpr ⟨by simp, admits_iff_eligible.mp (by decide)⟩
  exact ⟨⟨ranked, ha, hb, hsorted, hselect⟩, hperm [a, b] (.swap ..), hfree b ((hmem b).mp hb).2⟩

end Placement

section Copies

variable {node : NodeInfo}

lemma mem_of_mem_selectedNodes (h : node ∈ PendingReplicaRepairer.selectedNodes nodes) :
    ∃ nodeID, (nodeID, node) ∈ nodes := by
  have hmem := (admitted_of_mem_select h).1
  obtain ⟨e, he, rfl⟩ := mem_map.mp hmem
  exact ⟨e.1, (mem_filter.mp he).1⟩

lemma mem_of_mem_skippedNodeIDs (h : nodeID ∈ PendingReplicaRepairer.skippedNodeIDs nodes) :
    ∃ e ∈ nodes, e.1 = nodeID := by
  rcases mem_append.mp h with h | h
  · obtain ⟨e, he, rfl⟩ := mem_map.mp h
    exact ⟨e, (mem_filter.mp he).1, rfl⟩
  · obtain ⟨e, he, rfl⟩ := mem_map.mp h
    exact ⟨e, (mem_filter.mp (mem_filter.mp he).1).1, rfl⟩

end Copies

end AstraStorage.Proofs
