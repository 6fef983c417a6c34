import AstraStorage.Proofs.CachedReads
import AstraStorage.Proofs.ControllerChanges

/-!
# Pages of a listing

Each page is cut from a listing that is sorted anew, from a map in any order. The sort keys are
unique, so that all pages are cut from the same list.
-/

namespace AstraStorage.Proofs
open Lib Store Service List

variable {T : Type} {l : List T} {lt : T → T → Prop} {limit : ℕ} {s : MemoryState}

/-- The pages up to the first empty one hold the records, each of them once and in order. Before
each call the maps may be arranged anew. -/
def Paged (arranged : ℕ → MemoryState) (call : ℕ → StoreM (List T)) (lt : T → T → Prop)
    (records : Set T) : Prop :=
  ∃ (pages : ℕ → List T) (n : ℕ), (∀ k, Yields (call k) (arranged k) (pages k) (arranged k)) ∧
    pages n = [] ∧ (∀ k < n, pages k ≠ []) ∧
    ((range n).flatMap pages).Pairwise lt ∧ ∀ x, x ∈ (range n).flatMap pages ↔ x ∈ records

def childEntries (s : MemoryState) (d : InodeID) : Set DirectoryEntry :=
  {e | ∃ y, (catalog s).inode y.id = some y ∧ y.parentID = d ∧ entryOf y = e}

lemma applyListWindow_page (hlimit : 0 < limit) (k : ℕ) :
    applyListWindow l limit (k * limit) = (l.drop (k * limit)).take limit := by
  have hstart : ((k : Int) * limit).toNat = k * limit := by
    rw [← Int.natCast_mul, Int.toNat_natCast]
  simp only [applyListWindow, hstart]
  split_ifs with hend hlast
  · rw [drop_eq_nil_of_le hend, take_nil]
  · exact (take_of_length_le (by omega)).symm
  · rfl

lemma flatMap_pages (n : ℕ) :
    ((range n).flatMap fun k => (l.drop (k * limit)).take limit) = l.take (n * limit) := by
  induction n with
  | zero => simp
  | succ n ih => rw [range_succ, flatMap_append, ih, Nat.succ_mul, take_add, flatMap_singleton]

lemma eq_of_increasing [Std.Asymm lt] (hl : l.Pairwise lt) (hl' : l'.Pairwise lt)
    (hmem : ∀ x, x ∈ l ↔ x ∈ l') : l = l' := by
  refine List.Perm.eq_of_pairwise ?_ hl hl' ((perm_ext_iff_of_nodup hl.nodup hl'.nodup).mpr hmem)
  exact fun x y _ _ hxy hyx => absurd hyx (Std.Asymm.asymm x y hxy)

lemma paged_of_windows [Std.Asymm lt] (items : ℕ → List T) (hlimit : 0 < limit)
    (hcall : ∀ k, Yields (call k) (arranged k)
      (applyListWindow (items k) limit (k * limit)) (arranged k))
    (hsorted : ∀ k, (items k).Pairwise lt) (hmem : ∀ k x, x ∈ items k ↔ x ∈ records) :
    Paged arranged call lt records := by
  have hsame (k : ℕ) : items k = items 0 :=
    eq_of_increasing (hsorted k) (hsorted 0) fun x => (hmem k x).trans (hmem 0 x).symm
  simp only [hsame, applyListWindow_page hlimit] at hcall
  have hends : ∃ n, (items 0).length ≤ n * limit := ⟨_, Nat.le_mul_of_pos_right _ hlimit⟩
  refine ⟨_, Nat.find hends, hcall, ?_, ?_, ?_⟩
  · rw [drop_eq_nil_of_le (Nat.find_spec hends), take_nil]
  · intro k hk hempty
    rw [take_eq_nil_iff, drop_eq_nil_iff] at hempty
    exact Nat.find_min hends hk (hempty.resolve_left hlimit.ne')
  · rw [flatMap_pages, take_of_length_le (Nat.find_spec hends)]
    exact ⟨hsorted 0, hmem 0⟩

/-! ### Unique sort keys -/

def planOrder (p q : ReplicaPlan) : Prop :=
  p.createdAt < q.createdAt ∨ (p.createdAt = q.createdAt ∧ p.id < q.id)

lemma entriesOf_increasing (ht : Tree (catalog s)) (d : InodeID) :
    (entriesOf s d).Pairwise (·.name < ·.name) := by
  refine ((sorted_entriesOf d).and (nodup_entriesOf d)).imp_of_mem fun he he' ⟨hle, hne⟩ => ?_
  refine Std.lt_of_le_of_ne hle fun hname => hne ?_
  obtain ⟨x, hx, hparent, -, rfl⟩ := mem_entriesOf.mp he
  obtain ⟨y, hy, hparent', -, rfl⟩ := mem_entriesOf.mp he'
  have hid := ht.siblings _ _ x y hx hy (hparent.trans hparent'.symm) hname
  rw [hid, hy] at hx
  rw [Option.some.inj hx]

def plansOf (s : MemoryState) (filter : ReplicaPlanFilter) : List ReplicaPlan :=
  (s.replicaPlans.values.filter filter.matches).insertionSort fun p q =>
    p.createdAt < q.createdAt ∨ (p.createdAt = q.createdAt ∧ p.id ≤ q.id)

lemma plansOf_increasing (filter : ReplicaPlanFilter) : (plansOf s filter).Pairwise planOrder := by
  have : Std.Total fun p q : ReplicaPlan =>
      p.createdAt < q.createdAt ∨ (p.createdAt = q.createdAt ∧ p.id ≤ q.id) := by
    constructor
    intro p q
    grind [String.le_total]
  have : IsTrans ReplicaPlan fun p q =>
      p.createdAt < q.createdAt ∨ (p.createdAt = q.createdAt ∧ p.id ≤ q.id) := by
    constructor
    intro p q r
    grind [String.le_trans]
  have hsorted := pairwise_insertionSort (fun p q : ReplicaPlan =>
      p.createdAt < q.createdAt ∨ (p.createdAt = q.createdAt ∧ p.id ≤ q.id))
    (s.replicaPlans.values.filter filter.matches)
  have hnodup : ((plansOf s filter).map ReplicaPlan.id).Nodup := by
    refine ((perm_insertionSort _ _).map _).nodup_iff.mpr ?_
    exact s.replicaPlans.nodup.sublist (filter_sublist.map _)
  refine (hsorted.and (pairwise_map.mp hnodup)).imp fun ⟨hle, hne⟩ => ?_
  exact hle.imp_right fun ⟨htime, hid⟩ => ⟨htime, Std.lt_of_le_of_ne hid hne⟩

/-- Pages partition the children of a directory after every run of calls, and the plans that pass
a filter in every state. -/
theorem pages_partition {arranged : ℕ → MemoryState}
    (harranged : ∀ k, catalog (arranged k) = catalog s) (hlimit : 0 < limit) :
    (∀ history d x, ServiceRun history s → (catalog s).inode d = some x →
      Paged arranged (fun k => listChildren d { limit := limit, offset := k * limit })
        (·.name < ·.name) (childEntries s d)) ∧
    ∀ filter : ReplicaPlanFilter,
      Paged arranged
        (fun k => listReplicaPlans { filter with limit := limit, offset := k * limit })
        planOrder {p | (catalog s).plan p.id = some p ∧ filter.matches p = true} := by
  constructor
  · intro history d x hrun hx
    have htree : Tree (catalog s) := (wellFormed_of_run hrun).tree
    have hd : d ≠ "" := by
      rintro rfl
      rw [htree.no_empty_id] at hx
      cases hx
    refine paged_of_windows (fun k => entriesOf (arranged k) d) hlimit ?_ ?_ ?_
    · intro k
      refine yields_listChildren.mpr ⟨hd, ?_, rfl, rfl⟩
      rw [harranged, hx]
      rfl
    · intro k
      exact entriesOf_increasing (harranged k ▸ htree) d
    · intro k e
      rw [mem_entriesOf, harranged]
      refine exists_congr fun y => and_congr_right fun hy => and_congr_right fun _ => ?_
      exact and_iff_right_of_imp fun _ => by simp [htree.active _ y hy]
  · intro filter
    have : Std.Asymm planOrder := ⟨fun p q => by grind [planOrder, String.lt_asymm]⟩
    refine paged_of_windows (fun k => plansOf (arranged k) filter) hlimit ?_ ?_ ?_
    · intro k
      simp only [listReplicaPlans, yields_get_bind, yields_pure]
      exact ⟨rfl, trivial⟩
    · exact fun k => plansOf_increasing filter
    · intro k p
      rw [plansOf, mem_insertionSort, mem_filter, Records.mem_values, ← harranged k]
      rfl

def twoPlans (k : ℕ) : MemoryState where
  replicaPlans :=
    if k % 2 = 0 then ((∅ : Records ReplicaPlan.id).put { id := "p" }).put { id := "q" }
    else ((∅ : Records ReplicaPlan.id).put { id := "q" }).put { id := "p" }

theorem pages_ofRoot :
    Paged (fun _ => (play 1 filledDirectories).2)
      (fun k => listChildren rootInodeID { limit := (1 : ℕ), offset := k * (1 : ℕ) })
      (·.name < ·.name) (childEntries (play 1 filledDirectories).2 rootInodeID) ∧
    Paged twoPlans (fun k => listReplicaPlans { limit := (1 : ℕ), offset := k * (1 : ℕ) })
      planOrder {p | (catalog (twoPlans 0)).plan p.id = some p ∧
        ReplicaPlanFilter.matches {} p = true} := by
  have hrun := serviceRun_play 1 filledDirectories
  obtain ⟨x, hx, -⟩ := (wellFormed_of_run hrun).tree.root
  refine ⟨(pages_partition (fun _ => rfl) Nat.one_pos).1 _ rootInodeID x hrun hx, ?_⟩
  refine (pages_partition (fun k => ?_) Nat.one_pos).2 {}
  by_cases hk : k % 2 = 0
  · simp [twoPlans, hk]
  · simp only [twoPlans, hk, catalog, Records.lookup_put, if_false, Nat.zero_mod, if_true]
    rw [Function.update_comm (by decide)]

end AstraStorage.Proofs
