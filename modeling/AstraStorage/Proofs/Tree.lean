import AstraStorage.Proofs.Changes

/-!
# The directory tree

`Tree` says that the inodes of a catalog form one directory tree under the root. A new leaf,
a removed leaf and a relabelled inode leave a tree.
-/

namespace AstraStorage.Proofs
open Lib Function Option Relation

structure Tree (c : Catalog) : Prop where
  no_empty_id : c.inode "" = none
  root : ∃ r, c.inode rootInodeID = some r ∧ r.parentID = "" ∧ r.type = .directory
  parent : ∀ i x, c.inode i = some x → i ≠ rootInodeID →
    ∃ p, c.inode x.parentID = some p ∧ p.type = .directory
  climbs : ∀ i x, c.inode i = some x → Climbs (parentOf c) i rootInodeID
  siblings : ∀ i j x y, c.inode i = some x → c.inode j = some y → x.parentID = y.parentID →
    x.name = y.name → i = j
  active : ∀ i x, c.inode i = some x → x.status = .active
  directory_file : ∀ i x, c.inode i = some x → x.type = .directory → x.fileID = ""

variable {c : Catalog} {i : InodeID} {x : InodeMetadata}

namespace Tree

section

variable (h : Tree c)
include h

lemma congr (hi : c'.inode = c.inode) : Tree c' := by
  have hparent : parentOf c' = parentOf c := by
    funext j
    simp [parentOf, hi]
  constructor
  · rw [hi]; exact h.no_empty_id
  · rw [hi]; exact h.root
  · rw [hi]; exact h.parent
  · rw [hi, hparent]; exact h.climbs
  · rw [hi]; exact h.siblings
  · rw [hi]; exact h.active
  · rw [hi]; exact h.directory_file

lemma parentID_ne_empty (hx : c.inode i = some x) (hroot : i ≠ rootInodeID) : x.parentID ≠ "" := by
  intro hempty
  obtain ⟨p, hp, _⟩ := h.parent i x hx hroot
  rw [hempty, h.no_empty_id] at hp
  cases hp

lemma directory_of_child (hx : c.inode n = some x) (hp : parentOf c p = some n) :
    x.type = .directory := by
  obtain ⟨y, hy, hyn⟩ := parentOf_eq_some.mp hp
  have hroot : p ≠ rootInodeID := by
    rintro rfl
    obtain ⟨r, hr, hrp, _⟩ := h.root
    obtain rfl : r = y := mem_unique hr hy
    rw [← hyn, hrp, h.no_empty_id] at hx
    cases hx
  obtain ⟨d, hd, hdir⟩ := h.parent p y hy hroot
  rw [hyn, hx] at hd
  cases hd
  exact hdir

lemma below_root (hx : c.inode i = some x) (hroot : i ≠ rootInodeID) :
    Below (parentOf c) i rootInodeID := by
  rcases climbs_iff_eq_or_below.mp (h.climbs i x hx) with heq | hb
  · exact absurd heq hroot
  · exact hb

lemma not_below_self (hx : c.inode i = some x) : ¬Below (parentOf c) i i := by
  obtain ⟨r, hr, hrp, _⟩ := h.root
  have hup : Up (parentOf c) rootInodeID "" := by simp [Up, parentOf, hr, hrp]
  have hout : parentOf c "" = none := by simp [parentOf, h.no_empty_id]
  exact not_below_self_of_climbs hout ((h.climbs i x hx).tail hup)

lemma eq_root_of_climbs (hx : c.inode n = some x)
    (hn : Climbs (parentOf c) rootInodeID n) : n = rootInodeID := by
  obtain ⟨r, hr, hrp, _⟩ := h.root
  have hup : parentOf c rootInodeID = some "" := parentOf_eq_some.mpr ⟨r, hr, hrp⟩
  have hout : parentOf c "" = none := by simp [parentOf, h.no_empty_id]
  rcases climbs_iff_eq_or_below.mp hn with heq | hb
  · exact heq.symm
  · rcases (below_iff_of_some hup).mp hb with rfl | hb
    · rw [h.no_empty_id] at hx
      cases hx
    · exact absurd hb (not_below_of_none hout)

lemma insert {parent : InodeMetadata} (hi : i ≠ "") (hroot : i ≠ rootInodeID)
    (hnew : c.inode i = none) (hparent : c.inode x.parentID = some parent)
    (hdir : parent.type = .directory) (hfree : NameFree c x.parentID x.name i)
    (hstatus : x.status = .active) (hfile : x.type = .directory → x.fileID = "")
    (hc : c'.inode = update c.inode i (some x)) : Tree c' := by
  have hsome : ∀ {j y}, c'.inode j = some y ↔ (j = i ∧ x = y) ∨ (j ≠ i ∧ c.inode j = some y) := by
    rw [hc]
    exact update_some_eq_some
  have hkept : ∀ {j y}, c.inode j = some y → c'.inode j = some y := by
    rw [hc]
    exact update_of_new hnew
  have hmono : ∀ j p, parentOf c j = some p → parentOf c' j = some p := by
    intro j p hp
    obtain ⟨y, hy, hyp⟩ := parentOf_eq_some.mp hp
    exact parentOf_eq_some.mpr ⟨y, hkept hy, hyp⟩
  have hfree' : ∀ j y, j ≠ i → c.inode j = some y → y.parentID = x.parentID →
      y.name ≠ x.name := by
    intro j y hj hy hp hn
    have := hfree j y hy hp hn hj
    rw [h.active j y hy] at this
    cases this
  constructor
  · rw [hc, update_of_ne hi.symm]
    exact h.no_empty_id
  · obtain ⟨r, hr, hrp⟩ := h.root
    exact ⟨r, hkept hr, hrp⟩
  · intro j y hy hj
    rcases hsome.mp hy with ⟨rfl, rfl⟩ | ⟨_, hy⟩
    · exact ⟨parent, hkept hparent, hdir⟩
    · obtain ⟨p, hp, hpd⟩ := h.parent j y hy hj
      exact ⟨p, hkept hp, hpd⟩
  · intro j y hy
    rcases hsome.mp hy with ⟨rfl, rfl⟩ | ⟨_, hold⟩
    · have hup : Up (parentOf c') j x.parentID := parentOf_eq_some.mpr ⟨x, hy, rfl⟩
      exact ReflTransGen.head hup (climbs_mono hmono (h.climbs _ _ hparent))
    · exact climbs_mono hmono (h.climbs j y hold)
  · intro j k y z hy hz hp hn
    rcases hsome.mp hy with ⟨rfl, rfl⟩ | ⟨hj, hy⟩
    · rcases hsome.mp hz with ⟨rfl, rfl⟩ | ⟨hk, hz⟩
      · rfl
      · exact absurd hn.symm (hfree' k z hk hz hp.symm)
    · rcases hsome.mp hz with ⟨rfl, rfl⟩ | ⟨_, hz⟩
      · exact absurd hn (hfree' j y hj hy hp)
      · exact h.siblings j k y z hy hz hp hn
  · intro j y hy
    rcases hsome.mp hy with ⟨_, rfl⟩ | ⟨_, hy⟩
    · exact hstatus
    · exact h.active j y hy
  · intro j y hy
    rcases hsome.mp hy with ⟨_, rfl⟩ | ⟨_, hy⟩
    · exact hfile
    · exact h.directory_file j y hy

lemma no_child (hleaf : Childless c i) (j : InodeID) : parentOf c j ≠ some i := by
  intro hp
  obtain ⟨y, hy, hyi⟩ := parentOf_eq_some.mp hp
  have := hleaf j y hy hyi
  rw [h.active j y hy] at this
  cases this

lemma remove (hroot : i ≠ rootInodeID) (hleaf : Childless c i)
    (hc : c'.inode = update c.inode i none) : Tree c' := by
  have hsome : ∀ {j y}, c'.inode j = some y ↔ j ≠ i ∧ c.inode j = some y := by
    rw [hc]
    exact update_none_eq_some
  have hagree : ∀ j, j ≠ i → parentOf c' j = parentOf c j := by
    intro j hj
    simp only [parentOf, hc, update_of_ne hj]
  constructor
  · rw [← not_isSome_iff_eq_none, isSome_iff_exists]
    rintro ⟨y, hy⟩
    rw [hsome, h.no_empty_id] at hy
    cases hy.2
  · obtain ⟨r, hr, hrp⟩ := h.root
    exact ⟨r, hsome.mpr ⟨hroot.symm, hr⟩, hrp⟩
  · intro j y hy hj
    have hy' := (hsome.mp hy).2
    obtain ⟨p, hp, hpd⟩ := h.parent j y hy' hj
    have hne : y.parentID ≠ i := by
      intro hyi
      exact h.no_child hleaf j (parentOf_eq_some.mpr ⟨y, hy', hyi⟩)
    exact ⟨p, hsome.mpr ⟨hne, hp⟩, hpd⟩
  · intro j y hy
    obtain ⟨hj, hy'⟩ := hsome.mp hy
    exact climbs_remove_leaf hagree (h.no_child hleaf) hj (h.climbs j y hy')
  · intro j k y z hy hz
    exact h.siblings j k y z (hsome.mp hy).2 (hsome.mp hz).2
  · intro j y hy
    exact h.active j y (hsome.mp hy).2
  · intro j y hy
    exact h.directory_file j y (hsome.mp hy).2

end

end Tree

section Relabel

variable {y : InodeMetadata}

@[simp] lemma repath_parentID : (repath c n x x' i y).parentID = y.parentID := by
  unfold repath
  split <;> rfl

@[simp] lemma repath_name : (repath c n x x' i y).name = y.name := by
  unfold repath
  split <;> rfl

@[simp] lemma repath_type : (repath c n x x' i y).type = y.type := by
  unfold repath
  split <;> rfl

@[simp] lemma repath_status : (repath c n x x' i y).status = y.status := by
  unfold repath
  split <;> rfl

@[simp] lemma repath_fileID : (repath c n x x' i y).fileID = y.fileID := by
  unfold repath
  split <;> rfl

variable (h : Relabelled c c' n x x')
include h

lemma Relabelled.of_new (hi : i ≠ n) (hy : c'.inode i = some y) :
    ∃ y0, c.inode i = some y0 ∧ y.parentID = y0.parentID ∧ y.name = y0.name ∧
      y.type = y0.type ∧ y.status = y0.status ∧ y.fileID = y0.fileID := by
  rw [h.inode i hi, map_eq_some_iff] at hy
  obtain ⟨y0, hy0, rfl⟩ := hy
  exact ⟨y0, hy0, by simp⟩

lemma Relabelled.of_old (hi : i ≠ n) (hy : c.inode i = some y) :
    c'.inode i = some (repath c n x x' i y) := by
  rw [h.inode i hi, hy, map_some]

lemma Relabelled.parentOf_ne (hi : i ≠ n) : parentOf c' i = parentOf c i := by
  simp only [parentOf, h.inode i hi, Option.map_map]
  congr 1
  funext y
  simp

lemma Relabelled.parentOf_self : parentOf c' n = some x'.parentID := by
  simp [parentOf, h.self]

end Relabel

namespace Tree

lemma relabel (ht : Tree c) (h : Relabelled c c' n x x') (htype : x'.type = x.type)
    (hstatus : x'.status = x.status) (hfileID : x'.fileID = x.fileID)
    (hfree : NameFree c x'.parentID x'.name n)
    (hplace : x'.parentID = x.parentID ∨
      n ≠ rootInodeID ∧ ¬Climbs (parentOf c) x'.parentID n ∧
        ∃ p, c.inode x'.parentID = some p ∧ p.type = .directory) : Tree c' := by
  have hdirs : ∀ i y, c.inode i = some y → y.type = .directory →
      ∃ y', c'.inode i = some y' ∧ y'.type = .directory := by
    intro i y hy hdir
    by_cases hi : i = n
    · subst hi
      obtain rfl : x = y := mem_unique h.stored hy
      exact ⟨x', h.self, htype.trans hdir⟩
    · exact ⟨_, h.of_old hi hy, by simpa using hdir⟩
  have hagree : ∀ j, j ≠ n → parentOf c' j = parentOf c j := fun j hj => h.parentOf_ne hj
  have hfree' : ∀ j y, j ≠ n → c.inode j = some y → y.parentID = x'.parentID →
      y.name ≠ x'.name := by
    intro j y hj hy hp hn
    have := hfree j y hy hp hn hj
    rw [ht.active j y hy] at this
    cases this
  have hclimbs : ∀ i y, c.inode i = some y → Climbs (parentOf c') i rootInodeID := by
    intro i y hy
    rcases hplace with hsame | ⟨_, hq, p, hp, _⟩
    · have hpar : parentOf c' = parentOf c := by
        funext j
        by_cases hj : j = n
        · rw [hj, h.parentOf_self, hsame]
          simp [parentOf, h.stored]
        · exact hagree j hj
      rw [hpar]
      exact ht.climbs i y hy
    · exact climbs_move hagree h.parentOf_self (ht.climbs _ p hp) hq (ht.climbs i y hy)
  constructor
  · have hne : "" ≠ n := by
      rintro rfl
      have := h.stored
      rw [ht.no_empty_id] at this
      cases this
    rw [h.inode "" hne, ht.no_empty_id, map_none]
  · obtain ⟨r, hr, hrp, hrd⟩ := ht.root
    by_cases hn : rootInodeID = n
    · rcases hplace with hsame | ⟨hroot, _⟩
      · subst hn
        obtain rfl : x = r := mem_unique h.stored hr
        exact ⟨x', h.self, hsame.trans hrp, htype.trans hrd⟩
      · exact absurd hn.symm hroot
    · exact ⟨_, h.of_old hn hr, by simpa using hrp, by simpa using hrd⟩
  · intro i y hy hi
    by_cases hin : i = n
    · subst hin
      rw [h.self] at hy
      cases hy
      rcases hplace with hsame | ⟨_, _, p, hp, hpd⟩
      · obtain ⟨p, hp, hpd⟩ := ht.parent i x h.stored hi
        rw [hsame]
        exact hdirs _ p hp hpd
      · exact hdirs _ p hp hpd
    · obtain ⟨y0, hy0, hpar, _⟩ := h.of_new hin hy
      obtain ⟨p, hp, hpd⟩ := ht.parent i y0 hy0 hi
      rw [hpar]
      exact hdirs _ p hp hpd
  · intro i y hy
    by_cases hin : i = n
    · subst hin
      exact hclimbs i x h.stored
    · obtain ⟨y0, hy0, _⟩ := h.of_new hin hy
      exact hclimbs i y0 hy0
  · intro i j y z hy hz hp hn
    by_cases hin : i = n
    · by_cases hjn : j = n
      · rw [hin, hjn]
      · rw [hin, h.self] at hy
        cases hy
        obtain ⟨z0, hz0, hzp, hzn, _⟩ := h.of_new hjn hz
        exact absurd (hzn.symm.trans hn.symm) (hfree' j z0 hjn hz0 (hzp.symm.trans hp.symm))
    · obtain ⟨y0, hy0, hyp, hyn, _⟩ := h.of_new hin hy
      by_cases hjn : j = n
      · rw [hjn, h.self] at hz
        cases hz
        exact absurd (hyn.symm.trans hn) (hfree' i y0 hin hy0 (hyp.symm.trans hp))
      · obtain ⟨z0, hz0, hzp, hzn, _⟩ := h.of_new hjn hz
        exact ht.siblings i j y0 z0 hy0 hz0 (by rw [← hyp, ← hzp, hp]) (by rw [← hyn, ← hzn, hn])
  · intro i y hy
    by_cases hin : i = n
    · rw [hin, h.self] at hy
      cases hy
      exact hstatus.trans (ht.active n x h.stored)
    · obtain ⟨y0, hy0, _, _, _, hs, _⟩ := h.of_new hin hy
      exact hs.trans (ht.active i y0 hy0)
  · intro i y hy hdir
    by_cases hin : i = n
    · rw [hin, h.self] at hy
      cases hy
      exact hfileID.trans (ht.directory_file n x h.stored (htype.symm.trans hdir))
    · obtain ⟨y0, hy0, _, _, ht0, _, hf⟩ := h.of_new hin hy
      exact hf.trans (ht.directory_file i y0 hy0 (ht0.symm.trans hdir))

lemma target_outside (ht : Tree c) (hx : c.inode n = some x) (hp : c.inode q = some p)
    (hself : n ≠ q) (hbelow : x.type = .directory → ¬Below (parentOf c) q n) :
    n ≠ rootInodeID ∧ ¬Climbs (parentOf c) q n := by
  have hnot : ¬Below (parentOf c) q n := by
    intro hb
    obtain ⟨j, _, hj⟩ := TransGen.tail'_iff.mp hb
    exact hbelow (ht.directory_of_child hx hj) hb
  constructor
  · rintro rfl
    exact hnot (ht.below_root hp hself.symm)
  · intro hc
    rcases climbs_iff_eq_or_below.mp hc with heq | hb
    · exact hself heq.symm
    · exact hnot hb

end Tree

end AstraStorage.Proofs
