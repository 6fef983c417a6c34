import AstraStorage.Model.Postgres

/-!
# Concurrent moves in Postgres

Two `MoveInode` transactions interleave statement by statement. When both have committed each moved
inode is where its request puts it, and the table is a tree unless each target lay in the subtree
of the other moved inode.
-/

namespace AstraStorage.Proofs
open Lib Postgres Function List Relation Records
open Prog hiding op
open Service (MoveInodeRequest)

variable {o : Statement} {P : Database Bool → Prop} {n j : InodeID} {rounds : Nat}
  {row : InodeMetadata} {α : Type} {name : String} {op : Store.UpdateSubtreePathsOperation}

structure RootedTree (rows : InodeRows) : Prop where
  no_empty_id : rows.lookup "" = none
  root : parentIn rows rootInodeID = some ""
  climbs : ∀ j row, rows.lookup j = some row → Climbs (parentIn rows) j rootInodeID

def Crossing (rows : InodeRows) (req : Bool → MoveInodeRequest) : Prop :=
  (req false).inodeID ≠ (req true).inodeID ∧
    ∀ i, Climbs (parentIn rows) (req i).targetParentID (req !i).inodeID

lemma parentIn_eq_some :
    parentIn rows j = some p ↔ ∃ row, rows.lookup j = some row ∧ row.parentID = p := by
  simp [parentIn]

section TwoTransactions

/- `rows` is the table at the start; transaction `i` puts inode `x i` under `a i`. -/
variable {rows : InodeRows} {x a : Bool → InodeID} {i : Bool} {d d' : Database Bool}

/-! ### What the statements keep -/

def Version (rows : InodeRows) (x a : Bool → InodeID) (j : InodeID) (row : InodeMetadata) : Prop :=
  ∃ first, rows.lookup j = some first ∧ row.type = first.type ∧
    (row.parentID = first.parentID ∨ ∃ k, j = x k ∧ row.parentID = a k)

structure Consistent (rows : InodeRows) (x a : Bool → InodeID) (d : Database Bool) : Prop where
  kept : ∀ j, rows.lookup j ≠ none → d.committed.lookup j ≠ none
  version : ∀ j row, d.committed.lookup j = some row → Version rows x a j row
  own : ∀ i j row, (d.written i).lookup j = some row → ∃ old, d.committed.lookup j = some old ∧
    row.type = old.type ∧ (row.parentID = old.parentID ∨ j = x i ∧ row.parentID = a i)
  locks : ∀ i j, (d.written i).lookup j ≠ none → (d.written !i).lookup j = none

def Others (rows : InodeRows) (x a : Bool → InodeID) (i : Bool) (d d' : Database Bool) : Prop :=
  Consistent rows x a d → Consistent rows x a d' ∧ d'.written i = d.written i ∧
    (x i ≠ x !i → parentIn d'.committed (x i) = parentIn d.committed (x i))

lemma Others.refl (i : Bool) (d : Database Bool) : Others rows x a i d d :=
  fun hd => ⟨hd, rfl, fun _ => rfl⟩

lemma Others.trans (h : Others rows x a i d d') (h' : Others rows x a i d' d'') :
    Others rows x a i d d'' := by
  intro hd
  obtain ⟨hd', hwritten, hparent⟩ := h hd
  obtain ⟨hd'', hwritten', hparent'⟩ := h' hd'
  exact ⟨hd'', hwritten'.trans hwritten, fun hx => (hparent' hx).trans (hparent hx)⟩

lemma lookup_sees (d : Database Bool) (i : Bool) (j : InodeID) :
    (d.sees i).lookup j = ((d.written i).lookup j).or (d.committed.lookup j) :=
  lookup_merge ..

namespace Consistent

lemma seen (hd : Consistent rows x a d) (h : (d.sees i).lookup j = some row) :
    ∃ old, d.committed.lookup j = some old ∧
      row.type = old.type ∧ (row.parentID = old.parentID ∨ j = x i ∧ row.parentID = a i) := by
  rw [lookup_sees, Option.or_eq_some_iff] at h
  rcases h with h | ⟨_, h⟩
  · exact hd.own i j row h
  · exact ⟨row, h, rfl, .inl rfl⟩

lemma write (hd : Consistent rows x a d)
    (hw : ∀ j row, w.lookup j = some row → (d.written !i).lookup j = none ∧
      ∃ old, d.committed.lookup j = some old ∧ row.type = old.type ∧
        (row.parentID = old.parentID ∨ j = x i ∧ row.parentID = a i)) :
    Others rows x a (!i) d { d with written := update d.written i w } := by
  intro _
  refine ⟨⟨hd.kept, hd.version, ?_, ?_⟩, ?_, fun _ => rfl⟩
  · intro k j row hrow
    by_cases hk : k = i
    · subst hk
      simp only [update_self] at hrow
      exact (hw j row hrow).2
    · simp only [update_of_ne hk] at hrow
      exact hd.own k j row hrow
  · intro k j hj
    by_cases hk : k = i
    · subst hk
      simp only [update_self] at hj
      obtain ⟨row, hrow⟩ := Option.ne_none_iff_exists'.mp hj
      simpa using (hw j row hrow).1
    · obtain rfl : i = !k := by
        rw [Bool.eq_not_of_ne hk, Bool.not_not]
      simp only [update_of_ne hk] at hj
      simp only [update_self]
      by_contra hne
      obtain ⟨row, hrow⟩ := Option.ne_none_iff_exists'.mp hne
      have := (hw j row hrow).1
      rw [Bool.not_not] at this
      exact hj this
  · exact update_of_ne (by simp) ..

lemma commit (hd : Consistent rows x a d) :
    Others rows x a (!i) d { committed := d.committed.merge (d.written i),
                             written := update d.written i ∅ } := by
  intro _
  have hlookup : ∀ j, (d.committed.merge (d.written i)).lookup j =
      ((d.written i).lookup j).or (d.committed.lookup j) := fun j => lookup_merge ..
  refine ⟨⟨?_, ?_, ?_, ?_⟩, update_of_ne (by simp) .., ?_⟩
  · intro j hj
    rw [hlookup, Ne, Option.or_eq_none_iff]
    exact fun h => hd.kept j hj h.2
  · intro j row hrow
    obtain ⟨old, hold, htype, hparent⟩ := hd.seen hrow
    obtain ⟨first, hfirst, htype', hparent'⟩ := hd.version j old hold
    refine ⟨first, hfirst, htype.trans htype', ?_⟩
    rcases hparent with hparent | hmoved
    · rw [hparent]
      exact hparent'
    · exact .inr ⟨i, hmoved⟩
  · intro k j row hrow
    by_cases hk : k = i
    · subst hk
      simp at hrow
    · simp only [update_of_ne hk] at hrow
      have hfree : (d.written i).lookup j = none := by
        have := hd.locks k j (by simp [hrow])
        rwa [← Bool.eq_not_of_ne (Ne.symm hk)] at this
      simpa only [hlookup, hfree, Option.none_or] using hd.own k j row hrow
  · intro k j hj
    by_cases hk : k = i
    · subst hk
      simp at hj
    · obtain rfl : i = !k := by
        rw [Bool.eq_not_of_ne hk, Bool.not_not]
      simp
  · intro hx
    rw [Bool.not_not] at hx
    unfold parentIn
    rw [hlookup]
    cases hown : (d.written i).lookup (x !i) with
    | none => rfl
    | some row =>
      obtain ⟨old, hold, _, hparent | ⟨heq, _⟩⟩ := hd.own i _ row hown
      · simp [hold, hparent]
      · exact absurd heq hx

end Consistent

def Allowed (x a : Bool → InodeID) (i : Bool) : Statement → Prop
  | .updateParent id parentID _ _ _ => id = x i ∧ parentID = a i
  | _ => True

lemma others_of_does (ho : Allowed x a i o) (h : d.Does i o r d') : Others rows x a (!i) d d' := by
  cases o with
  | begin | getFile _ | listFiles _ | updateFile _ => exact h ▸ Others.refl _ _
  | selectInode selector =>
    cases r with
    | none | some row => exact h.1 ▸ Others.refl _ _
  | selectSibling parentID name excludeID => exact h.1 ▸ Others.refl _ _
  | updateParent id parentID name path updatedAt =>
    obtain ⟨rfl, rfl⟩ := ho
    obtain ⟨hfree, rfl⟩ := h
    cases hrow : (d.sees i).lookup (x i) with
    | none => exact Others.refl _ _
    | some row =>
      intro hd
      refine hd.write ?_ hd
      intro j new hnew
      rw [lookup_put] at hnew
      rcases update_some_eq_some.mp hnew with ⟨hj, rfl⟩ | ⟨_, hj⟩
      · have hid : row.id = x i := key_of_lookup hrow
        obtain rfl : j = x i := hj.trans hid
        obtain ⟨old, hold, htype, _⟩ := hd.seen hrow
        exact ⟨hfree _ (by simp), old, hold, htype, .inr ⟨rfl, rfl⟩⟩
      · exact ⟨hd.locks i j (by simp [hj]), hd.own i j new hj⟩
  | updateSubtree op =>
    obtain ⟨_, below, hbelow, hfree, rfl⟩ := h
    intro hd
    refine hd.write ?_ hd
    intro j new hnew
    rw [lookup_merge, Option.or_eq_some_iff] at hnew
    rcases hnew with hj | ⟨_, hj⟩
    · have hmem := lookup_eq_some.mp hj
      obtain ⟨old, ⟨hold, _⟩, rfl⟩ := (hbelow new).mp hmem.1
      obtain ⟨old', hold', hsame⟩ := hd.seen hold
      obtain rfl : old.id = j := hmem.2
      exact ⟨hfree _ hmem.1 _ (by simp), old', hold', hsame⟩
    · exact ⟨hd.locks i j (by simp [hj]), hd.own i j new hj⟩
  | commit =>
    obtain rfl := h
    exact fun hd => hd.commit hd
  | rollback =>
    obtain rfl := h
    intro hd
    refine hd.write ?_ hd
    intro j row hrow
    simp at hrow

lemma others_of_readCommitted (ho : Allowed x a i o) (h : readCommitted i o d r d') :
    Others rows x a (!i) d d' := by
  cases r with
  | error e => exact h.2 ▸ Others.refl _ _
  | ok r => exact others_of_does ho h

/-! ### What the transaction finds out -/

abbrev TxTriple (rows : InodeRows) (x a : Bool → InodeID) (i : Bool) {α : Type}
    (P : Database Bool → Prop) (fn : TxM α) (Q : α → Database Bool → Prop) : Prop :=
  Triple (readCommitted i) (Others rows x a i) (fun _ => Others rows x a !i) P fn Q

def Fresh (rows : InodeRows) (x a : Bool → InodeID) (i : Bool) (d : Database Bool) : Prop :=
  Consistent rows x a d ∧ d.written i = ∅

def Placed (rows : InodeRows) (x a : Bool → InodeID) (i : Bool) (d : Database Bool) : Prop :=
  Consistent rows x a d ∧ parentIn (d.written i) (x i) = some (a i)

def Moved (rows : InodeRows) (x a : Bool → InodeID) (i : Bool) (d : Database Bool) : Prop :=
  Consistent rows x a d ∧ (x i ≠ x !i → parentIn d.committed (x i) = some (a i))

lemma Fresh.stable : Stable (Others rows x a i) (Fresh rows x a i) := by
  intro d d' hd h
  obtain ⟨hd', hwritten, _⟩ := h hd.1
  exact ⟨hd', hwritten.trans hd.2⟩

lemma Placed.stable : Stable (Others rows x a i) (Placed rows x a i) := by
  intro d d' hd h
  obtain ⟨hd', hwritten, _⟩ := h hd.1
  exact ⟨hd', hwritten ▸ hd.2⟩

lemma Moved.stable : Stable (Others rows x a i) (Moved rows x a i) := by
  intro d d' hd h
  obtain ⟨hd', _, hparent⟩ := h hd.1
  exact ⟨hd', fun hx => (hparent hx).trans (hd.2 hx)⟩

section

variable (hP : Stable (Others rows x a i) P)
include hP

lemma stable_and : Stable (Others rows x a i) fun d => F ∧ P d :=
  fun d d' hd h => ⟨hd.1, hP d d' hd.2 h⟩

lemma triple_query (hQ : ∀ r, Stable (Others rows x a i) (Q r)) (ho : Allowed x a i o)
    (h : ∀ d r d', P d → d.Does i o r d' → Q r d') : TxTriple rows x a i P (query o) Q := by
  intro d hd t ht r u hu
  refine ⟨others_of_readCommitted ho hu, ?_⟩
  cases r with
  | error e => exact fun _ _ => trivial
  | ok r => exact fun u' hu' => hQ r u u' (h t r u (hP d t hd ht) hu) hu'

lemma triple_exec (hQ : ∀ r, Stable (Others rows x a i) (Q r)) (ho : Allowed x a i o)
    (h : ∀ d r d', P d → d.Does i o r d' → Q r d') : TxTriple rows x a i P (exec o) Q := by
  refine triple_bind (Others.refl i) (triple_attempt (Others.refl i) (Stable.onSuccess hQ)
    (triple_query hP hQ ho h)) ?_
  rintro (e | r)
  · exact triple_throw
  · exact triple_pure (hQ r) fun _ hd => hd

lemma triple_reject [Decidable c] {format : String} {next : Unit → TxM α}
    {Q : α → Database Bool → Prop}
    (h : ¬c → TxTriple rows x a i P (next ()) Q) :
    TxTriple rows x a i P (reject c kind format args >>= next) Q := by
  unfold reject
  by_cases hc : c
  · rw [if_pos hc]
    exact triple_bind (Others.refl i) (triple_throw (Q := fun _ _ => False))
      fun _ _ hd => hd.elim
  · rw [if_neg hc]
    exact triple_bind (Others.refl i) (triple_pure hP fun _ hd => hd) fun _ => h hc

end

def Reads : Statement → Prop
  | .updateParent .. | .updateSubtree _ | .commit | .rollback => False
  | _ => True

lemma does_reads (ho : Reads o) (h : d.Does i o r d') : d' = d := by
  cases o with
  | begin | getFile _ | listFiles _ | updateFile _ => exact h
  | selectInode selector =>
    cases r with
    | none | some row => exact h.1
  | selectSibling parentID name excludeID => exact h.1
  | updateParent _ _ _ _ _ | updateSubtree _ | commit | rollback => exact ho.elim

lemma triple_reads (hP : Stable (Others rows x a i) P) (ho : Reads o) :
    TxTriple rows x a i P (query o) fun _ => P := by
  have hallowed : Allowed x a i o := by
    cases o <;> trivial
  refine triple_query hP (fun _ => hP) hallowed ?_
  intro d r d' hd h
  rw [does_reads ho h]
  exact hd

def Found (rows : InodeRows) (x a : Bool → InodeID) (i : Bool) (n : InodeID) :
    Except TxError InodeMetadata → Database Bool → Prop
  | .ok row, d => (row.id = n ∧ Version rows x a n row) ∧ Fresh rows x a i d
  | .error (.store _), d => rows.lookup n = none ∧ Fresh rows x a i d
  | .error _, _ => True

lemma Found.stable (r : Except TxError InodeMetadata) :
    Stable (Others rows x a i) (Found rows x a i n r) := by
  rcases r with (_ | _ | _) | row
  · exact stable_and Fresh.stable
  · exact fun _ _ _ _ => trivial
  · exact fun _ _ _ _ => trivial
  · exact stable_and Fresh.stable

lemma getInode_run (hn : n ≠ "") :
    (getInode { id := n }).run = .op (I := sql) (.selectInode { id := n }) fun
      | .ok (some row) => .done (.ok row)
      | .ok none => .done (.error (.store ⟨.notFound, "inode", []⟩))
      | .error e => .done (.error e) := by
  simp only [getInode, reject, hn, false_and, if_false]
  refine congrArg (Prog.op _) (funext fun r => ?_)
  rcases r with e | _ | row <;> rfl

lemma lookup_sees_of_fresh (hd : Fresh rows x a i d) (j : InodeID) :
    (d.sees i).lookup j = d.committed.lookup j := by
  rw [lookup_sees, hd.2]
  simp

lemma selected_id (hn : n ≠ "") : selected { id := n } row = true ↔ row.id = n := by
  simp [selected, hn]

lemma getInode_fresh (hn : n ≠ "") (hd : Fresh rows x a i d) :
    (getInode { id := n }).run.Guarantees (readCommitted i) (Others rows x a i)
      (fun _ => Others rows x a !i) (Found rows x a i n) d := by
  rw [getInode_run hn]
  intro t ht r u hu
  have hfresh := Fresh.stable d t hd ht
  refine ⟨others_of_readCommitted (o := .selectInode { id := n }) trivial hu, ?_⟩
  rcases r with e | _ | row
  · obtain ⟨⟨e', rfl⟩, _⟩ := hu
    exact fun _ _ => trivial
  · obtain ⟨rfl, hnone⟩ := hu
    have habsent : rows.lookup n = none := by
      by_contra hne
      obtain ⟨row, hrow⟩ := Option.ne_none_iff_exists'.mp (hfresh.1.kept n hne)
      rw [← lookup_sees_of_fresh hfresh] at hrow
      obtain ⟨hmem, hid⟩ := lookup_eq_some.mp hrow
      have := hnone row hmem
      rw [(selected_id hn).mpr hid] at this
      cases this
    exact fun u' hu' => Found.stable (.error (.store _)) u u' ⟨habsent, hfresh⟩ hu'
  · obtain ⟨rfl, hmem, hsel⟩ := hu
    have hid : row.id = n := (selected_id hn).mp hsel
    have hrow : u.committed.lookup n = some row := by
      rw [← lookup_sees_of_fresh hfresh]
      exact lookup_eq_some.mpr ⟨hmem, hid⟩
    exact fun u' hu' =>
      Found.stable (.ok row) u u' ⟨⟨hid, hfresh.1.version n row hrow⟩, hfresh⟩ hu'

lemma triple_getInode (hn : n ≠ "") :
    TxTriple rows x a i (Fresh rows x a i) (getInode { id := n }) fun row d =>
      (row.id = n ∧ Version rows x a n row) ∧ Fresh rows x a i d := by
  intro d hd
  apply (getInode_fresh hn hd).mono
  rintro (e | row) t ht
  · trivial
  · exact ht

lemma triple_isDescendant (hempty : rows.lookup "" = none) :
    TxTriple rows x a i (Fresh rows x a i) (isDescendant rounds n (x i)) fun b d =>
      (b = false → n ≠ x i →
        ¬Climbs (update (parentIn rows) (x !i) none) n (x i)) ∧ Fresh rows x a i d := by
  -- a node without a row is the end of the walk
  have hend {n : InodeID} (h : rows.lookup n = none) (hn : n ≠ x i) :
      ¬Climbs (update (parentIn rows) (x !i) none) n (x i) := by
    have hnone : update (parentIn rows) (x !i) none n = none := by
      by_cases hother : n = x !i
      · rw [hother, update_self]
      · rw [update_of_ne hother, parentIn, h]
        rfl
    rw [climbs_iff_of_none hnone]
    exact hn
  induction rounds generalizing n with
  | zero => exact triple_throw
  | succ rounds ih =>
    rw [isDescendant]
    by_cases hn : n = ""
    · simp only [hn, if_true]
      exact triple_pure Fresh.stable fun _ hd => ⟨fun _ => hend hempty, hd⟩
    · simp only [hn, if_false]
      refine triple_bind (Others.refl i) (triple_attempt (Others.refl i) Found.stable
        fun d hd => getInode_fresh hn hd) ?_
      rintro ((⟨_ | _ | _ | _, _, _⟩ | _ | _) | row)
      · exact triple_pure (stable_and Fresh.stable) fun _ hd => ⟨fun _ => hend hd.1, hd.2⟩
      iterate 5 · exact triple_throw
      · refine triple_of_pure fun hrow => ?_
        obtain ⟨_, first, hfirst, _, hparent⟩ := hrow
        by_cases hmet : row.parentID = x i
        · simp only [hmet, if_true]
          exact triple_pure Fresh.stable fun _ hd => ⟨fun h => absurd h (by decide), hd⟩
        · simp only [hmet, if_false]
          refine ih.post fun b d hd => ⟨fun hb hne hclimbs => ?_, hd.2⟩
          obtain heq | ⟨p, hp, hpx⟩ := ReflTransGen.cases_head hclimbs
          · exact hne heq
          · have hother : n ≠ x !i := by
              intro h
              unfold Up at hp
              rw [h, update_self] at hp
              cases hp
            have hstep : parentIn rows n = some p := by
              rw [← hp, update_of_ne hother]
            have hsame : row.parentID = first.parentID := by
              rcases hparent with h | ⟨k, hk, _⟩
              · exact h
              · rcases Bool.eq_or_eq_not k i with rfl | rfl
                · exact absurd hk hne
                · exact absurd hk hother
            have hp' : p = row.parentID := by
              rw [parentIn, hfirst] at hstep
              exact (Option.some.inj hstep).symm.trans hsame.symm
            exact hd.1 hb hmet (hp' ▸ hpx)

lemma triple_inodeNameTaken (hP : Stable (Others rows x a i) P) :
    TxTriple rows x a i P (inodeNameTaken parentID name excludeID) fun _ => P := by
  refine triple_ite (fun _ => ?_) fun _ => ?_
  · exact triple_pure hP fun _ hd => hd
  · refine triple_bind (Others.refl i) (triple_reads hP trivial) fun _ => ?_
    exact triple_pure hP fun _ hd => hd

lemma triple_updateParent (hx : rows.lookup (x i) ≠ none) :
    TxTriple rows x a i (Fresh rows x a i) (exec (.updateParent (x i) (a i) name path updatedAt))
      fun _ => Placed rows x a i := by
  refine triple_exec Fresh.stable (fun _ => Placed.stable) ⟨rfl, rfl⟩ ?_
  intro d r d' hd h
  have hd' : Consistent rows x a d' := by
    have hallowed : Allowed x a i (.updateParent (x i) (a i) name path updatedAt) := ⟨rfl, rfl⟩
    exact (others_of_does hallowed h hd.1).1
  obtain ⟨row, hrow⟩ := Option.ne_none_iff_exists'.mp (hd.1.kept _ hx)
  rw [← lookup_sees_of_fresh hd] at hrow
  obtain ⟨_, rfl⟩ := h
  have hid : row.id = x i := key_of_lookup hrow
  refine ⟨hd', ?_⟩
  rw [hrow]
  simp only [parentIn, update_self, lookup_put, hid]
  rfl

lemma triple_moveInode {op : Store.MoveInodeOperation} (hempty : rows.lookup "" = none)
    (hdir : ∀ j p row, parentIn rows j = some p → rows.lookup p = some row → row.type = .directory)
    (hsel : op.selector = { id := x i }) (htarget : op.targetParentID = a i) (hx : x i ≠ "")
    (ha : a i ≠ "") :
    TxTriple rows x a i (Fresh rows x a i) (moveInode rounds op) fun _ d =>
      ¬Climbs (update (parentIn rows) (x !i) none) (a i) (x i) ∧ Placed rows x a i d := by
  rw [moveInode, hsel, htarget]
  refine triple_bind (Others.refl i) (triple_getInode hx) fun inode => ?_
  refine triple_of_pure fun hinode => ?_
  obtain ⟨hid, first, hfirst, htype, _⟩ := hinode
  refine triple_reject Fresh.stable fun _ => ?_
  refine triple_reject Fresh.stable fun _ => ?_
  refine triple_bind (Others.refl i) (triple_getInode ha) fun parent => ?_
  refine triple_of_pure fun _ => ?_
  refine triple_reject Fresh.stable fun _ => ?_
  refine triple_reject Fresh.stable fun hself => ?_
  rw [hid] at hself ⊢
  -- the name check and the update, which both branches end with
  have hplace (name path : String) :
      TxTriple rows x a i (Fresh rows x a i) (do
        let taken ← inodeNameTaken (a i) name (x i)
        reject (taken = true) .alreadyExists "duplicate name %q under parent %q"
          [.text name, .text (a i)]
        exec (.updateParent (x i) (a i) name path op.updatedAt)) fun _ => Placed rows x a i := by
    refine triple_bind (Others.refl i) (triple_inodeNameTaken Fresh.stable) fun taken => ?_
    refine triple_reject Fresh.stable fun _ => ?_
    exact triple_updateParent (by simp [hfirst])
  by_cases htd : inode.type = .directory
  · simp only [htd]
    refine triple_bind (Others.refl i) (triple_isDescendant hempty) fun descendant => ?_
    refine triple_of_pure fun hwalk => ?_
    refine triple_reject Fresh.stable fun hfalse => ?_
    have hclear := hwalk (by simpa using hfalse) (Ne.symm hself)
    exact (hplace _ _).post fun _ d hd => ⟨hclear, hd⟩
  · simp only [htd]
    refine (hplace _ _).post fun _ d hd => ⟨fun hclimbs => ?_, hd⟩
    obtain heq | hbelow := climbs_iff_eq_or_below.mp hclimbs
    · exact hself heq.symm
    · obtain ⟨c, _, hc⟩ := TransGen.tail'_iff.mp hbelow
      have hparent : parentIn rows c = some (x i) := by
        by_cases hother : c = x !i
        · unfold Up at hc
          rw [hother, update_self] at hc
          cases hc
        · rw [← hc, update_of_ne hother]
      exact htd (htype.trans (hdir c _ first hparent hfirst))

lemma triple_updateSubtree :
    TxTriple rows x a i (Placed rows x a i) (exec (.updateSubtree op)) fun _ =>
      Placed rows x a i := by
  refine triple_exec Placed.stable (fun _ => Placed.stable) trivial ?_
  intro d r d' hd h
  have hd' : Consistent rows x a d' := by
    exact (others_of_does (o := .updateSubtree op) trivial h hd.1).1
  refine ⟨hd', ?_⟩
  obtain ⟨_, below, hbelow, _, rfl⟩ := h
  obtain ⟨row, hrow, hparent⟩ := parentIn_eq_some.mp hd.2
  simp only [parentIn, update_self, lookup_merge]
  -- a new version of the row keeps the parent of the version that the transaction sees
  cases hnew : below.lookup (x i) with
  | none => simp [hrow, hparent]
  | some new =>
    obtain ⟨hmem, hid⟩ := lookup_eq_some.mp hnew
    obtain ⟨old, ⟨hold, _⟩, rfl⟩ := (hbelow new).mp hmem
    have hold' : (d.sees i).lookup (x i) = some row := by
      rw [lookup_sees, hrow]
      rfl
    obtain rfl : old = row := by
      rw [show old.id = x i from hid, hold'] at hold
      exact (Option.some.inj hold).symm
    simp [underNewPath, hparent]

lemma triple_getInode_placed :
    TxTriple rows x a i (Placed rows x a i) (getInode { id := n }) fun _ => Placed rows x a i := by
  refine triple_reject Placed.stable fun _ => ?_
  refine triple_bind (Others.refl i) (triple_reads Placed.stable trivial) fun found => ?_
  cases found with
  | none => exact triple_throw
  | some row => exact triple_pure Placed.stable fun _ hd => hd

lemma triple_updateSubtreePaths :
    TxTriple rows x a i (Placed rows x a i) (updateSubtreePaths op) fun _ => Placed rows x a i := by
  refine triple_reject Placed.stable fun _ => ?_
  refine triple_bind (Others.refl i) (triple_attempt (Others.refl i)
    (Stable.onSuccess fun _ => Placed.stable) triple_getInode_placed) ?_
  rintro ((⟨_ | _ | _ | _, _, _⟩ | _ | _) | row)
  iterate 6 · exact triple_throw
  · exact triple_updateSubtree

lemma triple_syncInodeMutation {before after : InodeMetadata} :
    TxTriple rows x a i (Placed rows x a i) (syncInodeMutation before after oldPath when) fun _ =>
      Placed rows x a i := by
  refine triple_ite (fun _ => ?_) fun _ => ?_
  · refine triple_bind (Others.refl i) (triple_reads Placed.stable trivial) fun file => ?_
    exact triple_reads Placed.stable trivial
  · refine triple_bind (Others.refl i) triple_updateSubtreePaths fun _ => ?_
    refine triple_bind (Others.refl i) (triple_reads Placed.stable trivial) fun files => ?_
    refine triple_forM (Others.refl i) Placed.stable fun file _ => ?_
    have hskip : TxTriple rows x a i (Placed rows x a i) (pure ()) fun _ => Placed rows x a i :=
      triple_pure Placed.stable fun _ hd => hd
    refine triple_ite (fun _ => hskip) fun _ => ?_
    exact triple_ite (fun _ => hskip) fun _ => triple_reads Placed.stable trivial

lemma triple_commit :
    TxTriple rows x a i (Placed rows x a i) (query .commit) fun _ => Moved rows x a i := by
  refine triple_query Placed.stable (fun _ => Moved.stable) trivial ?_
  intro d r d' hd h
  have hd' : Consistent rows x a d' :=
    (others_of_does (o := .commit) trivial h hd.1).1
  obtain rfl := h
  refine ⟨hd', fun _ => ?_⟩
  obtain ⟨row, hrow, hparent⟩ := parentIn_eq_some.mp hd.2
  simp [parentIn, lookup_merge, hrow, hparent]

lemma triple_InTx
    (hfn : TxTriple rows x a i (Fresh rows x a i) fn fun _ d => F ∧ Placed rows x a i d) :
    TxTriple rows x a i (Fresh rows x a i) (InTx fn) fun _ d => F ∧ Moved rows x a i d := by
  refine triple_bind (Others.refl i) (triple_reads Fresh.stable trivial) fun _ => ?_
  refine triple_bind (Others.refl i) (triple_attempt (Others.refl i)
    (Stable.onSuccess fun _ => stable_and Placed.stable) hfn) ?_
  rintro (e | r)
  · have hrollback : TxTriple rows x a i (fun _ => True) (attempt (query .rollback))
        fun _ _ => True := by
      refine triple_attempt (Others.refl i) (fun _ _ _ _ _ => trivial) ?_
      intro d _ t ht r u hu
      exact ⟨others_of_readCommitted (o := .rollback) trivial hu, fun _ _ => trivial⟩
    exact triple_bind (Others.refl i) hrollback fun _ => triple_throw
  · refine triple_of_pure fun hF => ?_
    refine triple_bind (Others.refl i) triple_commit fun _ => ?_
    exact triple_pure Moved.stable fun _ hd => ⟨hF, hd⟩

structure Checked (rows : InodeRows) (x a : Bool → InodeID) (i : Bool) : Prop where
  target : rows.lookup (a i) ≠ none
  clear : ¬Climbs (update (parentIn rows) (x !i) none) (a i) (x i)

lemma triple_MoveInode {now : Time} (hempty : rows.lookup "" = none)
    (hdir : ∀ j p row, parentIn rows j = some p → rows.lookup p = some row → row.type = .directory)
    (hx : req.inodeID = x i) (ha : req.targetParentID = a i) :
    TxTriple rows x a i (Fresh rows x a i) (MoveInode rounds now req) fun _ d =>
      Checked rows x a i ∧ Moved rows x a i d := by
  rw [MoveInode, hx, ha]
  refine triple_reject Fresh.stable fun hids => ?_
  rw [not_or] at hids
  apply triple_InTx
  refine triple_bind (Others.refl i) (triple_getInode hids.1) fun inode => ?_
  refine triple_of_pure fun _ => ?_
  refine triple_bind (Others.refl i) (triple_getInode hids.2) fun targetParent => ?_
  refine triple_of_pure fun htarget => ?_
  obtain ⟨_, first, hfirst, _⟩ := htarget
  refine triple_reject Fresh.stable fun _ => ?_
  refine triple_bind (Others.refl i)
    (triple_moveInode hempty hdir rfl rfl hids.1 hids.2) fun _ => ?_
  refine triple_of_pure fun hclear => ?_
  refine triple_bind (Others.refl i) triple_getInode_placed fun updated => ?_
  refine triple_bind (Others.refl i) triple_syncInodeMutation fun _ => ?_
  exact triple_pure Placed.stable fun _ hd => ⟨⟨by simp [hfirst], hclear⟩, hd⟩

/-! ### Both committed -/

lemma Consistent.lookup_eq_none_iff (hd : Consistent rows x a d) (j : InodeID) :
    d.committed.lookup j = none ↔ rows.lookup j = none := by
  constructor
  · intro h
    by_contra hne
    exact hd.kept j hne h
  · intro h
    by_contra hne
    obtain ⟨row, hrow⟩ := Option.ne_none_iff_exists'.mp hne
    obtain ⟨first, hfirst, _⟩ := hd.version j row hrow
    rw [h] at hfirst
    cases hfirst

lemma Consistent.parentIn_cases (hd : Consistent rows x a d) (j : InodeID) :
    parentIn d.committed j = parentIn rows j ∨
      ∃ k, j = x k ∧ parentIn d.committed j = some (a k) := by
  cases hrow : d.committed.lookup j with
  | none =>
    simp [parentIn, hrow, (hd.lookup_eq_none_iff j).mp hrow]
  | some row =>
    obtain ⟨first, hfirst, _, hparent | ⟨k, hk, hparent⟩⟩ := hd.version j row hrow
    · left
      simp [parentIn, hrow, hfirst, hparent]
    · right
      exact ⟨k, hk, by simp [parentIn, hrow, hparent]⟩

lemma parentIn_of_moved (hne : x false ≠ x true) (hd : ∀ i, Moved rows x a i d) :
    parentIn d.committed = placed (parentIn rows) (x false) (a false) (x true) (a true) := by
  funext j
  unfold placed
  by_cases htrue : j = x true
  · rw [htrue, update_self]
    exact (hd true).2 hne.symm
  · rw [update_of_ne htrue]
    by_cases hfalse : j = x false
    · rw [hfalse, update_self]
      exact (hd false).2 hne
    · rw [update_of_ne hfalse]
      obtain h | ⟨k, hk, _⟩ := (hd true).1.parentIn_cases j
      · exact h
      · cases k
        · exact absurd hk hfalse
        · exact absurd hk htrue

lemma parentIn_of_moved_same (hsame : ∀ i k, x i = x k) (hd : Consistent rows x a d) :
    parentIn d.committed = parentIn rows ∨
      ∃ i, parentIn d.committed = update (parentIn rows) (x i) (some (a i)) := by
  have hagree : ∀ k j, j ≠ x k → parentIn d.committed j = parentIn rows j := by
    intro k j hj
    obtain h | ⟨k', hk', _⟩ := hd.parentIn_cases j
    · exact h
    · exact absurd (hk'.trans (hsame k' k)) hj
  obtain h | ⟨k, _, h⟩ := hd.parentIn_cases (x true)
  · left
    funext j
    by_cases hj : j = x true
    · rw [hj, h]
    · exact hagree true j hj
  · right
    refine ⟨k, funext fun j => ?_⟩
    by_cases hj : j = x k
    · rw [hj, update_self, hsame k true, h]
    · rw [update_of_ne hj]
      exact hagree k j hj

lemma RootedTree.climbs_target (ht : RootedTree rows) (hi : Checked rows x a i) :
    Climbs (parentIn rows) (a i) rootInodeID := by
  obtain ⟨row, hrow⟩ := Option.ne_none_iff_exists'.mp hi.target
  exact ht.climbs _ row hrow

lemma Checked.climbs_other (hi : Checked rows x a i)
    (h : Climbs (parentIn rows) (a i) (x i)) : Climbs (parentIn rows) (a i) (x !i) := by
  by_contra hother
  exact hi.clear (climbs_of_avoids (fun j hj => update_of_ne hj ..) h hother)

lemma RootedTree.of_parents (ht : RootedTree rows) (hd : Consistent rows x a d)
    (hroot : parentIn d.committed rootInodeID = parentIn rows rootInodeID)
    (hclimbs : ∀ j, Climbs (parentIn rows) j rootInodeID →
      Climbs (parentIn d.committed) j rootInodeID) : RootedTree d.committed := by
  refine ⟨(hd.lookup_eq_none_iff "").mpr ht.no_empty_id, hroot.trans ht.root, ?_⟩
  intro j row hrow
  have hne : rows.lookup j ≠ none := by
    rw [Ne, ← hd.lookup_eq_none_iff, hrow]
    simp
  obtain ⟨first, hfirst⟩ := Option.ne_none_iff_exists'.mp hne
  exact hclimbs j (ht.climbs j first hfirst)

section

variable (ht : RootedTree rows) (hchecked : ∀ i, Checked rows x a i)
include ht hchecked

lemma Checked.root_ne (hcross : ¬∀ i, Climbs (parentIn rows) (a i) (x !i)) : rootInodeID ≠ x i := by
  intro hroot
  apply hcross
  have hi : Climbs (parentIn rows) (a i) (x !i) := by
    apply (hchecked i).climbs_other
    rw [← hroot]
    exact ht.climbs_target (hchecked i)
  have hother : Climbs (parentIn rows) (a !i) (x i) := by
    rw [← hroot]
    exact ht.climbs_target (hchecked !i)
  intro k
  rcases Bool.eq_or_eq_not k i with rfl | rfl
  · exact hi
  · rwa [Bool.not_not]

lemma rootedTree_of_not_crossing (hd : ∀ i, Moved rows x a i d) (hne : x false ≠ x true)
    (hcross : ¬∀ i, Climbs (parentIn rows) (a i) (x !i)) : RootedTree d.committed := by
  have hroot : ∀ i, rootInodeID ≠ x i := fun i => Checked.root_ne ht hchecked hcross
  have hparent := parentIn_of_moved hne hd
  refine ht.of_parents (hd true).1 ?_ ?_
  · rw [hparent, placed, update_of_ne (hroot true), update_of_ne (hroot false)]
  · intro j hj
    obtain ⟨i, hi⟩ := not_forall.mp hcross
    rw [hparent]
    cases i with
    | false =>
      exact climbs_placed (hchecked false).clear (hchecked true).clear hi
        (ht.climbs_target (hchecked false)) (ht.climbs_target (hchecked true)) hj
    | true =>
      rw [placed, update_comm hne]
      exact climbs_placed (hchecked true).clear (hchecked false).clear hi
        (ht.climbs_target (hchecked true)) (ht.climbs_target (hchecked false)) hj

lemma rootedTree_of_same (hd : Consistent rows x a d) (hsame : ∀ i k, x i = x k) :
    RootedTree d.committed := by
  obtain h | ⟨i, h⟩ := parentIn_of_moved_same hsame hd
  · refine ht.of_parents hd ?_ ?_
    · rw [h]
    · rw [h]
      exact fun _ hj => hj
  · have hclear : ¬Climbs (parentIn rows) (a i) (x i) := by
      have := (hchecked i).clear
      rwa [hsame (!i) i, climbs_iff_of_agree fun j hj => update_of_ne hj ..] at this
    have hroot : rootInodeID ≠ x i := by
      intro hroot
      rw [← hroot] at hclear
      exact hclear (ht.climbs_target (hchecked i))
    refine ht.of_parents hd ?_ ?_
    · rw [h, update_of_ne hroot]
    · intro j hj
      rw [h]
      exact climbs_move (fun j hj => update_of_ne hj ..) (update_self ..)
        (ht.climbs_target (hchecked i)) hclear hj

end

lemma not_rootedTree_of_crossing (hchecked : ∀ i, Checked rows x a i)
    (hd : ∀ i, Moved rows x a i d) (hne : x false ≠ x true)
    (hcross : ∀ i, Climbs (parentIn rows) (a i) (x !i)) : ¬RootedTree d.committed := by
  intro ht
  have hcycle : Below (parentIn d.committed) (x false) (x false) := by
    rw [parentIn_of_moved hne hd]
    exact below_self_placed hne (hchecked false).clear (hchecked true).clear (hcross false)
      (hcross true)
  obtain ⟨row, hrow, _⟩ := parentIn_eq_some.mp ((hd false).2 hne)
  have hout : parentIn d.committed "" = none := by simp [parentIn, ht.no_empty_id]
  exact not_below_self_of_climbs hout ((ht.climbs _ row hrow).tail ht.root) hcycle

end TwoTransactions

/-- The rows at the start are a tree in which only directories have children. In every
interleaving of two `MoveInode` transactions that both commit, the committed rows are still a
tree, unless each target lies in the subtree of the inode that the other one moves. -/
theorem rootedTree_iff_not_crossing {rows : InodeRows} {req : Bool → MoveInodeRequest}
    {rounds : Bool → Nat} {now : Bool → Time} {pool : Bool → Prog sql (Except TxError InodeMetadata)}
    {tr : List (Pool Bool sql (Except TxError InodeMetadata) (Database Bool) × (Bool × Statement))}
    {d : Database Bool} (ht : RootedTree rows)
    (hdir : ∀ j p row, parentIn rows j = some p → rows.lookup p = some row → row.type = .directory)
    (h : Interleaving readCommitted
      (fun i => (MoveInode (rounds i) (now i) (req i)).run, { committed := rows }) tr (pool, d))
    (hdone : ∀ i, ∃ moved, pool i = .done (.ok moved)) :
    RootedTree d.committed ↔ ¬Crossing rows req := by
  let x := fun i => (req i).inodeID
  let a := fun i => (req i).targetParentID
  have hfresh : ∀ i, Fresh rows x a i { committed := rows } := by
    refine fun i => ⟨⟨fun _ hj => hj, fun j row hrow => ?_, fun _ j row hrow => ?_, fun _ j hj => ?_⟩, rfl⟩
    · exact ⟨row, hrow, rfl, .inl rfl⟩
    · simp at hrow
    · simp at hj
  have hrely : ∀ i j (_ : Statement) s t, i ≠ j → Others rows x a (!i) s t →
      Others rows x a j s t := by
    intro i j _ s t hij hguar
    rwa [Bool.eq_not_of_ne (Ne.symm hij)]
  have hstart : ∀ i, (MoveInode (rounds i) (now i) (req i)).run.Guarantees (readCommitted i)
      (Others rows x a i) (fun _ => Others rows x a !i)
      (OnSuccess fun _ d => Checked rows x a i ∧ Moved rows x a i d) { committed := rows } :=
    fun i => triple_MoveInode ht.no_empty_id hdir rfl rfl _ (hfresh i)
  have hguarantees := h.guarantees Others.refl (fun i _ _ _ => Others.trans) hrely hstart
  have hend : ∀ i, Checked rows x a i ∧ Moved rows x a i d := by
    intro i
    obtain ⟨moved, hmoved⟩ := hdone i
    have hi := hguarantees i
    simp only [hmoved] at hi
    exact hi d (Others.refl i d)
  by_cases hne : x false = x true
  · have hsame : ∀ i k, x i = x k := by
      intro i k
      cases i <;> cases k <;> simp [hne]
    refine iff_of_true (rootedTree_of_same ht (fun i => (hend i).1) (hend true).2.1 hsame) ?_
    exact fun hcross => hcross.1 hne
  · constructor
    · intro htree hcross
      exact not_rootedTree_of_crossing (fun i => (hend i).1) (fun i => (hend i).2) hne hcross.2 htree
    · intro hcross
      exact rootedTree_of_not_crossing ht (fun i => (hend i).1) (fun i => (hend i).2) hne
        fun hall => hcross ⟨hne, hall⟩

/-! ### Two interleavings -/

def carryOut (i : Bool) : (o : Statement) → Database Bool →
    Option (Except TxError o.Result × Database Bool)
  | .begin, d => some (.ok (), d)
  | .selectInode selector, d => some (.ok ((d.sees i).values.find? (selected selector)), d)
  | .selectSibling parentID name excludeID, d =>
    some (.ok (((d.sees i).values.find? fun row => row.parentID = parentID ∧ row.name = name ∧
      row.status ≠ .deleted ∧ (excludeID = "" ∨ row.id ≠ excludeID)).map (·.id)), d)
  | .updateParent id parentID name path updatedAt, d =>
    if ((d.written !i).lookup id).isSome then none
    else some (.ok (), match (d.sees i).lookup id with
      | none => d
      | some row => { d with written := update d.written i ((d.written i).put
          { row with parentID := parentID, name := name, path := path, updatedAt := updatedAt }) })
  | .updateSubtree op, d =>
    if (d.sees i).values.any (·.parentID = op.rootID) then none
    else some (.ok (), { d with written := update d.written i ((d.written i).merge ∅) })
  | .listFiles _, d => some (.ok [], d)
  | .commit, d => some (.ok (),
      { committed := d.committed.merge (d.written i), written := update d.written i ∅ })
  | _, _ => none

lemma readCommitted_of_carryOut (h : carryOut i o d = some (r, d')) : readCommitted i o d r d' := by
  cases o with
  | begin | listFiles _ | commit =>
    cases h
    rfl
  | selectInode selector =>
    cases h
    cases hfind : (d.sees i).values.find? (selected selector) with
    | none =>
      refine ⟨rfl, fun row hrow => ?_⟩
      simpa using find?_eq_none.mp hfind row hrow
    | some row => exact ⟨rfl, mem_of_find?_eq_some hfind, find?_some hfind⟩
  | selectSibling parentID name excludeID =>
    cases h
    refine ⟨rfl, ?_⟩
    simp [find?_isSome]
  | updateParent id parentID name path updatedAt =>
    rw [carryOut] at h
    split at h
    · cases h
    · rename_i hfree
      cases h
      refine ⟨fun j hj => ?_, rfl⟩
      rw [Bool.eq_not_of_ne hj]
      simpa using hfree
  | updateSubtree op =>
    rw [carryOut] at h
    split at h
    · cases h
    · rename_i hleaf
      cases h
      have hbelow : ∀ j, ¬Below (parentIn (d.sees i)) j op.rootID := by
        intro j hj
        obtain ⟨c, _, hc⟩ := TransGen.tail'_iff.mp hj
        obtain ⟨row, hrow, hparent⟩ := parentIn_eq_some.mp hc
        apply hleaf
        rw [any_eq_true]
        exact ⟨row, (lookup_eq_some.mp hrow).1, by simp [hparent]⟩
      refine ⟨hbelow _, ∅, fun row => ?_, fun row hrow => ?_, rfl⟩
      · refine iff_of_false (not_mem_nil) ?_
        rintro ⟨old, ⟨_, hold, _⟩, _⟩
        exact hbelow _ hold
      · exact absurd hrow not_mem_nil
  | getFile _ | updateFile _ | rollback => cases h

def threeDirectories : InodeRows where
  values := [{ id := rootInodeID, path := "/", type := .directory },
    { id := "a", parentID := rootInodeID, name := "a", path := "/a", type := .directory },
    { id := "b", parentID := rootInodeID, name := "b", path := "/b", type := .directory },
    { id := "c", parentID := rootInodeID, name := "c", path := "/c", type := .directory }]
  nodup := by decide

lemma rootedTree_threeDirectories : RootedTree threeDirectories := by
  have hroot : parentIn threeDirectories rootInodeID = some "" := by decide
  refine ⟨by decide, hroot, fun j row hrow => ?_⟩
  obtain ⟨hmem, rfl⟩ := lookup_eq_some.mp hrow
  have hcases : row.id = rootInodeID ∨ parentIn threeDirectories row.id = some rootInodeID := by
    simp only [threeDirectories, mem_cons, not_mem_nil, or_false] at hmem
    rcases hmem with rfl | rfl | rfl | rfl <;> decide
  rcases hcases with h | h
  · rw [h]
  · exact ReflTransGen.single h

lemma directories_threeDirectories (j p : InodeID) (row : InodeMetadata)
    (_ : parentIn threeDirectories j = some p) (hrow : threeDirectories.lookup p = some row) :
    row.type = .directory := by
  have hmem := (lookup_eq_some.mp hrow).1
  simp only [threeDirectories, mem_cons, not_mem_nil, or_false] at hmem
  rcases hmem with rfl | rfl | rfl | rfl <;> rfl

abbrev MovePool := Pool Bool sql (Except TxError InodeMetadata) (Database Bool)

def moveBoth (req : Bool → MoveInodeRequest) : MovePool :=
  (fun i => (MoveInode 3 0 (req i)).run, { committed := threeDirectories })

def passes (req : Bool → MoveInodeRequest) (turns : List Bool) (check : MovePool → Bool) : Bool :=
  (schedule (fun i (_ : Unit) o d => carryOut i o d) (moveBoth req)
    (turns.map fun i => (i, ()))).any fun p => check p.2

lemma exists_of_passes (h : passes req turns check = true) :
    ∃ tr c, Interleaving readCommitted (moveBoth req) tr c ∧ check c = true :=
  exists_interleaving (fun _ _ _ _ _ _ => readCommitted_of_carryOut) h

def hasMoved : Prog sql (Except TxError InodeMetadata) → Bool
  | .done (.ok _) => true
  | _ => false

lemma exists_of_hasMoved (h : hasMoved p = true) : ∃ moved, p = .done (.ok moved) := by
  match p with
  | .done (.ok moved) => exact ⟨moved, rfl⟩
  | .done (.error _) => cases h
  | .op _ _ => cases h

def intoThird (i : Bool) : MoveInodeRequest :=
  { inodeID := if i then "b" else "a", targetParentID := "c" }

theorem rootedTree_intoThird :
    ∃ tr pool d, Interleaving readCommitted (moveBoth intoThird) tr (pool, d) ∧
      (∀ i, ∃ moved, pool i = .done (.ok moved)) ∧ RootedTree d.committed := by
  have hrun : passes intoThird (replicate 14 [true, false]).flatten
      (fun c => hasMoved (c.1 false) && hasMoved (c.1 true)) = true := by decide +kernel
  obtain ⟨tr, ⟨pool, d⟩, h, hmoved⟩ := exists_of_passes hrun
  rw [Bool.and_eq_true] at hmoved
  have hdone : ∀ i, ∃ moved, pool i = .done (.ok moved) := by
    intro i
    cases i
    · exact exists_of_hasMoved hmoved.1
    · exact exists_of_hasMoved hmoved.2
  refine ⟨tr, pool, d, h, hdone, ?_⟩
  refine (rootedTree_iff_not_crossing rootedTree_threeDirectories directories_threeDirectories h
    hdone).mpr fun hcross => ?_
  have hc : parentIn threeDirectories "c" = some rootInodeID := by decide
  have hroot : parentIn threeDirectories rootInodeID = some "" := by decide
  have hout : parentIn threeDirectories "" = none := by decide
  have hclimbs : Climbs (parentIn threeDirectories) "c" "b" := hcross.2 false
  rw [climbs_iff_of_some hc, climbs_iff_of_some hroot, climbs_iff_of_none hout] at hclimbs
  revert hclimbs
  decide

/-- `a` goes into `b` and `b` into `a`. -/
def intoEachOther (i : Bool) : MoveInodeRequest :=
  { inodeID := if i then "b" else "a", targetParentID := if i then "a" else "b" }

/-- Both transactions do all of their statements before one of them commits. -/
theorem cycle_intoEachOther :
    RootedTree threeDirectories ∧ ∃ tr pool d,
      Interleaving readCommitted (moveBoth intoEachOther) tr (pool, d) ∧
      (∀ i, ∃ moved, pool i = .done (.ok moved)) ∧
      ∃ j row, d.committed.lookup j = some row ∧
        ¬Climbs (parentIn d.committed) j rootInodeID := by
  have hrun : passes intoEachOther
      ([true, false] ++ replicate 13 true ++ replicate 13 false)
      (fun c => hasMoved (c.1 false) && hasMoved (c.1 true) &&
        decide (parentIn c.2.committed "a" = some "b" ∧
          parentIn c.2.committed "b" = some "a")) = true := by decide +kernel
  obtain ⟨tr, ⟨pool, d⟩, h, hmoved⟩ := exists_of_passes hrun
  rw [Bool.and_eq_true, Bool.and_eq_true, decide_eq_true_eq] at hmoved
  obtain ⟨⟨hfalse, htrue⟩, ha, hb⟩ := hmoved
  refine ⟨rootedTree_threeDirectories, tr, pool, d, h, ?_, ?_⟩
  · intro i
    cases i
    · exact exists_of_hasMoved hfalse
    · exact exists_of_hasMoved htrue
  · obtain ⟨row, hrow, _⟩ := parentIn_eq_some.mp ha
    refine ⟨"a", row, hrow, fun hclimbs => ?_⟩
    -- the walk from `a` stays on the cycle
    have hcycle : ∀ j, Climbs (parentIn d.committed) "a" j → j = "a" ∨ j = "b" := by
      intro j hj
      induction hj with
      | refl => exact .inl rfl
      | tail _ hstep ih =>
        unfold Up at hstep
        rcases ih with rfl | rfl
        · rw [ha] at hstep
          exact .inr (Option.some.inj hstep).symm
        · rw [hb] at hstep
          exact .inl (Option.some.inj hstep).symm
    exact absurd (hcycle _ hclimbs) (by decide)

end AstraStorage.Proofs
