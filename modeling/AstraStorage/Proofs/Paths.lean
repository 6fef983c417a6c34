import AstraStorage.Proofs.PathStrings
import AstraStorage.Proofs.Reachable

/-!
# Cached paths

While no request asks for a name with a slash in it, the cached paths are the ones read off the
tree (`Located`), so a path names one inode.
-/

namespace AstraStorage.Proofs
open Lib Store Service List Option Relation ReflTransGen

variable {y x : InodeMetadata} {name : String}

inductive Located (c : Catalog) : List String → InodeID → Prop
  | root : Located c [] rootInodeID
  | child {names : List String} {i : InodeID} {x : InodeMetadata} (hx : c.inode i = some x)
      (hroot : i ≠ rootInodeID) (hparent : Located c names x.parentID) :
      Located c (names ++ [x.name]) i

structure FreshPaths (c : Catalog) : Prop where
  segment : ∀ i x, c.inode i = some x → i ≠ rootInodeID → Segment x.name
  path : ∀ i x names, c.inode i = some x → Located c names i → x.path = pathOf names
  file : ∀ f file x, c.file f = some file → c.inode file.inodeID = some x →
    file.path = x.path ∧ file.name = x.name ∧ file.parentInodeID = x.parentID

variable {c : Catalog} {i j : InodeID} {names : List String}

namespace Located

lemma exists_names (ht : Tree c) (hx : c.inode i = some x) : ∃ names, Located c names i := by
  have hclimbs := ht.climbs i x hx
  clear hx
  induction hclimbs using head_induction_on with
  | refl => exact ⟨[], .root⟩
  | @head i p hip _ ih =>
    obtain ⟨names, hnames⟩ := ih
    obtain ⟨y, hy, rfl⟩ := parentOf_eq_some.mp hip
    by_cases hi : i = rootInodeID
    · exact ⟨[], hi ▸ .root⟩
    · exact ⟨_, .child hy hi hnames⟩

lemma names_unique (h : Located c names i) (h' : Located c old i) : names = old := by
  induction h generalizing old with
  | root =>
    cases h' with
    | root => rfl
    | child _ hroot _ => exact absurd rfl hroot
  | child hx hroot _ ih =>
    cases h' with
    | root => exact absurd rfl hroot
    | child hy _ hparent =>
      rw [hx] at hy
      cases hy
      rw [ih hparent]

lemma inode_unique (ht : Tree c) (h : Located c names i) (h' : Located c names j) : i = j := by
  induction h generalizing j with
  | root =>
    generalize hnil : [] = names at h'
    cases h' with
    | root => rfl
    | child _ _ _ => simp at hnil
  | @child names i x hx hroot _ ih =>
    generalize hcons : names ++ [x.name] = names' at h'
    cases h' with
    | root => simp at hcons
    | child hy _ hparent =>
      obtain ⟨rfl, hname⟩ := append_inj' hcons rfl
      exact ht.siblings _ _ _ _ hx hy (ih hparent) (by simpa using hname)

lemma segments (hf : FreshPaths c) (h : Located c names i) : ∀ n ∈ names, Segment n := by
  induction h with
  | root => simp
  | child hx hroot _ ih =>
    intro n hn
    rcases mem_append.mp hn with hn | hn
    · exact ih n hn
    · rw [mem_singleton.mp hn]
      exact hf.segment _ _ hx hroot

lemma mono (hsub : ∀ j y, c.inode j = some y → c'.inode j = some y) (h : Located c names i) :
    Located c' names i := by
  induction h with
  | root => exact .root
  | child hx hroot _ ih => exact .child (hsub _ _ hx) hroot ih

lemma climbs (ht : Tree c) (hn : Located c old n) (h : Located c (old ++ rest) i) :
    Climbs (parentOf c) i n := by
  induction rest using reverseRecOn generalizing i with
  | nil =>
    rw [append_nil] at h
    rw [inode_unique ht h hn]
  | append_singleton rest last ih =>
    generalize hnames : old ++ (rest ++ [last]) = names at h
    cases h with
    | root => simp at hnames
    | child hx _ hparent =>
      rw [← append_assoc] at hnames
      obtain ⟨rfl, -⟩ := append_inj' hnames rfl
      exact head (parentOf_eq_some.mpr ⟨_, hx, rfl⟩) (ih hparent)

lemma exists_append (ht : Tree c) (hx : c.inode n = some x) (hn : Located c old n)
    (h : Climbs (parentOf c) i n) : ∃ rest, Located c (old ++ rest) i := by
  induction h using head_induction_on with
  | refl => exact ⟨[], by rwa [append_nil]⟩
  | @head i p hip hpn ih =>
    obtain ⟨rest, hrest⟩ := ih
    obtain ⟨y, hy, rfl⟩ := parentOf_eq_some.mp hip
    by_cases hi : i = rootInodeID
    · subst hi
      have hroot := ht.eq_root_of_climbs hx (head hip hpn)
      exact ⟨[], by rwa [append_nil, ← hroot]⟩
    · exact ⟨rest ++ [y.name], by
        rw [← append_assoc]
        exact .child hy hi hrest⟩

end Located

namespace FreshPaths

lemma congr (h : FreshPaths c) (hi : c'.inode = c.inode) (hf : c'.file = c.file) :
    FreshPaths c' := by
  constructor
  · rw [hi]; exact h.segment
  · intro j y names hy hloc
    rw [hi] at hy
    exact h.path j y names hy (hloc.mono (fun k z hz => by rwa [hi] at hz))
  · rw [hi, hf]; exact h.file

lemma insert (h : FreshPaths c) (ht : Tree c) (hnew : c.inode i = none)
    (hparent : c.inode x.parentID = some parent) (hroot : i ≠ rootInodeID) (hname : Segment x.name)
    (hpath : x.path = childPath parent.path x.name)
    (hc : c'.inode = Function.update c.inode i (some x))
    (hfile : ∀ f file, c'.file f = some file → c.file f = some file ∧ file.inodeID ≠ i ∨
      file.inodeID = i ∧ file.parentInodeID = x.parentID ∧ file.path = x.path ∧
        file.name = x.name) : FreshPaths c' := by
  have hself : c'.inode i = some x := by rw [hc, Function.update_self]
  have hsub : ∀ j y, c.inode j = some y → c'.inode j = some y := by
    rw [hc]
    exact fun _ _ => update_of_new hnew
  constructor
  · intro j y hy hj
    rw [hc, update_some_eq_some] at hy
    rcases hy with ⟨_, rfl⟩ | ⟨_, hy⟩
    · exact hname
    · exact h.segment j y hy hj
  · intro j y names hy hloc
    rw [hc, update_some_eq_some] at hy
    rcases hy with ⟨rfl, rfl⟩ | ⟨_, hy⟩
    · obtain ⟨ps, hps⟩ := Located.exists_names ht hparent
      rw [hloc.names_unique (.child hself hroot (hps.mono hsub)), hpath, childPath_eq_joinPath,
        h.path _ _ _ hparent hps, joinPath_pathOf (hps.segments h)]
    · obtain ⟨ns, hns⟩ := Located.exists_names ht hy
      rw [hloc.names_unique (hns.mono hsub)]
      exact h.path j y ns hy hns
  · intro f file y hf hy
    rw [hc, update_some_eq_some] at hy
    rcases hfile f file hf with ⟨hold, hne⟩ | ⟨hi, hparent', hpath', hname'⟩
    · exact h.file f file y hold (hy.resolve_left (fun hi => hne hi.1)).2
    · obtain rfl := (hy.resolve_right (fun hne => hne.1 hi)).2
      exact ⟨hpath', hname', hparent'⟩

lemma remove (h : FreshPaths c) (hi : ∀ j y, c'.inode j = some y → c.inode j = some y)
    (hf : ∀ f file, c'.file f = some file → c.file f = some file) : FreshPaths c' := by
  constructor
  · exact fun j y hy => h.segment j y (hi j y hy)
  · exact fun j y names hy hloc => h.path j y names (hi j y hy) (hloc.mono hi)
  · exact fun f file y hfile hy => h.file f file y (hf f file hfile) (hi _ y hy)

end FreshPaths

section Relabel

lemma repath_outside (hout : ¬Below (parentOf c) i n) : repath c n x x' i y = y := by
  rw [repath, if_neg (fun hguard => hout hguard.1)]

lemma FreshPaths.replacePathPrefix_outside (hf : FreshPaths c) (ht : Tree c)
    (hx : c.inode n = some x) (hy : c.inode i = some y) (hout : ¬Climbs (parentOf c) i n) :
    replacePathPrefix y.path x.path newPath = y.path := by
  obtain ⟨old, hold⟩ := Located.exists_names ht hx
  obtain ⟨ns, hns⟩ := Located.exists_names ht hy
  have hne : old ≠ [] := by
    rintro rfl
    exact hout (Located.climbs ht hold (by simpa using hns))
  rw [hf.path n x old hx hold, hf.path i y ns hy hns]
  refine Proofs.replacePathPrefix_outside (hold.segments hf) (hns.segments hf) hne ?_
  rintro rest rfl
  exact hout (Located.climbs ht hold hns)

variable (ht : Tree c) (h : Relabelled c c' n x x')
include h

lemma Relabelled.located_child (hi : i ≠ n) (hy : c.inode i = some y) (hroot : i ≠ rootInodeID)
    (hloc : Located c' names y.parentID) : Located c' (names ++ [y.name]) i := by
  have hy' := h.of_old hi hy
  rw [← repath_parentID] at hloc
  have hchild := Located.child hy' hroot hloc
  rwa [repath_name] at hchild

lemma Relabelled.located_outside (hloc : Located c names i) (hout : ¬Climbs (parentOf c) i n) :
    Located c' names i := by
  induction hloc with
  | root => exact .root
  | @child names i y hy hroot _ ih =>
    have hi : i ≠ n := by
      rintro rfl
      exact hout refl
    have hstep : Up (parentOf c) i y.parentID := parentOf_eq_some.mpr ⟨y, hy, rfl⟩
    exact h.located_child hi hy hroot
      (ih (fun hc => hout (head hstep hc)))

include ht in
lemma Relabelled.located_inside (hold : Located c old n) (hnew : Located c' new n)
    (hloc : Located c (old ++ rest) i) : Located c' (new ++ rest) i := by
  induction rest using reverseRecOn generalizing i with
  | nil =>
    rw [append_nil] at hloc ⊢
    rwa [Located.inode_unique ht hloc hold]
  | append_singleton rest last ih =>
    have hi : i ≠ n := by
      rintro rfl
      have := congrArg length (hloc.names_unique hold)
      simp at this
    rw [← append_assoc] at hloc ⊢
    generalize hnames : old ++ rest ++ [last] = names at hloc
    cases hloc with
    | root => simp at hnames
    | child hy hroot hparent =>
      obtain ⟨rfl, hlast⟩ := append_inj' hnames rfl
      rw [hlast]
      exact h.located_child hi hy hroot (ih hparent)

variable (hf : FreshPaths c) (hold : Located c old n) (hnew : Located c' new n)
  (hempty : old = [] ↔ new = []) (hpath : x'.path = pathOf new)
include ht hf hold hnew hempty hpath

lemma Relabelled.path_inside (hi : i ≠ n) (hy : c.inode i = some y)
    (hin : Climbs (parentOf c) i n) :
    ∃ rest, y.path = pathOf (old ++ rest) ∧
      Located c (old ++ rest) i ∧ Located c' (new ++ rest) i ∧
      (repath c n x x' i y).path = pathOf (new ++ rest) := by
  obtain ⟨rest, hrest⟩ := Located.exists_append ht h.stored hold hin
  have hyp := hf.path i y _ hy hrest
  have hbelow : Below (parentOf c) i n := (climbs_iff_eq_or_below.mp hin).resolve_left hi
  refine ⟨rest, hyp, hrest, h.located_inside ht hold hnew hrest, ?_⟩
  have hxp := hf.path n x old h.stored hold
  have hguard : Below (parentOf c) i n ∧ hasPrefix y.path x.path = true :=
    ⟨hbelow, by rw [hyp, hxp]; exact hasPrefix_pathOf_append⟩
  rw [repath, if_pos hguard, hyp, hxp, hpath]
  exact append_trimPrefix_pathOf hempty

lemma Relabelled.inode_path (hy' : c'.inode i = some y') (hloc : Located c' names i) :
    y'.path = pathOf names := by
  by_cases hi : i = n
  · subst hi
    rw [h.self] at hy'
    cases hy'
    rw [hloc.names_unique hnew, hpath]
  · rw [h.inode i hi, map_eq_some_iff] at hy'
    obtain ⟨y, hy, rfl⟩ := hy'
    by_cases hin : Climbs (parentOf c) i n
    · obtain ⟨rest, -, -, hloc', hyp⟩ := h.path_inside ht hf hold hnew hempty hpath hi hy hin
      rw [hloc.names_unique hloc', hyp]
    · obtain ⟨ns, hns⟩ := Located.exists_names ht hy
      have hbelow : ¬Below (parentOf c) i n :=
        fun hb => hin (climbs_iff_eq_or_below.mpr (.inr hb))
      rw [repath_outside hbelow, hloc.names_unique (h.located_outside hns hin)]
      exact hf.path i y ns hy hns

lemma Relabelled.file_path (hi : i ≠ n) (hy : c.inode i = some y) (hfile : file.path = y.path)
    (hsegments : ∀ name ∈ new, Segment name) :
    (refile x.path x'.path x'.updatedAt file).path = (repath c n x x' i y).path := by
  have hold' := hold.segments hf
  rw [hf.path n x old h.stored hold, refile_path hold', hfile]
  by_cases hin : Climbs (parentOf c) i n
  · obtain ⟨rest, hyp, hloc, -, hyp'⟩ := h.path_inside ht hf hold hnew hempty hpath hi hy hin
    have hrest : ∀ name ∈ rest, Segment name :=
      fun name hname => hloc.segments hf name (mem_append_right _ hname)
    rw [hyp, hyp', hpath]
    exact replacePathPrefix_below hold' hsegments hrest hempty
  · have hbelow : ¬Below (parentOf c) i n :=
      fun hb => hin (climbs_iff_eq_or_below.mpr (.inr hb))
    rw [repath_outside hbelow, ← hf.path n x old h.stored hold]
    exact hf.replacePathPrefix_outside ht h.stored hy hin

lemma FreshPaths.relabel (hl : Links c) (hsegments : ∀ name ∈ new, Segment name)
    (hname : n ≠ rootInodeID → Segment x'.name) : FreshPaths c' := by
  constructor
  · intro i y' hy' hi
    by_cases hin : i = n
    · rw [hin, h.self] at hy'
      cases hy'
      exact hname (hin ▸ hi)
    · rw [h.inode i hin, map_eq_some_iff] at hy'
      obtain ⟨y, hy, rfl⟩ := hy'
      rw [repath_name]
      exact hf.segment i y hy hi
  · exact fun i y' names hy' hloc => h.inode_path ht hf hold hnew hempty hpath hy' hloc
  · intro f file' y' hfile' hy'
    by_cases htype : x.type = .file
    · rw [h.file_of_file htype, map_eq_some_iff] at hfile'
      obtain ⟨file, hfile, rfl⟩ := hfile'
      by_cases hn : file.inodeID = n
      · rw [if_pos hn] at hy' ⊢
        change c'.inode file.inodeID = some y' at hy'
        rw [hn, h.self] at hy'
        cases hy'
        exact ⟨rfl, rfl, rfl⟩
      · rw [if_neg hn] at hy' ⊢
        rw [h.inode _ hn, map_eq_some_iff] at hy'
        obtain ⟨y, hy, rfl⟩ := hy'
        have hbelow : ¬Below (parentOf c) file.inodeID n := by
          intro hb
          obtain ⟨j, _, hj⟩ := TransGen.tail'_iff.mp hb
          have hdir := ht.directory_of_child h.stored hj
          rw [htype] at hdir
          cases hdir
        rw [repath_outside hbelow]
        exact hf.file f file y hfile hy
    · rw [h.file_of_directory htype, map_eq_some_iff] at hfile'
      obtain ⟨file, hfile, rfl⟩ := hfile'
      rw [refile_inodeID] at hy'
      obtain ⟨z, hz, hzt, _⟩ := hl.file_inode f file hfile
      have hn : file.inodeID ≠ n := by
        intro heq
        rw [heq, h.stored] at hz
        cases hz
        exact htype hzt
      rw [h.inode _ hn, map_eq_some_iff] at hy'
      obtain ⟨y, hy, rfl⟩ := hy'
      obtain ⟨hp, hnm, hpar⟩ := hf.file f file y hfile hy
      refine ⟨h.file_path ht hf hold hnew hempty hpath hn hy hp hsegments, ?_, ?_⟩
      · rw [repath_name, refile_name, hnm]
      · rw [repath_parentID, refile_parentInodeID, hpar]

end Relabel

namespace FreshPaths

section

variable (hf : FreshPaths c) (hw : WellFormed c)
include hf hw

lemma rename {path : String} (hname : n ≠ rootInodeID → Segment name)
    (hpath : replaceBaseName x.path name = some path)
    (h : Relabelled c c' n x { x with name := name, path := path, updatedAt := when }) :
    FreshPaths c' := by
  obtain ⟨ht, hl⟩ := hw
  by_cases hroot : n = rootInodeID
  · -- the root keeps its path whatever it is called
    subst hroot
    have hold : Located c [] rootInodeID := .root
    rw [hf.path _ x [] h.stored hold, pathOf_nil, replaceBaseName] at hpath
    cases hpath
    exact FreshPaths.relabel ht h hf hold .root Iff.rfl rfl hl (by simp) (by simp)
  · obtain ⟨p, hp, _⟩ := ht.parent n x h.stored hroot
    obtain ⟨ps, hps⟩ := Located.exists_names ht hp
    have hold := Located.child h.stored hroot hps
    have hps' := hps.segments hf
    rw [hf.path n x _ h.stored hold,
      replaceBaseName_pathOf hps' (hf.segment n x h.stored hroot)] at hpath
    cases hpath
    have hup : Up (parentOf c) n x.parentID := parentOf_eq_some.mpr ⟨x, h.stored, rfl⟩
    have hout : ¬Climbs (parentOf c) x.parentID n :=
      fun hc => ht.not_below_self h.stored (TransGen.head' hup hc)
    have hnew := Located.child h.self hroot (h.located_outside hps hout)
    exact FreshPaths.relabel ht h hf hold hnew (by simp) rfl hl
      (Segment.append_singleton hps' (hname hroot)) hname

lemma move (hname : name = x.name ∨ Segment name) (hparent : c.inode q = some parent)
    (hself : n ≠ q) (hbelow : x.type = .directory → ¬Below (parentOf c) q n)
    (h : Relabelled c c' n x { x with
      parentID := q, name := name, path := joinPath parent.path name, updatedAt := when }) :
    FreshPaths c' := by
  obtain ⟨ht, hl⟩ := hw
  obtain ⟨hroot, hout⟩ := ht.target_outside h.stored hparent hself hbelow
  have hname' : Segment name := by
    rcases hname with rfl | hname
    · exact hf.segment n x h.stored hroot
    · exact hname
  obtain ⟨qs, hqs⟩ := Located.exists_names ht hparent
  obtain ⟨p, hp, _⟩ := ht.parent n x h.stored hroot
  obtain ⟨ps, hps⟩ := Located.exists_names ht hp
  have hold := Located.child h.stored hroot hps
  have hnew := Located.child h.self hroot (h.located_outside hqs hout)
  have hqs' := hqs.segments hf
  have hpath : joinPath parent.path name = pathOf (qs ++ [name]) := by
    rw [hf.path q parent qs hparent hqs, joinPath_pathOf hqs']
  exact FreshPaths.relabel ht h hf hold hnew (by simp) hpath hl
    (Segment.append_singleton hqs' hname') (fun _ => hname')

theorem namespaceChange (hc : NamespaceChange (fun name => '/' ∉ name.toList) c c') :
    FreshPaths c' := by
  have hne : ∀ {i f file}, c.inode i = none → c.file f = some file → file.inodeID ≠ i := by
    rintro i f file hnew hfile rfl
    obtain ⟨y, hy, _⟩ := hw.links.file_inode f file hfile
    rw [hnew] at hy
    cases hy
  cases hc with
  | addDirectory hi hroot hnew hparent hdir hfree hname hok hpath htype hstatus hfile =>
    refine hf.insert hw.tree hnew hparent hroot ⟨hname, hok⟩ hpath rfl ?_
    exact fun f file hf => .inl ⟨hf, hne hnew hf⟩
  | addFile hi _ hroot hnew hnewf hparent hdir hfree hname hok hpath htype hstatus hfile hinode
      hsync =>
    refine hf.insert hw.tree hnew hparent hroot ⟨hname, hok⟩ hpath rfl ?_
    intro g file' hg
    rcases update_some_eq_some.mp hg with ⟨_, rfl⟩ | ⟨_, hg⟩
    · exact .inr ⟨hinode, hsync⟩
    · exact .inl ⟨hg, hne hnew hg⟩
  | rename hname hok _ hpath h => exact hf.rename hw (fun _ => ⟨hname, hok⟩) hpath h
  | move hname hparent _ hself hbelow _ h => exact hf.move hw hname hparent hself hbelow h
  | dropFile =>
    exact hf.remove (fun _ _ hy => (update_none_eq_some.mp hy).2)
      (fun _ _ hg => (update_none_eq_some.mp hg).2)
  | dropDirectory =>
    exact hf.remove (fun _ _ hy => (update_none_eq_some.mp hy).2) (fun _ _ hg => hg)

theorem namespaceChanges
    (hc : ReflTransGen (NamespaceChange (fun name => '/' ∉ name.toList)) c c') :
    FreshPaths c' := by
  induction hc with
  | refl => exact hf
  | tail hsteps hstep ih => exact ih.namespaceChange (hw.namespaceChanges hsteps) hstep

end

lemma uploadChange (hf : FreshPaths c) (hc : UploadChange c c' f k w w' y') : FreshPaths c' := by
  constructor
  · rw [hc.inode]
    exact hf.segment
  · intro i y names hy hloc
    rw [hc.inode] at hy
    exact hf.path i y names hy (hloc.mono (fun _ _ hz => by rwa [hc.inode] at hz))
  · intro g file y hg hy
    rw [hc.inode] at hy
    rw [hc.file, update_some_eq_some] at hg
    rcases hg with ⟨rfl, rfl⟩ | ⟨_, hg⟩
    · rw [hc.identity.inodeID] at hy
      rw [hc.identity.path, hc.identity.name, hc.identity.parentInodeID]
      exact hf.file _ w y hc.stored hy
    · exact hf.file g file y hg hy

theorem catalogStep (hf : FreshPaths c) (hw : WellFormed c)
    (h : CatalogStep (fun name => '/' ∉ name.toList) c c') : FreshPaths c' := by
  cases h with
  | namespaces h => exact hf.namespaceChanges hw h
  | upload h => exact hf.uploadChange h
  | nodes h => exact hf.congr h.inode h.file

end FreshPaths

lemma freshPaths_rootState (now : Time) : FreshPaths (catalog (rootState now)) := by
  constructor
  · intro i x hx hi
    exact absurd (inode_rootState.mp hx).1 hi
  · intro i x names hx hloc
    obtain ⟨rfl, rfl⟩ := inode_rootState.mp hx
    rw [hloc.names_unique .root]
    rfl
  · intro f file x hfile
    cases hfile

variable {s : MemoryState} {history : List (MemoryState × Action)}

def SlashFree (history : List (MemoryState × Action)) : Prop :=
  ∀ p ∈ history, ∀ name ∈ Action.names p.2, '/' ∉ name.toList

instance : Decidable (SlashFree history) :=
  inferInstanceAs (Decidable (∀ p ∈ history, ∀ name ∈ Action.names p.2, '/' ∉ name.toList))

theorem freshPaths_of_run (hrun : ServiceRun history s) (hslash : SlashFree history) :
    FreshPaths (catalog s) := by
  have hboth := invariant_of_serviceRun (I := fun s => FreshPaths (catalog s))
    (C := fun _ a => ∀ name ∈ Action.names a, '/' ∉ name.toList) hrun hslash freshPaths_rootState
    fun s a t hw hf hnames hstep => hf.catalogStep hw (step_effect _ hw hnames hstep).catalogStep
  exact hboth.2

structure CachedPaths (c : Catalog) : Prop where
  root : ∀ x, c.inode rootInodeID = some x → x.path = "/"
  inode : ∀ i x, c.inode i = some x → ∃ names, Located c names i ∧ x.path = pathOf names
  file : ∀ f file, c.file f = some file → ∃ x, c.inode file.inodeID = some x ∧
    file.path = x.path ∧ file.name = x.name ∧ file.parentInodeID = x.parentID

theorem cachedPaths_of_run (hrun : ServiceRun history s) (hslash : SlashFree history) :
    CachedPaths (catalog s) := by
  obtain ⟨ht, hl⟩ := wellFormed_of_run hrun
  have hf := freshPaths_of_run hrun hslash
  constructor
  · intro x hx
    exact hf.path rootInodeID x [] hx .root
  · intro i x hx
    obtain ⟨names, hnames⟩ := Located.exists_names ht hx
    exact ⟨names, hnames, hf.path i x names hx hnames⟩
  · intro f file hfile
    obtain ⟨x, hx, _⟩ := hl.file_inode f file hfile
    exact ⟨x, hx, hf.file f file x hfile hx⟩

def renamedAndMoved : List Call :=
  [.createDirectory { inodeID := "i1", parentID := rootInodeID, name := "a" },
    .createDirectory { inodeID := "i2", parentID := rootInodeID, name := "ab" },
    .createFile { inodeID := "i3", fileID := "f", parentID := "i1", name := "x" },
    .createFile { inodeID := "i4", fileID := "g", parentID := "i2", name := "x" },
    .renameInode { inodeID := "i1", newName := "c" },
    .moveInode { inodeID := "i1", targetParentID := "i2" }]

theorem cachedPaths_renamedAndMoved :
    SlashFree (play 1 renamedAndMoved).1 ∧ CachedPaths (catalog (play 1 renamedAndMoved).2) ∧
      ((catalog (play 1 renamedAndMoved).2).file "f").map (·.path) = some "/ab/c/x" ∧
      ((catalog (play 1 renamedAndMoved).2).file "g").map (·.path) = some "/ab/x" :=
  ⟨by decide +kernel, cachedPaths_of_run (serviceRun_play 1 renamedAndMoved) (by decide +kernel),
    by decide +kernel⟩

structure UniquePaths (c : Catalog) : Prop where
  inode : ∀ i j x y, c.inode i = some x → c.inode j = some y → x.path = y.path → i = j
  file : ∀ f g x y, c.file f = some x → c.file g = some y → x.path = y.path → f = g

theorem uniquePaths_of_run (hrun : ServiceRun history s) (hslash : SlashFree history) :
    UniquePaths (catalog s) := by
  obtain ⟨ht, hl⟩ := wellFormed_of_run hrun
  have hf := freshPaths_of_run hrun hslash
  have hinode : ∀ i j x y, (catalog s).inode i = some x → (catalog s).inode j = some y →
      x.path = y.path → i = j := by
    intro i j x y hx hy hpath
    obtain ⟨ns, hns⟩ := Located.exists_names ht hx
    obtain ⟨ms, hms⟩ := Located.exists_names ht hy
    rw [hf.path i x ns hx hns, hf.path j y ms hy hms] at hpath
    rw [pathOf_injective (hns.segments hf) (hms.segments hf) hpath] at hns
    exact hns.inode_unique ht hms
  refine ⟨hinode, ?_⟩
  intro f g file file' hfile hfile' hpath
  obtain ⟨x, hx, _⟩ := hl.file_inode f file hfile
  obtain ⟨y, hy, _⟩ := hl.file_inode g file' hfile'
  rw [(hf.file f file x hfile hx).1, (hf.file g file' y hfile' hy).1] at hpath
  exact hl.file_unique hfile hfile' (hinode _ _ x y hx hy hpath)

theorem uniquePaths_renamedAndMoved : UniquePaths (catalog (play 1 renamedAndMoved).2) :=
  uniquePaths_of_run (serviceRun_play 1 renamedAndMoved) (by decide +kernel)

def slashInName : List Call :=
  [.createDirectory { inodeID := "i1", parentID := rootInodeID, name := "a" },
    .createDirectory { inodeID := "i2", parentID := "i1", name := "b" },
    .createDirectory { inodeID := "i3", parentID := rootInodeID, name := "a/b" }]

theorem not_uniquePaths_slashInName :
    ServiceRun (play 1 slashInName).1 (play 1 slashInName).2 ∧
      ¬UniquePaths (catalog (play 1 slashInName).2) := by
  refine ⟨serviceRun_play 1 slashInName, fun h => ?_⟩
  have hpaths : ((catalog (play 1 slashInName).2).inode "i2").map (·.path) = some "/a/b" ∧
      ((catalog (play 1 slashInName).2).inode "i3").map (·.path) = some "/a/b" := by
    decide +kernel
  obtain ⟨x, hx, hxp⟩ := map_eq_some_iff.mp hpaths.1
  obtain ⟨y, hy, hyp⟩ := map_eq_some_iff.mp hpaths.2
  exact absurd (h.inode _ _ x y hx hy (hxp.trans hyp.symm)) (by decide)

end AstraStorage.Proofs
