import AstraStorage.Proofs.Paths

/-!
# Renames and moves taken back

Renaming or moving back restores every record up to its `UpdatedAt`: the names and parents are back
in place, and while no name has a slash in it they determine the paths.
-/

namespace AstraStorage.Proofs
open Lib Store Service Option Relation

variable {file : FileMetadata} {when : Time}

def pathlessInode (x : InodeMetadata) : InodeMetadata :=
  { x with path := "", updatedAt := 0 }

def unlabelledInode (x : InodeMetadata) : InodeMetadata :=
  { x with parentID := "", path := "", name := "", updatedAt := 0 }

def unlabelledFile (file : FileMetadata) : FileMetadata :=
  { file with parentInodeID := "", path := "", name := "", updatedAt := 0 }

structure OnlySubtree (c c' : Catalog) (n : InodeID) : Prop where
  self : (c'.inode n).map unlabelledInode = (c.inode n).map unlabelledInode
  below : ∀ i, Below (parentOf c) i n →
    (c'.inode i).map pathlessInode = (c.inode i).map pathlessInode
  outside : ∀ i, ¬Climbs (parentOf c) i n → c'.inode i = c.inode i
  file : ∀ f, (c'.file f).map unlabelledFile = (c.file f).map unlabelledFile
  file_outside : ∀ f file, c.file f = some file → ¬Climbs (parentOf c) file.inodeID n →
    c'.file f = some file
  chunk : c'.chunk = c.chunk
  session : c'.session = c.session
  node : c'.node = c.node
  plan : c'.plan = c.plan

variable {c c' : Catalog} {i n : InodeID} {x : InodeMetadata}

@[simp] lemma pathlessInode_repath : pathlessInode (repath c n x x' i y) = pathlessInode y := by
  unfold repath
  split <;> rfl

@[simp] lemma unlabelledFile_refile :
    unlabelledFile (refile oldPath newPath when file) = unlabelledFile file := by
  simp only [refile]
  split <;> rfl

lemma refile_eq_self (h : replacePathPrefix file.path oldPath newPath = file.path) :
    refile oldPath newPath when file = file := by
  simp only [refile]
  rw [if_neg (fun hguard => hguard.2.2 h)]

namespace Relabelled

variable (h : Relabelled c c' n x x')
include h

lemma pathless (hi : i ≠ n) : (c'.inode i).map pathlessInode = (c.inode i).map pathlessInode := by
  rw [h.inode i hi, Option.map_map]
  congr 1
  funext y
  exact pathlessInode_repath

lemma unlabelled (f : FileID) : (c'.file f).map unlabelledFile = (c.file f).map unlabelledFile := by
  by_cases htype : x.type = .file
  · rw [h.file_of_file htype, Option.map_map]
    congr 1
    funext file
    simp only [Function.comp_apply]
    split <;> rfl
  · rw [h.file_of_directory htype, Option.map_map]
    congr 1
    funext file
    exact unlabelledFile_refile

lemma file_outside (hw : WellFormed c) (hf : FreshPaths c) (hfile : c.file f = some file)
    (hout : ¬Climbs (parentOf c) file.inodeID n) : c'.file f = some file := by
  by_cases htype : x.type = .file
  · have hn : file.inodeID ≠ n := by
      intro hn
      exact hout (hn ▸ ReflTransGen.refl)
    rw [h.file_of_file htype, hfile, map_some, if_neg hn]
  · obtain ⟨y, hy, _⟩ := hw.links.file_inode f file hfile
    have hpath : replacePathPrefix file.path x.path x'.path = file.path := by
      rw [(hf.file f file y hfile hy).1]
      exact hf.replacePathPrefix_outside hw.tree h.stored hy hout
    rw [h.file_of_directory htype, hfile, map_some, refile_eq_self hpath]

lemma onlySubtree (hw : WellFormed c) (hf : FreshPaths c)
    (hself : unlabelledInode x' = unlabelledInode x) : OnlySubtree c c' n := by
  constructor
  · rw [h.self, h.stored, map_some, map_some, hself]
  · intro i hbelow
    refine h.pathless ?_
    rintro rfl
    exact hw.tree.not_below_self h.stored hbelow
  · intro i hout
    have hi : i ≠ n := by
      rintro rfl
      exact hout ReflTransGen.refl
    have hbelow : ¬Below (parentOf c) i n :=
      fun hb => hout (climbs_iff_eq_or_below.mpr (.inr hb))
    rw [h.inode i hi, show repath c n x x' i = id from funext fun _ => repath_outside hbelow,
      map_id, id]
  · exact h.unlabelled
  · exact fun f file hfile hout => h.file_outside hw hf hfile hout
  · exact h.chunk
  · exact h.session
  · exact h.node
  · exact h.plan

end Relabelled

def undatedInode (x : InodeMetadata) : InodeMetadata :=
  { x with updatedAt := 0 }

def undatedFile (file : FileMetadata) : FileMetadata :=
  { file with updatedAt := 0 }

structure SameUndated (c c' : Catalog) : Prop where
  inode : ∀ i, (c'.inode i).map undatedInode = (c.inode i).map undatedInode
  file : ∀ f, (c'.file f).map undatedFile = (c.file f).map undatedFile
  chunk : c'.chunk = c.chunk
  session : c'.session = c.session
  node : c'.node = c.node
  plan : c'.plan = c.plan

lemma Located.of_pathless
    (hsame : ∀ i, (c'.inode i).map pathlessInode = (c.inode i).map pathlessInode)
    (h : Located c names i) : Located c' names i := by
  induction h with
  | root => exact .root
  | @child names i y hy hroot _ ih =>
    have hi := hsame i
    rw [hy, map_some, map_eq_some_iff] at hi
    obtain ⟨y', hy', heq⟩ := hi
    have hparent : y'.parentID = y.parentID := (congrArg InodeMetadata.parentID heq :)
    have hname : y'.name = y.name := (congrArg InodeMetadata.name heq :)
    rw [← hname]
    exact .child hy' hroot (hparent ▸ ih)

lemma FreshPaths.undated_inode (ht : Tree c) (hf : FreshPaths c) (hf' : FreshPaths c')
    (hsame : ∀ i, (c'.inode i).map pathlessInode = (c.inode i).map pathlessInode) (i : InodeID) :
    (c'.inode i).map undatedInode = (c.inode i).map undatedInode := by
  have hi := hsame i
  cases hy : c.inode i with
  | none => simpa [hy] using hi
  | some y =>
    rw [hy, map_some, map_eq_some_iff] at hi
    obtain ⟨y', hy', heq⟩ := hi
    obtain ⟨names, hnames⟩ := Located.exists_names ht hy
    have hpath : y'.path = y.path := by
      rw [hf.path i y names hy hnames, hf'.path i y' names hy' (hnames.of_pathless hsame)]
    rw [hy', map_some, map_some]
    have hrestore : ∀ z : InodeMetadata,
        undatedInode z = { pathlessInode z with path := z.path } := fun _ => rfl
    rw [hrestore, hrestore, heq, hpath]

lemma FreshPaths.undated_file (hl : Links c) (hf : FreshPaths c) (hf' : FreshPaths c')
    (hinode : ∀ i, (c'.inode i).map undatedInode = (c.inode i).map undatedInode)
    (hfile : ∀ f, (c'.file f).map unlabelledFile = (c.file f).map unlabelledFile) (f : FileID) :
    (c'.file f).map undatedFile = (c.file f).map undatedFile := by
  have hff := hfile f
  cases hg : c.file f with
  | none => simpa [hg] using hff
  | some file =>
    rw [hg, map_some, map_eq_some_iff] at hff
    obtain ⟨file', hg', heq⟩ := hff
    have hid : file'.inodeID = file.inodeID := (congrArg FileMetadata.inodeID heq :)
    obtain ⟨y, hy, _⟩ := hl.file_inode f file hg
    have hi := hinode file.inodeID
    rw [hy, map_some, map_eq_some_iff] at hi
    obtain ⟨y', hy', hyy⟩ := hi
    obtain ⟨hpath, hname, hparent⟩ := hf.file f file y hg hy
    obtain ⟨hpath', hname', hparent'⟩ := hf'.file f file' y' hg' (hid ▸ hy')
    have hyPath : y'.path = y.path := (congrArg InodeMetadata.path hyy :)
    have hyName : y'.name = y.name := (congrArg InodeMetadata.name hyy :)
    have hyParent : y'.parentID = y.parentID := (congrArg InodeMetadata.parentID hyy :)
    have hrestore : ∀ z : FileMetadata, undatedFile z =
        { unlabelledFile z with
          parentInodeID := z.parentInodeID, path := z.path, name := z.name } := fun _ => rfl
    rw [hg', map_some, map_some, hrestore, hrestore, heq, hpath, hname, hparent,
      hpath', hname', hparent', hyPath, hyName, hyParent]

lemma Relabelled.undone (hw : WellFormed c) (hf : FreshPaths c) (hf' : FreshPaths c'')
    (h : Relabelled c c' n x x') (h' : Relabelled c' c'' n x' x'')
    (hplace : pathlessInode x'' = pathlessInode x) : SameUndated c c'' := by
  have hpathless : ∀ i, (c''.inode i).map pathlessInode = (c.inode i).map pathlessInode := by
    intro i
    by_cases hi : i = n
    · rw [hi, h'.self, h.stored, map_some, map_some, hplace]
    · rw [h'.pathless hi, h.pathless hi]
  have hinode := hf.undated_inode hw.tree hf' hpathless
  constructor
  · exact hinode
  · exact hf.undated_file hw.links hf' hinode fun f => (h'.unlabelled f).trans (h.unlabelled f)
  · exact h'.chunk.trans h.chunk
  · exact h'.session.trans h.session
  · exact h'.node.trans h.node
  · exact h'.plan.trans h.plan

inductive ThereAndBack (n : InodeID) (x : InodeMetadata) (name : String) :
    MemoryState → MemoryState → MemoryState → Prop
  | rename {s t u now now' when when' a b} (there : Yields (Service.renameInode now
        { inodeID := n, newName := name, updatedAt := when }) s a t)
      (back : Yields (Service.renameInode now'
        { inodeID := n, newName := x.name, updatedAt := when' }) t b u) :
      ThereAndBack n x name s t u
  | move {s t u now now' when when' q a b} (there : Yields (Service.moveInode now
        { inodeID := n, targetParentID := q, newName := name, updatedAt := when }) s a t)
      (back : Yields (Service.moveInode now'
        { inodeID := n, targetParentID := x.parentID, newName := x.name, updatedAt := when' })
        t b u) :
      ThereAndBack n x name s t u

variable {s t u : MemoryState} {history : List (MemoryState × Action)} {name : String}

theorem undone_of_run (hrun : ServiceRun history s) (hslash : SlashFree history)
    (hx : (catalog s).inode n = some x) (hname : '/' ∉ name.toList)
    (h : ThereAndBack n x name s t u) :
    SameUndated (catalog s) (catalog u) ∧ OnlySubtree (catalog s) (catalog t) n := by
  have hw := wellFormed_of_run hrun
  have hf := freshPaths_of_run hrun hslash
  cases h with
  | rename there back =>
    obtain ⟨x1, path, -, -, rfl, hthere⟩ := renameInode_relabels hw there
    obtain rfl : x = x1 := mem_unique hx hthere.stored
    have hchange : NamespaceChange (fun name => '/' ∉ name.toList) (catalog s) (catalog t) :=
      renameInode_refines hw hname there
    have hw' := hw.namespaceChange hchange
    have hf' := hf.namespaceChange hw hchange
    obtain ⟨x2, path', -, hpath', rfl, hback⟩ := renameInode_relabels hw' back
    obtain rfl := mem_unique hthere.self hback.stored
    -- the root's old name is the one name that nothing is known of, and it is in no path
    have hf'' := hf'.rename hw' (fun hroot => hf.segment n x hx hroot) hpath' hback
    exact ⟨hthere.undone hw hf hf'' hback rfl, hthere.onlySubtree hw hf rfl⟩
  | move there back =>
    obtain ⟨x1, parent, name1, -, ⟨hparent, -⟩, ⟨hself, hbelow⟩, -, rfl, hthere⟩ :=
      moveInode_relabels hw there
    obtain rfl : x = x1 := mem_unique hx hthere.stored
    have hchange : NamespaceChange (fun name => '/' ∉ name.toList) (catalog s) (catalog t) :=
      moveInode_refines hw hname there
    have hw' := hw.namespaceChange hchange
    have hf' := hf.namespaceChange hw hchange
    obtain ⟨hroot, -⟩ := hw.tree.target_outside hx hparent hself hbelow
    have hsegment := hf.segment n x hx hroot
    obtain ⟨x2, parent', name2, hname2, ⟨hparent', -⟩, ⟨hself', hbelow'⟩, -, rfl, hback⟩ :=
      moveInode_relabels hw' back
    obtain rfl := mem_unique hthere.self hback.stored
    obtain rfl : name2 = x.name := hname2.trans (if_neg hsegment.1)
    have hf'' := hf'.move hw' (.inr hsegment) hparent' hself' hbelow' hback
    exact ⟨hthere.undone hw hf hf'' hback rfl, hthere.onlySubtree hw hf rfl⟩

def siblingDirectories : List Call := renamedAndMoved.take 4

theorem undone_siblingDirectories :
    ∃ x t u, ThereAndBack "i1" x "c" (play 1 siblingDirectories).2 t u ∧
      SameUndated (catalog (play 1 siblingDirectories).2) (catalog u) ∧
      OnlySubtree (catalog (play 1 siblingDirectories).2) (catalog t) "i1" := by
  have hplace : ((catalog (play 1 siblingDirectories).2).inode "i1").map
      (fun x => (x.parentID, x.name)) = some (rootInodeID, "a") := by decide +kernel
  obtain ⟨x, hx, hxa⟩ := map_eq_some_iff.mp hplace
  simp only [Prod.mk.injEq] at hxa
  have hboth : Returns (do
      let _ ← Service.moveInode 2 { inodeID := "i1", targetParentID := "i2", newName := "c" }
      Service.moveInode 3 { inodeID := "i1", targetParentID := rootInodeID, newName := "a" })
      (play 1 siblingDirectories).2 := by decide +kernel
  obtain ⟨b, u, hboth⟩ := hboth
  obtain ⟨a, t, there, back⟩ := yields_bind.mp hboth
  rw [← hxa.1, ← hxa.2] at back
  have h : ThereAndBack "i1" x "c" (play 1 siblingDirectories).2 t u := .move there back
  exact ⟨x, t, u, h, undone_of_run (serviceRun_play 1 siblingDirectories) (by decide +kernel) hx
    (by decide) h⟩

end AstraStorage.Proofs
