import AstraStorage.Proofs.Catalog

/-!
# How the catalog changes

The abstract machine: the ways in which a service call may change the catalog, with their guards.
-/

namespace AstraStorage.Proofs
open Lib Store Service Function

def NameFree (c : Catalog) (parentID : InodeID) (name : String) (excludeID : InodeID) : Prop :=
  ∀ i x, c.inode i = some x → x.parentID = parentID → x.name = name → i ≠ excludeID →
    x.status = .deleted

def Childless (c : Catalog) (i : InodeID) : Prop :=
  ∀ j y, c.inode j = some y → y.parentID = i → y.status = .deleted

open Classical in
noncomputable def repath (c : Catalog) (n : InodeID) (x x' : InodeMetadata) (i : InodeID)
    (y : InodeMetadata) : InodeMetadata :=
  if Below (parentOf c) i n ∧ hasPrefix y.path x.path = true then
    { y with path := x'.path ++ trimPrefix y.path x.path, updatedAt := x'.updatedAt }
  else y

def refile (oldPath newPath : String) (when : Time) (file : FileMetadata) : FileMetadata :=
  let path := replacePathPrefix file.path oldPath newPath
  if hasPrefix file.path oldPath = true ∧ pathWithinPrefix file.path oldPath = true ∧
      path ≠ file.path then
    { file with path := path, updatedAt := when }
  else file

section Refile

variable {oldPath newPath : String} {when : Time} {file : FileMetadata}

@[simp] lemma refile_inodeID : (refile oldPath newPath when file).inodeID = file.inodeID := by
  simp only [refile]
  split <;> rfl

@[simp] lemma refile_latest : (refile oldPath newPath when file).latestUploadSessionID =
    file.latestUploadSessionID := by
  simp only [refile]
  split <;> rfl

@[simp] lemma refile_name : (refile oldPath newPath when file).name = file.name := by
  simp only [refile]
  split <;> rfl

@[simp] lemma refile_parentInodeID :
    (refile oldPath newPath when file).parentInodeID = file.parentInodeID := by
  simp only [refile]
  split <;> rfl

end Refile

def syncFile (x' : InodeMetadata) (file : FileMetadata) : FileMetadata :=
  { file with parentInodeID := x'.parentID, path := x'.path, name := x'.name, updatedAt := x'.updatedAt }

structure Relabelled (c c' : Catalog) (n : InodeID) (x x' : InodeMetadata) : Prop where
  stored : c.inode n = some x
  self : c'.inode n = some x'
  inode : ∀ i, i ≠ n → c'.inode i = (c.inode i).map (repath c n x x' i)
  file_of_file : x.type = .file → ∀ f, c'.file f = (c.file f).map fun file =>
    if file.inodeID = n then syncFile x' file else file
  file_of_directory : x.type ≠ .file → ∀ f, c'.file f =
    (c.file f).map (refile x.path x'.path x'.updatedAt)
  chunk : c'.chunk = c.chunk
  session : c'.session = c.session
  node : c'.node = c.node
  plan : c'.plan = c.plan

def withoutFile (c : Catalog) (f : FileID) (i : InodeID) : Catalog :=
  { c with
    inode := update c.inode i none
    file := update c.file f none
    chunk := fun k => (c.chunk k).filter (·.fileID ≠ f)
    session := fun k => (c.session k).filter (·.fileID ≠ f) }

inductive NamespaceChange (ok : String → Prop) : Catalog → Catalog → Prop
  | addDirectory {c i x parent} (hi : i ≠ "")
      (hroot : i ≠ rootInodeID) (hnew : c.inode i = none)
      (hparent : c.inode x.parentID = some parent) (hdir : parent.type = .directory)
      (hfree : NameFree c x.parentID x.name i) (hname : x.name ≠ "") (hok : ok x.name)
      (hpath : x.path = childPath parent.path x.name) (htype : x.type = .directory)
      (hstatus : x.status = .active) (hfile : x.fileID = "") :
      NamespaceChange ok c { c with inode := update c.inode i (some x) }
  | addFile {c i f x parent file} (hi : i ≠ "") (hf : f ≠ "")
      (hroot : i ≠ rootInodeID) (hnew : c.inode i = none) (hnewf : c.file f = none)
      (hparent : c.inode x.parentID = some parent) (hdir : parent.type = .directory)
      (hfree : NameFree c x.parentID x.name i) (hname : x.name ≠ "") (hok : ok x.name)
      (hpath : x.path = childPath parent.path x.name) (htype : x.type = .file)
      (hstatus : x.status = .active) (hfile : x.fileID = f) (hinode : file.inodeID = i)
      (hsync : file.parentInodeID = x.parentID ∧ file.path = x.path ∧ file.name = x.name)
      (hpending : file.status = .pending) (hlatest : file.latestUploadSessionID = "")
      (hstored : file.storedSize = 0) :
      NamespaceChange ok c { c with
        inode := update c.inode i (some x)
        file := update c.file f (some file) }
  | rename {c c' n x name path when}
      (hname : name ≠ "") (hok : ok name) (hfree : NameFree c x.parentID name n)
      (hpath : replaceBaseName x.path name = some path)
      (h : Relabelled c c' n x { x with name := name, path := path, updatedAt := when }) :
      NamespaceChange ok c c'
  | move {c c' n q x parent name when} (hname : name = x.name ∨ (name ≠ "" ∧ ok name))
      (hparent : c.inode q = some parent) (hdir : parent.type = .directory) (hself : n ≠ q)
      (hbelow : x.type = .directory → ¬Below (parentOf c) q n) (hfree : NameFree c q name n)
      (h : Relabelled c c' n x { x with
        parentID := q, name := name, path := joinPath parent.path name, updatedAt := when }) :
      NamespaceChange ok c c'
  | dropFile {c f file} (hfile : c.file f = some file)
      (hleaf : Childless c file.inodeID) :
      NamespaceChange ok c (withoutFile c f file.inodeID)
  | dropDirectory {c i x} (hx : c.inode i = some x)
      (hdir : x.type = .directory) (hroot : i ≠ rootInodeID) (hleaf : Childless c i) :
      NamespaceChange ok c { c with inode := update c.inode i none }

structure SameIdentity (x x' : FileMetadata) : Prop where
  inodeID : x'.inodeID = x.inodeID
  parentInodeID : x'.parentInodeID = x.parentInodeID
  path : x'.path = x.path
  name : x'.name = x.name
  replicaPolicy : x'.replicaPolicy = x.replicaPolicy

structure UploadChange (c c' : Catalog) (f : FileID) (k : UploadSessionID) (x x' : FileMetadata)
    (y' : UploadSession) : Prop where
  stored : c.file f = some x
  owned : ∀ y, c.session k = some y → y.fileID = f
  inode : c'.inode = c.inode
  node : c'.node = c.node
  plan : c'.plan = c.plan
  file : c'.file = update c.file f (some x')
  identity : SameIdentity x x'
  latest : x'.latestUploadSessionID = x.latestUploadSessionID ∨ x'.latestUploadSessionID = k
  session : c'.session = update c.session k (some y')
  session_file : y'.fileID = f
  chunk : ∀ j z', c'.chunk j = some z' → c.chunk j = some z' ∨ z'.fileID = f
  chunk_ne : c.chunk "" = none → c'.chunk "" = none

end AstraStorage.Proofs
