import AstraStorage.Lib.Forest
import AstraStorage.Lib.Programs
import AstraStorage.Model.Service

/-!
# The Postgres repository: moving an inode

`moveInode`, `isDescendant`, `inodeNameTaken` and `updateSubtreePaths` of
`internal/platform/postgres/repository/inode.go`, `InTx` of `repository.go`, and the service
call `MoveInode` on this repository, as programs of SQL statements. `readCommitted` says what the
statements do. Any statement may fail, and calls on other tables give any answer.
-/

namespace AstraStorage.Postgres
open Lib
open Store (InodeSelector FileSelector FileFilter FilePatch MoveInodeOperation
  UpdateSubtreePathsOperation ErrorKind ErrorArg StoreError)
open Service (MoveInodeRequest requestTime pathWithinPrefix replacePathPrefix)

/-! ### The database -/

/-- The rows of `mds_inodes`. -/
abbrev InodeRows := Records InodeMetadata.id

/-- The column `parent_id`. -/
def parentIn (rows : InodeRows) (i : InodeID) : Option InodeID :=
  (rows.lookup i).map (·.parentID)

/-- The committed rows, and for every transaction the row versions that it has written. -/
structure Database (ι : Type) where
  committed : InodeRows
  written : ι → InodeRows := fun _ => ∅

/-- What a statement of transaction `i` reads: the committed rows and the transaction's own. -/
def Database.sees {ι : Type} (d : Database ι) (i : ι) : InodeRows :=
  d.committed.merge (d.written i)

/-- The statements of a transaction that moves an inode. -/
inductive Statement where
  | begin
  | selectInode (selector : InodeSelector)
  | selectSibling (parentID : InodeID) (name : String) (excludeID : InodeID)
  | updateParent (id parentID : InodeID) (name path : String) (updatedAt : Time)
  | updateSubtree (op : UpdateSubtreePathsOperation)
  | getFile (selector : FileSelector)
  | listFiles (filter : FileFilter)
  | updateFile (patch : FilePatch)
  | commit
  | rollback

def Statement.Result : Statement → Type
  | .selectInode _ => Option InodeMetadata
  | .selectSibling .. => Option InodeID
  | .getFile _ => FileMetadata
  | .listFiles _ => List FileMetadata
  | _ => Unit

/-- The `WHERE` clause of a selector. -/
def selected (selector : InodeSelector) (row : InodeMetadata) : Bool :=
  (selector.id = "" || row.id = selector.id) &&
  (selector.parentID = "" || row.parentID = selector.parentID) &&
  (selector.path = "" || row.path = selector.path) &&
  (selector.name = "" || row.name = selector.name) &&
  selector.type.all (row.type = ·)

/-- The operator `LIKE`: in the pattern `%` stands for any text, `_` for any character, and a
backslash takes the next character for itself. -/
def like : List Char → List Char → Bool
  | [], text => text.isEmpty
  | '%' :: pattern, text => text.tails.any (like pattern)
  | '_' :: _, [] => false
  | '_' :: pattern, _ :: text => like pattern text
  | '\\' :: _ :: _, [] => false
  | '\\' :: c :: pattern, d :: text => c = d && like pattern text
  | _ :: _, [] => false
  | c :: pattern, d :: text => c = d && like pattern text

/-- The rows that the statement of `updateSubtreePaths` matches: those below the root of the
subtree whose path is like the old one. -/
def InSubtree (rows : InodeRows) (op : UpdateSubtreePathsOperation) (row : InodeMetadata) : Prop :=
  rows.lookup row.id = some row ∧ Below (parentIn rows) row.id op.rootID ∧
    like (op.oldPrefix ++ "%").toList row.path.toList = true

/-- `SET path = $2 || substring(path FROM char_length($3) + 1), updated_at = $4`. -/
def underNewPath (op : UpdateSubtreePathsOperation) (row : InodeMetadata) : InodeMetadata :=
  { row with
    path := op.newPrefix ++ String.ofList (row.path.toList.drop op.oldPrefix.toList.length)
    updatedAt := op.updatedAt }

/-- `d.Does i o r d'`: statement `o` of transaction `i` ends in `d` with result `r`. An update
waits for the other transactions that have written one of its rows. The recursive query of
`updateSubtree` is a `UNION ALL` and never ends if the root is below itself. -/
def Database.Does {ι : Type} [DecidableEq ι] (d : Database ι) (i : ι) :
    (o : Statement) → o.Result → Database ι → Prop
  | .selectInode selector, none, d' =>
    d' = d ∧ ∀ row ∈ (d.sees i).values, selected selector row = false
  | .selectInode selector, some row, d' =>
    d' = d ∧ row ∈ (d.sees i).values ∧ selected selector row = true
  | .selectSibling parentID name excludeID, sibling, d' =>
    d' = d ∧ (sibling.isSome ↔ ∃ row ∈ (d.sees i).values, row.parentID = parentID ∧
      row.name = name ∧ row.status ≠ .deleted ∧ (excludeID = "" ∨ row.id ≠ excludeID))
  | .updateParent id parentID name path updatedAt, _, d' =>
    (∀ j, j ≠ i → (d.written j).lookup id = none) ∧
    d' = match (d.sees i).lookup id with
      | none => d
      | some row => { d with written := Function.update d.written i ((d.written i).put
          { row with parentID := parentID, name := name, path := path, updatedAt := updatedAt }) }
  | .updateSubtree op, _, d' =>
    ¬Below (parentIn (d.sees i)) op.rootID op.rootID ∧
    ∃ rows : InodeRows,
      (∀ row, row ∈ rows.values ↔ ∃ old, InSubtree (d.sees i) op old ∧ row = underNewPath op old) ∧
      (∀ row ∈ rows.values, ∀ j, j ≠ i → (d.written j).lookup row.id = none) ∧
      d' = { d with written := Function.update d.written i ((d.written i).merge rows) }
  | .commit, _, d' =>
    d' = { committed := d.committed.merge (d.written i), written := Function.update d.written i ∅ }
  | .rollback, _, d' => d' = { d with written := Function.update d.written i ∅ }
  | .begin, _, d' => d' = d
  | .getFile _, _, d' => d' = d
  | .listFiles _, _, d' => d' = d
  | .updateFile _, _, d' => d' = d

/-- What the driver reports for a statement that failed. -/
inductive DatabaseError where
  | uniqueViolation (constraintName : String)
  | foreignKeyViolation (constraintName : String)
  | other (message : String)

/-- An error of the store, of the database, or a loop without end. -/
inductive TxError where
  | store (e : StoreError)
  | database (e : DatabaseError)
  | diverges

/-- The errors that a statement may fail with; a call on another table with any. -/
def Statement.MayFail : Statement → TxError → Prop
  | .getFile _, _ => True
  | .listFiles _, _ => True
  | .updateFile _, _ => True
  | _, e => ∃ e', e = .database e'

/-- The statements as the steps of a program. -/
def sql : Interface where
  Op := Statement
  Reply := fun o => Except TxError o.Result

/-- A statement that fails leaves the tables alone. -/
def readCommitted {ι : Type} [DecidableEq ι] (i : ι) : Semantics sql (Database ι)
  | o, d, .error e, d' => o.MayFail e ∧ d' = d
  | o, d, .ok r, d' => d.Does i o r d'

/-! ### The repository -/

abbrev TxM := ExceptT TxError (Prog sql)

/-- The error of a query is passed on as it is. -/
def query (o : Statement) : TxM o.Result := ExceptT.mk (Prog.perform (I := sql) o)

/-- Violated constraints become errors of the store. -/
def translateExecError : TxError → TxError
  | .database (.uniqueViolation constraintName) =>
    .store ⟨.alreadyExists, "%s", [.text constraintName]⟩
  | .database (.foreignKeyViolation constraintName) =>
    .store ⟨.conflict, "%s", [.text constraintName]⟩
  | e => e

/-- A statement whose violations are translated. -/
def exec (o : Statement) : TxM o.Result := do
  match ← Prog.attempt (query o) with
  | .error e => throw (translateExecError e)
  | .ok r => return r

/-- `if c { return fmt.Errorf(...) }`. -/
def reject (c : Prop) [Decidable c] (kind : ErrorKind) (format : String)
    (args : List ErrorArg := []) : TxM Unit :=
  if c then throw (.store ⟨kind, format, args⟩) else pure ()

/-- An empty selector is refused. -/
def getInode (selector : InodeSelector) : TxM InodeMetadata := do
  reject (selector.id = "" ∧ selector.parentID = "" ∧ selector.path = "" ∧ selector.name = "" ∧
    selector.type = none) .invalidArgument "inode selector is empty"
  match ← query (.selectInode selector) with
  | some inode => return inode
  | none => throw (.store ⟨.notFound, "inode", []⟩)

def inodeNameTaken (parentID : InodeID) (name : String) (excludeID : InodeID) : TxM Bool := do
  if name = "" then return false
  let sibling ← query (.selectSibling parentID name excludeID)
  return sibling.isSome

/-- The loop may follow `parent_id` forever; here it gives up after `rounds` rounds. -/
def isDescendant : Nat → InodeID → InodeID → TxM Bool
  | 0, _, _ => throw .diverges
  | rounds + 1, currentID, ancestorID => do
    if currentID = "" then return false
    match ← Prog.attempt (getInode { id := currentID }) with
    | .error (.store ⟨.notFound, _, _⟩) => return false
    | .error e => throw e
    | .ok inode =>
      if inode.parentID = ancestorID then return true
      isDescendant rounds inode.parentID ancestorID

/-- Check and update are separate statements. -/
def moveInode (rounds : Nat) (op : MoveInodeOperation) : TxM Unit := do
  let inode ← getInode op.selector
  reject (inode.status = .deleting ∨ inode.status = .deleted) .conflict "inode %q cannot be moved"
    [.text inode.id]
  reject (op.expectedType.any (inode.type ≠ ·)) .conflict "inode type mismatch"
  let parent ← getInode { id := op.targetParentID }
  reject (parent.type ≠ .directory) .invalidArgument "target parent must be a directory"
  reject (inode.id = op.targetParentID) .invalidArgument "inode cannot be its own parent"
  if inode.type = .directory then
    let descendant ← isDescendant rounds op.targetParentID inode.id
    reject (descendant = true) .invalidArgument "cannot move directory into its descendant"
  let newName := if op.newName = "" then inode.name else op.newName
  let taken ← inodeNameTaken op.targetParentID newName inode.id
  reject (taken = true) .alreadyExists "duplicate name %q under parent %q"
    [.text newName, .text op.targetParentID]
  let targetPath := if op.targetParentPath = "" then parent.path else op.targetParentPath
  exec (.updateParent inode.id op.targetParentID newName (Store.joinPath targetPath newName)
    op.updatedAt)

/-- One statement updates all paths below the root. -/
def updateSubtreePaths (op : UpdateSubtreePathsOperation) : TxM Unit := do
  reject (op.rootID = "") .invalidArgument "root id is required"
  match ← Prog.attempt (getInode { id := op.rootID }) with
  | .error (.store ⟨.notFound, _, _⟩) =>
    throw (.store ⟨.notFound, "root inode %q", [.text op.rootID]⟩)
  | .error e => throw e
  | .ok _ => exec (.updateSubtree op)

/-- A failed transaction is rolled back. -/
def InTx {α : Type} (fn : TxM α) : TxM α := do
  query .begin
  match ← Prog.attempt fn with
  | .error e =>
    let _ ← Prog.attempt (query .rollback)
    throw e
  | .ok a =>
    query .commit
    return a

/-! ### The service call -/

def syncFileForInode (inode : InodeMetadata) (when : Time) : TxM Unit := do
  let file ← query (.getFile { inodeID := inode.id })
  query (.updateFile {
    selector := { id := file.id }
    parentInodeID := some inode.parentID
    path := some inode.path
    name := some inode.name
    updatedAt := when })

def syncFilesUnderDirectoryPath (oldPrefix newPrefix : String) (when : Time) : TxM Unit := do
  let files ← query (.listFiles { pathPrefix := oldPrefix })
  files.forM fun file => do
    if pathWithinPrefix file.path oldPrefix = false then return
    let updatedPath := replacePathPrefix file.path oldPrefix newPrefix
    if updatedPath = file.path then return
    query (.updateFile { selector := { id := file.id }, path := some updatedPath, updatedAt := when })

/-- A moved directory takes the records below it along. -/
def syncInodeMutation (before after : InodeMetadata) (oldPath : String) (when : Time) : TxM Unit :=
  if before.type = .file then syncFileForInode after when
  else do
    updateSubtreePaths
      { rootID := after.id, oldPrefix := oldPath, newPrefix := after.path, updatedAt := when }
    syncFilesUnderDirectoryPath oldPath after.path when

/-- `Service.MoveInode` on this repository. -/
def MoveInode (rounds : Nat) (now : Time) (req : MoveInodeRequest) : TxM InodeMetadata := do
  reject (req.inodeID = "" ∨ req.targetParentID = "") .invalidArgument
    "inode id and target parent id are required"
  InTx do
    let inode ← getInode { id := req.inodeID }
    let targetParent ← getInode { id := req.targetParentID }
    reject (targetParent.type ≠ .directory) .invalidArgument
      "target parent inode %q is not a directory" [.text targetParent.id]
    let when := requestTime now req.updatedAt
    moveInode rounds {
      selector := { id := req.inodeID }
      targetParentID := req.targetParentID
      targetParentPath := targetParent.path
      newName := req.newName
      updatedAt := when }
    let updated ← getInode { id := req.inodeID }
    syncInodeMutation inode updated inode.path when
    return updated

end AstraStorage.Postgres
