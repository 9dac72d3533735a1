import ToastySurreal.Schema
import ToastySurreal.Text

/-!
# Rendering schema diffs as migrations

The model of `migration.rs`. A migration is a list of statements; a `Statement`
says what the statement is and `text` is the SurrealQL that `format!` writes for
it. Statements are deduplicated by comparing their texts, as the source does.
-/

namespace ToastySurreal

/-! ## Statements -/

/-- The statements a generated migration is made of. -/
inductive Statement where
  | defineTable (table : String) (ifNotExists : Bool)
  | removeTable (table : String)
  | defineIndex (index table : String) (columns : List String) (unique ifNotExists : Bool)
  | removeIndex (index table : String)
  /-- Copy `previous` into `next` in every row that has it. -/
  | updateSet (table next previous : String)
  | updateUnset (table column : String)
  /-- The guard of a change that needs a manual migration. -/
  | throw (reason : String)
  | returnNone
  deriving DecidableEq, Repr

/-- The body of `manual_guard`'s string literal: backslashes first, then quotes. -/
def escapeQuoted (reason : String) : String :=
  replaceChar '\'' "\\'" (replaceChar '\\' "\\\\" reason)

def ifNotExistsText (ifNotExists : Bool) : String := if ifNotExists then " IF NOT EXISTS" else ""

/-- The SurrealQL text of a statement. -/
def Statement.text : Statement → String
  | .defineTable table ifNotExists =>
      "DEFINE TABLE" ++ ifNotExistsText ifNotExists ++ " " ++ escapeIdent table ++ " SCHEMALESS"
  | .removeTable table => "REMOVE TABLE " ++ escapeIdent table
  | .defineIndex index table columns unique ifNotExists =>
      "DEFINE INDEX" ++ ifNotExistsText ifNotExists ++ " " ++ (escapeIdent index ++ (" ON TABLE " ++
        (escapeIdent table ++ (" COLUMNS " ++ (identList columns ++
          if unique then " UNIQUE" else "")))))
  | .removeIndex index table =>
      "REMOVE INDEX " ++ (escapeIdent index ++ (" ON TABLE " ++ escapeIdent table))
  | .updateSet table next previous =>
      "UPDATE " ++ escapeIdent table ++ " SET " ++ escapeIdent next ++ " = " ++
        escapeIdent previous ++ " WHERE " ++ escapeIdent previous ++ " IS NOT NONE RETURN NONE"
  | .updateUnset table column =>
      "UPDATE " ++ escapeIdent table ++ " UNSET " ++ escapeIdent column ++ " RETURN NONE"
  | .throw reason => "THROW 'manual migration required: " ++ escapeQuoted reason ++ "'"
  | .returnNone => "RETURN NONE"

example : (Statement.defineIndex "items_value" "items" ["value"] true false).text =
    "DEFINE INDEX `items_value` ON TABLE `items` COLUMNS `value` UNIQUE" := by decide

def Statement.isThrow : Statement → Bool
  | .throw _ => true
  | _ => false

/-- `push_unique`: compare texts, as the source does. -/
def pushUnique (statements : List Statement) (s : Statement) : List Statement :=
  if s.text ∈ statements.map Statement.text then statements else statements ++ [s]

/-! ## Schema diffs -/

/-- `diff::Column`. -/
inductive ColumnDiff where
  | add (column : Column)
  | drop (column : Column)
  | alter (previous next : Column)
  deriving DecidableEq, Repr

/-- `diff::Index`. -/
inductive IndexDiff where
  | create (index : Index)
  | drop (index : Index)
  | alter (previous next : Index)
  deriving DecidableEq, Repr

/-- `diff::Table`. -/
inductive TableDiff where
  | create (table : Table)
  | drop (table : Table)
  | alter (previous next : Table) (columns : List ColumnDiff) (indices : List IndexDiff)

/-! ## Rendering one table -/

/-- `define_index_statement`. -/
def defineIndexStatement (table : Table) (index : Index) (ifNotExists : Bool) : Statement :=
  .defineIndex index.name table.name (index.columns.map fun cid => (table.column cid).name)
    index.unique ifNotExists

/-- `remove_index_statement`. -/
def removeIndexStatement (table : Table) (index : Index) : Statement :=
  .removeIndex index.name table.name

/-- `define_table_statements`: the table and its secondary indices. -/
def defineTableStatements (table : Table) (ifNotExists : Bool) : List Statement :=
  .defineTable table.name ifNotExists ::
    (table.indices.filter fun ix => !ix.primaryKey).map
      fun ix => defineIndexStatement table ix ifNotExists

/-- The column a change list maps a column to, if it alters it. -/
def alteredTo (columns : List ColumnDiff) (c : Column) : Option Column :=
  columns.findSome? fun
    | .alter changedPrevious changedNext =>
        if changedPrevious.id = c.id then some changedNext else none
    | _ => none

/-- `primary_key_changed`: the two keys differ in length, or in some position the
previous column does not map to the next one, or its type changes. A column that
is not altered maps by name. -/
def primaryKeyChanged (previous next : Table) (columns : List ColumnDiff) : Bool :=
  if previous.primaryKey.length ≠ next.primaryKey.length then true
  else (previous.primaryKeyColumns.zip next.primaryKeyColumns).any
    fun (previousColumn, nextPkColumn) =>
    match (alteredTo columns previousColumn).or
        (next.columns.find? fun candidate => candidate.name = previousColumn.name) with
    | none => true
    | some mapped => mapped.id ≠ nextPkColumn.id || previousColumn.ty ≠ mapped.ty ||
        previousColumn.storageTy ≠ mapped.storageTy

/-- The lists `render_alter_table` fills in before it joins them. -/
structure Parts where
  guards : List Statement
  indexRemovals : List Statement
  dataChanges : List Statement
  indexDefinitions : List Statement
  renamedColumns : List (Column × Column)

namespace Parts

def pushGuard (parts : Parts) (reason : String) : Parts :=
  { parts with guards := pushUnique parts.guards (.throw reason) }

def pushRemoval (parts : Parts) (s : Statement) : Parts :=
  { parts with indexRemovals := pushUnique parts.indexRemovals s }

def pushDefinition (parts : Parts) (s : Statement) : Parts :=
  { parts with indexDefinitions := pushUnique parts.indexDefinitions s }

def pushData (parts : Parts) (s : Statement) : Parts :=
  { parts with dataChanges := parts.dataChanges ++ [s] }

def pushRenamed (parts : Parts) (previous next : Column) : Parts :=
  { parts with renamedColumns := parts.renamedColumns ++ [(previous, next)] }

end Parts

/-- One turn of the loop over the column diff. -/
def columnStep (previous next : Table) (parts : Parts) : ColumnDiff → Parts
  | .add _ => parts
  | .drop column =>
      if isPrimaryKey previous column then parts
      else parts.pushData (.updateUnset next.name column.name)
  | .alter previousColumn nextColumn =>
      let parts :=
        if previousColumn.ty ≠ nextColumn.ty ∨ previousColumn.storageTy ≠ nextColumn.storageTy then
          parts.pushGuard ("column type change on " ++ next.name ++ "." ++ nextColumn.name)
        else parts
      -- a primary-key column lives in the record id: renaming its alias moves nothing
      if previousColumn.name ≠ nextColumn.name ∧ !isPrimaryKey previous previousColumn ∧
          !isPrimaryKey next nextColumn then
        (((parts.pushRenamed previousColumn nextColumn).pushData
          (.updateSet next.name nextColumn.name previousColumn.name)).pushData
          (.updateUnset next.name previousColumn.name))
      else parts

/-- One turn of the loop over the index diff. -/
def indexStep (previous next : Table) (parts : Parts) : IndexDiff → Parts
  | .create index =>
      if index.primaryKey then parts
      else parts.pushDefinition (defineIndexStatement next index false)
  | .drop index =>
      if index.primaryKey then parts
      else parts.pushRemoval (removeIndexStatement previous index)
  | .alter previousIndex nextIndex =>
      let parts :=
        if previousIndex.primaryKey then parts
        else parts.pushRemoval (removeIndexStatement previous previousIndex)
      if nextIndex.primaryKey then parts
      else parts.pushDefinition (defineIndexStatement next nextIndex false)

/-- The secondary indices of a table that list a column. -/
def indicesOn (table : Table) (column : Column) : List Index :=
  table.indices.filter fun ix => !ix.primaryKey && ix.columns.contains column.id

/-- One turn of the loop over the renamed columns: rebuild every index on them. -/
def renameStep (previous next : Table) (parts : Parts) (renamed : Column × Column) : Parts :=
  let parts := (indicesOn previous renamed.1).foldl
    (fun parts index => parts.pushRemoval (removeIndexStatement previous index)) parts
  (indicesOn next renamed.2).foldl
    (fun parts index => parts.pushDefinition (defineIndexStatement next index false)) parts

/-- The guard on the primary key, pushed before the loops. -/
def keyGuard (previous next : Table) (columns : List ColumnDiff) : List Statement :=
  if primaryKeyChanged previous next columns then
    [.throw ("primary-key layout or type change on " ++ next.name)]
  else []

/-- What the three loops of `render_alter_table` have collected. -/
def alterParts (previous next : Table) (columns : List ColumnDiff) (indices : List IndexDiff) :
    Parts :=
  let parts := columns.foldl (columnStep previous next)
    ⟨keyGuard previous next columns, [], [], [], []⟩
  let parts := indices.foldl (indexStep previous next) parts
  parts.renamedColumns.foldl (renameStep previous next) parts

/-- `render_alter_table`, appending to the statements so far. -/
def renderAlterTable (previous next : Table) (columns : List ColumnDiff) (indices : List IndexDiff)
    (statements : List Statement) : List Statement :=
  if previous.name ≠ next.name then
    pushUnique statements
      (.throw ("table rename from " ++ previous.name ++ " to " ++ next.name))
  else
    let parts := alterParts previous next columns indices
    -- guards first, then the indices, and the data last: an index defined after
    -- the data has moved would not see it
    statements ++ parts.guards ++ parts.indexRemovals ++ parts.indexDefinitions ++ parts.dataChanges

/-- One turn of the loop in `generate`. -/
def generateStep (statements : List Statement) : TableDiff → List Statement
  | .create table => statements ++ defineTableStatements table false
  | .drop table => statements ++ [.removeTable table.name]
  | .alter previous next columns indices =>
      renderAlterTable previous next columns indices statements

/-- `generate`. -/
def generate (schemaDiff : List TableDiff) : List Statement :=
  let statements := schemaDiff.foldl generateStep []
  -- a diff with no physical effect still needs a migration to track
  if statements.isEmpty then [.returnNone] else statements

end ToastySurreal
