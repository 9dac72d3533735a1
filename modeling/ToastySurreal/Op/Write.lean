import ToastySurreal.Conn
import ToastySurreal.RecordId
import Mathlib.Data.List.Sort

/-!
# The writing operations

The models of `op/insert.rs`, `op/update_by_key.rs`, `op/delete_by_key.rs` and
`op/upsert.rs`. An operation names its table; the model hands it the table itself.
-/

namespace ToastySurreal

/-- A row of a `VALUES` source; an entry that is no literal is `none`. -/
abbrev Row := List (Option Value)

/-- `stmt::Returning`, as far as the driver looks into it. -/
inductive Returning where
  | notProjection
  | notRecord
  /-- The column references; an item that is none is `none`. -/
  | record (items : List (Option ColumnId))

/-- `stmt::Insert`; `values` is `none` for a source other than `VALUES`. -/
structure Insert where
  columns : List ColumnId
  values : Option (List Row)
  returning : Option Returning

/-- `stmt::Assignment` of a literal; `other` is any other assignment, with its `Debug`
text. -/
inductive Assignment where
  | set (v : Value)
  | add (v : Value)
  | subtract (v : Value)
  | append (v : Value)
  | other (debug : String)

/-- `operation::UpdateByKey`. -/
structure UpdateByKey where
  keys : List Value
  assignments : List (ColumnId × Assignment)
  filter : Option Expr
  condition : Option Expr
  returning : Option (List ColumnId)

/-- `operation::DeleteByKey`. -/
structure DeleteByKey where
  keys : List Value
  filter : Option Expr
  condition : Option Expr

/-- `stmt::UpsertAction`. -/
inductive UpsertAction where
  | update | ignore
  deriving DecidableEq, Repr

/-- `stmt::Upsert`; `target` is `none` when it was not lowered to columns. -/
structure UpsertClause where
  target : Option (List ColumnId)
  action : UpsertAction
  shared : List (ColumnId × Assignment)
  defaults : List (ColumnId × Assignment)

/-- `operation::Upsert`. -/
structure Upsert where
  insert : Insert
  clause : Option UpsertClause

variable [Sdk]

/-! ## Rows of a source -/

/-- `row_value`; `op` is the operation's name in the message. -/
def rowValue (op : String) (row : Row) (position : Nat) : Except Error Value :=
  match row[position]? with
  | some (some value) => .ok value
  | _ => .error (.invalidStatement
      ("SurrealDB " ++ op ++ " row entry did not lower to a literal at position " ++
        toString position))

/-- `returning_columns`. -/
def returningColumns (op : String) (table : Table) :
    Option Returning → Except Error (Option (List Column))
  | none => .ok none
  | some .notProjection => .error (.invalidStatement (op ++ " returning is not a projection"))
  | some .notRecord => .error (.invalidStatement (op ++ " returning must be a record"))
  | some (.record items) => do .ok (some (← columns items))
where
  columns : List (Option ColumnId) → Except Error (List Column)
    | [] => .ok []
    | none :: _ => .error (.invalidStatement (op ++ " returning item is not a column reference"))
    | some cid :: items => do .ok (table.column cid :: (← columns items))

/-- The position of a column in the primary key. -/
def keyPosition (table : Table) (cid : ColumnId) : Nat := (table.primaryKey.idxOf? cid).getD 0

/-- The loop of `build_row`: collect the key's values and the content. -/
def splitRow (op : String) (table : Table) (row : Row) : List ColumnId → Nat → Object →
    List (Nat × Value) → Except Error (Object × List (Nat × Value))
  | [], _, content, pkValues => .ok (content, pkValues)
  | cid :: columns, position, content, pkValues => do
      let column := table.column cid
      let value ← rowValue op row position
      if isPrimaryKey table column then
        splitRow op table row columns (position + 1) content
          (pkValues ++ [(keyPosition table column.id, value)])
      else if value.isNull then splitRow op table row columns (position + 1) content pkValues
      else do
        let stored ← toSurrealForColumn value column
        splitRow op table row columns (position + 1)
          (AssocMap.insert column.name stored content) pkValues

/-- `pk_to_value`: a scalar for one column, otherwise a record in key order. -/
def pkToValue (pkValues : List (Nat × Value)) : Value :=
  match pkValues.insertionSort (fun a b => a.1 ≤ b.1) with
  | [(_, value)] => value
  | sorted => .record (sorted.map Prod.snd)

/-- `build_row`: the record id and the content of a row. -/
def buildRow (op : String) (table : Table) (columns : List ColumnId) (row : Row) :
    Except Error (RecordId × Object) := do
  let (content, pkValues) ← splitRow op table row columns 0 [] []
  let rid ← recordId table (pkToValue pkValues)
  .ok (rid, content)

/-- The `CREATE` of a row. -/
def createQuery (rid : RecordId) (content : Object) (returnAfter : Bool) : Query :=
  ⟨.create returnAfter, [("rid", rid.value), ("data", .object content)]⟩

/-! ## Insert -/

/-- The loop of `exec_insert` over the rows: one `CREATE` a row. -/
def insertRows (conn : Connection) (table : Table) (columns : List ColumnId) (wantReturn : Bool)
    (returning : Option (List Column)) : List Row → Nat → List Value → Action (Nat × List Value)
  | [], count, records => .done (count, records)
  | row :: rows, count, records => do
      let (rid, content) ← .lift (buildRow "insert" table columns row)
      let value ← runQuery conn (createQuery rid content wantReturn)
      let decoded ← .lift (match returning with
        | some select => rowsToRecords select (takeRows value)
        | none => .ok [])
      insertRows conn table columns wantReturn returning rows (count + 1) (records ++ decoded)

/-- `exec_insert`; `ret` says whether the engine asked for typed rows. -/
def execInsert (conn : Connection) (table : Table) (insert : Insert) (ret : Bool) :
    Action ExecResponse :=
  match insert.values with
  | none => .fail (.invalidStatement "SurrealDB insert requires a VALUES source")
  | some rows => do
      let returning ← .lift (returningColumns "insert" table insert.returning)
      let (count, records) ←
        insertRows conn table insert.columns (returning.isSome || ret) returning rows 0 []
      .done (if returning.isSome then .valueStream records else .count count)

/-! ## Update and delete by key -/

/-- The list an append adds: a single value is wrapped. -/
def appended (value : Value) (column : Column) : Except Error SurValue :=
  match value with
  | .list items => toSurrealForColumn (.list items) column
  | other => toSurrealForColumn (.list [other]) column

/-- A pushed parameter and the clause that uses it. -/
def pushClause (binds : Binds) (column : Column) (rhs : String → SetRhs) (value : SurValue) :
    SetClause × Binds :=
  let (p, binds) := binds.push value
  (⟨column.name, rhs p⟩, binds)

/-- One `SET` assignment of an update. -/
def renderAssignment (column : Column) (binds : Binds) :
    Assignment → Except Error (SetClause × Binds)
  | .set value =>
      if value.isNull then .ok (⟨column.name, .none⟩, binds)
      else do .ok (pushClause binds column .param (← toSurrealForColumn value column))
  | .add value => do .ok (pushClause binds column .plus (← toSurrealForColumn value column))
  | .subtract value => do .ok (pushClause binds column .minus (← toSurrealForColumn value column))
  | .append value => do .ok (pushClause binds column .append (← appended value column))
  | .other debug => .error (.unsupportedFeature
      ("SurrealDB driver does not support update assignment: " ++ debug))

def renderAssignments (table : Table) (binds : Binds) :
    List (ColumnId × Assignment) → Except Error (List SetClause × Binds)
  | [] => .ok ([], binds)
  | (cid, assignment) :: rest => do
      let (clause, binds) ← renderAssignment (table.column cid) binds assignment
      let (clauses, binds) ← renderAssignments table binds rest
      .ok (clause :: clauses, binds)

/-- The predicates of a filter and a condition. -/
def renderPredicates (table : Table) (binds : Binds) :
    List (Option Expr) → Except Error (List (List Token) × Binds)
  | [] => .ok ([], binds)
  | none :: rest => renderPredicates table binds rest
  | some expr :: rest => do
      let (toks, binds) ← render table binds expr
      let (clauses, binds) ← renderPredicates table binds rest
      .ok (toks :: clauses, binds)

/-- The `UPDATE` of `exec_update_by_key`. -/
def updateQuery (table : Table) (op : UpdateByKey) (key : Value) : Except Error Query := do
  let (sets, binds) ← renderAssignments table .empty op.assignments
  let (clauses, binds) ← renderPredicates table binds [op.filter, op.condition]
  let rid ← recordId table key
  .ok ⟨.update sets clauses op.returning.isSome, (binds.pushNamed "rid" rid.value).values⟩

/-- Exactly one key is expected. -/
def singleKey (op : String) : List Value → Except Error Value
  | [key] => .ok key
  | keys => .error (.invalidStatement
      ("SurrealDB " ++ op ++ " expects exactly one key, got " ++ toString keys.length))

/-- `exec_update_by_key`. -/
def execUpdateByKey (conn : Connection) (table : Table) (op : UpdateByKey) : Action ExecResponse :=
  do
  let key ← .lift (singleKey "update" op.keys)
  let q ← .lift (updateQuery table op key)
  let value ← runQuery conn q
  let rows := takeRows value
  if rows.isEmpty && op.condition.isSome then
    .fail (.conditionFailed "SurrealDB update condition did not match")
  else
    match op.returning with
    | some columns => do
        let records ← .lift (rowsToRecords (columns.map table.column) rows)
        .done (.valueStream records)
    | none => .done (.count rows.length)

/-- The `DELETE` of `exec_delete_by_key`. -/
def deleteQuery (table : Table) (op : DeleteByKey) (key : Value) : Except Error Query := do
  let (clauses, binds) ← renderPredicates table .empty [op.filter, op.condition]
  let rid ← recordId table key
  .ok ⟨.delete clauses, (binds.pushNamed "rid" rid.value).values⟩

/-- `exec_delete_by_key`. -/
def execDeleteByKey (conn : Connection) (table : Table) (op : DeleteByKey) : Action ExecResponse :=
  do
  let key ← .lift (singleKey "delete" op.keys)
  let q ← .lift (deleteQuery table op key)
  let value ← runQuery conn q
  let rows := takeRows value
  if rows.isEmpty && op.condition.isSome then
    .fail (.conditionFailed "SurrealDB delete condition did not match")
  else .done (.count rows.length)

/-! ## Upsert -/

/-- The default of an operator mutation, as a pushed parameter. -/
def defaultParam (column : Column) (binds : Binds) :
    Option Assignment → Except Error (String × Binds)
  | some (.set value) => do .ok (binds.push (← toSurrealForColumn value column))
  | _ => .error (.invalidStatement
      "SurrealDB shared upsert mutation requires a literal #[default] value")

/-- `render_shared_mutation`: operators fold the declared default in. -/
def renderSharedMutation (column : Column) (default : Option Assignment) (binds : Binds) :
    Assignment → Except Error (SetClause × Binds)
  | .set value =>
      if value.isNull then .ok (⟨column.name, .none⟩, binds)
      else do .ok (pushClause binds column .param (← toSurrealForColumn value column))
  | .add value => do
      let (d, binds) ← defaultParam column binds default
      .ok (pushClause binds column (.orPlus d) (← toSurrealForColumn value column))
  | .subtract value => do
      let (d, binds) ← defaultParam column binds default
      .ok (pushClause binds column (.orMinus d) (← toSurrealForColumn value column))
  | .append value => do
      let (d, binds) ← defaultParam column binds default
      .ok (pushClause binds column (.orConcat d) (← appended value column))
  | .other debug => .error (.unsupportedFeature
      ("SurrealDB driver does not support shared upsert mutation: " ++ debug))

/-- The mutation of a column, by the column's index. -/
def mutationOf (assignments : List (ColumnId × Assignment)) (cid : ColumnId) : Option Assignment :=
  (assignments.find? fun a => a.1.index = cid.index).map Prod.snd

/-- The create-only columns of the source row: `col = col ?? value`. -/
def createOnlySets (table : Table) (clause : UpsertClause) (row : Row) :
    List ColumnId → Nat → Binds → Except Error (List SetClause × Binds)
  | [], _, binds => .ok ([], binds)
  | cid :: columns, position, binds =>
      let column := table.column cid
      if isPrimaryKey table column || (mutationOf clause.shared column.id).isSome then
        createOnlySets table clause row columns (position + 1) binds
      else do
        let value ← rowValue "upsert" row position
        if value.isNull then createOnlySets table clause row columns (position + 1) binds
        else do
          let (set, binds) := pushClause binds column .orParam (← toSurrealForColumn value column)
          let (sets, binds) ← createOnlySets table clause row columns (position + 1) binds
          .ok (set :: sets, binds)

def sharedSets (table : Table) (clause : UpsertClause) (binds : Binds) :
    List (ColumnId × Assignment) → Except Error (List SetClause × Binds)
  | [] => .ok ([], binds)
  | (cid, assignment) :: rest => do
      let (set, binds) ←
        renderSharedMutation (table.column cid) (mutationOf clause.defaults cid) binds assignment
      let (sets, binds) ← sharedSets table clause binds rest
      .ok (set :: sets, binds)

/-- The `UPSERT` of the update action. -/
def upsertQuery (table : Table) (insert : Insert) (clause : UpsertClause) (row : Row)
    (rid : RecordId) (content : Object) (returning : Bool) : Except Error Query := do
  let (created, binds) ← createOnlySets table clause row insert.columns 0 .empty
  let (shared, binds) ← sharedSets table clause binds clause.shared
  let sets := created ++ shared
  if sets.isEmpty then
    -- nothing but the record id to assign
    let (p, binds) := binds.push (.object content)
    .ok ⟨.upsert (.merge p) returning, ("rid", rid.value) :: binds.values⟩
  else .ok ⟨.upsert (.set sets) returning, ("rid", rid.value) :: binds.values⟩

/-- `finish`. -/
def finish (returning : Option (List Column)) (rows : List SurValue) : Except Error ExecResponse :=
  match returning with
  | some select => do .ok (.valueStream (← rowsToRecords select rows))
  | none => .ok (.count (max rows.length 1))

/-- `is_conflict`; an error's `Display` text holds its message. -/
def isConflict (err : Error) : Bool := containsText err.message "already exists"

/-- What `exec_upsert` checks before it splits the row. -/
def upsertSource (table : Table) (op : Upsert) : Except Error (UpsertClause × Row) :=
  match op.clause with
  | none => .error (.invalidStatement "upsert operation without clause")
  | some clause =>
      match clause.target with
      | none => .error (.invalidStatement "SurrealDB upsert target was not lowered to columns")
      | some target =>
          if target ≠ table.primaryKeyColumns.map Column.id then
            .error (.unsupportedFeature "SurrealDB upsert only supports targeting the primary key")
          else
            match op.insert.values with
            | none => .error (.invalidStatement "SurrealDB upsert requires a VALUES source")
            | some [row] => .ok (clause, row)
            | some _ => .error (.invalidStatement "SurrealDB upsert requires exactly one row")

omit [Sdk] in
/-- The clause and the only row of an upsert. -/
theorem upsertSource_ok {table : Table} {op : Upsert} {clause : UpsertClause} {row : Row}
    (h : upsertSource table op = .ok (clause, row)) :
    op.clause = some clause ∧ op.insert.values = some [row] := by
  unfold upsertSource at h
  split at h
  · exact absurd h (by simp)
  · rename_i hclause
    split at h
    · exact absurd h (by simp)
    · split at h
      · exact absurd h (by simp)
      · split at h
        · exact absurd h (by simp)
        · rename_i hvalues
          injection h with h; injection h with h1 h2; subst h1 h2
          exact ⟨hclause, hvalues⟩
        · exact absurd h (by simp)

/-- `exec_upsert`. -/
def execUpsert (conn : Connection) (table : Table) (op : Upsert) : Action ExecResponse := do
  let (clause, row) ← .lift (upsertSource table op)
  let (rid, content) ← .lift (buildRow "upsert" table op.insert.columns row)
  let returning ← .lift (returningColumns "upsert" table op.insert.returning)
  match clause.action with
  | .update => do
      let q ← .lift (upsertQuery table op.insert clause row rid content returning.isSome)
      let value ← runQuery conn q
      .lift (finish returning (takeRows value))
  | .ignore => do
      let result ← (runQuery conn (createQuery rid content returning.isSome)).attempt
      match result with
      | .ok value => .lift (finish returning (takeRows value))
      | .error err =>
          -- a duplicate is what was asked to be ignored
          if isConflict err then .done (if returning.isSome then .valueStream [] else .count 0)
          else .fail err

end ToastySurreal
