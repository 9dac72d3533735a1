import ToastySurreal.Lib.Simulation
import ToastySurreal.Proof.Identifiers
import ToastySurreal.Proof.KeyedWrites
import ToastySurreal.Proof.OneRecord
import ToastySurreal.Proof.Session
import ToastySurreal.Proof.UpsertCreates
import ToastySurreal.Proof.WriteRead

/-!
# A table as a map

What a table is to its users: rows by the values of their key. `RowStep` says what each
operation does to the map and what it may answer, in terms of rows only; `Represents` is how
the records of a store are a map, and `TableMerge` what a transaction that worked on an
earlier map makes of the map by then. An upsert is of the update action here, and assignments
set values.
-/

namespace ToastySurreal

/-! ## The map -/

/-- Rows by the values of their key columns, in key order. -/
abbrev TableMap := List Value → Option (ColumnId → Value)

open Classical in
/-- The map with a row at a key, or with none. -/
noncomputable def TableMap.put (m : TableMap) (vs : List Value) (row : Option (ColumnId → Value)) :
    TableMap :=
  fun vs' => if vs' = vs then row else m vs'

@[simp] theorem TableMap.put_self (m : TableMap) (vs : List Value)
    (row : Option (ColumnId → Value)) : m.put vs row vs = row := if_pos rfl

theorem TableMap.put_ne {m : TableMap} {vs vs' : List Value} {row : Option (ColumnId → Value)}
    (h : vs' ≠ vs) : m.put vs row vs' = m vs' := if_neg h

/-- The key of a row. -/
def keyOf (table : Table) (row : ColumnId → Value) : List Value := table.primaryKey.map row

/-- A row with values set. -/
def assignedRow (as : List (ColumnId × Assignment)) (row : ColumnId → Value) (cid : ColumnId) :
    Value :=
  match AssocMap.lookup cid as with
  | some (.set v) => v
  | _ => row cid

/-- Every assignment sets a value of a column that is no key, and each a column of its own. -/
structure SetsOnly (table : Table) (as : List (ColumnId × Assignment)) : Prop where
  known : ∀ a ∈ as, a.1 ∈ table.columns.map Column.id
  plain : ∀ a ∈ as, isPrimaryKey table (table.column a.1) = false
  set : ∀ a ∈ as, ∃ v, a.2 = .set v ∧ (table.column a.1).Takes v
  once : (as.map Prod.fst).Nodup

/-- A returning clause of columns that are no keys. -/
structure Returns (table : Table) (returning : Option Returning)
    (columns : Option (List ColumnId)) : Prop where
  clause : returning = columns.map fun cids => .record (cids.map some)
  plain : ∀ cids, columns = some cids →
    ∀ cid ∈ cids, cid ∈ table.columns.map Column.id ∧ isPrimaryKey table (table.column cid) = false

section

variable [Sdk]

/-- The value is stored as nothing, or as JSON's `null`. -/
def Blank (c : Column) (v : Value) : Prop := v = .null ∨ toSurrealForColumn v c = .ok .null

open Classical in
/-- A row whose blank columns take the source's values. -/
noncomputable def filled (table : Table) (source row : ColumnId → Value) (cid : ColumnId) : Value :=
  if isPrimaryKey table (table.column cid) = false ∧ Blank (table.column cid) (row cid) ∧
    source cid ≠ .null
  then source cid else row cid

/-- What an upsert makes of a row, or of none: the shared columns are set, and the others are
the source's where the row has nothing. -/
noncomputable def merged (table : Table) (shared : List (ColumnId × Assignment))
    (source : ColumnId → Value) : Option (ColumnId → Value) → ColumnId → Value
  | none => assignedRow shared source
  | some row => assignedRow shared (filled table source row)

/-- The fields read back for a row. -/
def ReadsRow (table : Table) (select : List ColumnId) (row : ColumnId → Value) (record : Value) :
    Prop :=
  ∃ fields, record = .record fields ∧
    List.Forall₂ (fun cid w => SameValue (table.column cid) (row cid) w) select fields

/-- What a write that took place answers: a count, or the row it made. -/
def AnswersRow (table : Table) (columns : Option (List ColumnId)) (row : ColumnId → Value)
    (resp : ExecResponse) : Prop :=
  match columns with
  | none => resp = .count 1
  | some cids => ∃ record, resp = .valueStream [record] ∧ ReadsRow table cids row record

/-- What is stored for a value. -/
structure StoredAs (c : Column) (v : Value) (s : SurValue) : Prop where
  null : v = .null → s = .none
  value : v ≠ .null → toSurrealForColumn v c = .ok s

/-- A record holds a row. -/
structure HoldsRow (table : Table) (row : ColumnId → Value) (rid : RecordId) (o : Object) :
    Prop where
  key : keyId table row = .ok rid
  typed : KeyTyped table row
  takes : ∀ c ∈ table.columns, c.Takes (row c.id)
  stored : ∀ c ∈ table.columns, isPrimaryKey table c = false →
    StoredAs c (row c.id) (Object.field (recordRow rid o) c.name)

/-- The operation is one on rows of the table. -/
inductive OnTable (table : Table) : Operation → Prop where
  | insert {stmt : Insert} {row : Row} {columns : Option (List ColumnId)} (ret : Bool)
      (hrow : stmt.values = some [row]) (ht : Targets table stmt.columns)
      (htakes : ∀ p ∈ rowPairs row stmt.columns 0, (table.column p.1).Takes p.2)
      (hret : Returns table stmt.returning columns) : OnTable table
      (.insert (some (table, stmt)) ret)
  | get {op : GetByKey} (hkeys : ∀ key ∈ op.keys, ∃ value rid, KeyForm table value key ∧
        KeyTyped table value ∧ keyId table value = .ok rid)
      (hselect : ∀ cid ∈ op.select, cid ∈ table.columns.map Column.id) : OnTable table
        (.getByKey table op)
  | update {op : UpdateByKey} {key : Value} {value : ColumnId → Value} (hkeys : op.keys = [key])
      (hkey : KeyForm table value key) (ht : KeyTyped table value)
      (hsets : SetsOnly table op.assignments)
      (hret : Returns table (op.returning.map fun cids => .record (cids.map some)) op.returning) :
      OnTable table (.updateByKey table op)
  | delete {op : DeleteByKey} {key : Value} {value : ColumnId → Value} (hkeys : op.keys = [key])
      (hkey : KeyForm table value key) (ht : KeyTyped table value) : OnTable table
      (.deleteByKey table op)
  | upsert {op : Upsert} {clause : UpsertClause} {row : Row} {columns : Option (List ColumnId)}
      (hclause : op.clause = some clause) (haction : clause.action = .update)
      (hrow : op.insert.values = some [row]) (ht : Targets table op.insert.columns)
      (htakes : ∀ p ∈ rowPairs row op.insert.columns 0, (table.column p.1).Takes p.2)
      (hshared : SetsOnly table clause.shared) (hret : Returns table op.insert.returning columns) :
      OnTable table (.upsert table op)

variable [Surql]

/-- The filter and the condition of a write come out so of a row, as it is stored. -/
def ComesOut (table : Table) (exprs : List (Option Expr)) (row : ColumnId → Value) (b : Bool) :
    Prop :=
  ∃ rid o, HoldsRow table row rid o ∧ predicatesHold table exprs rid o = b

/-- **What an operation does to the map**, and what it answers. -/
inductive RowStep (table : Table) (m : TableMap) :
    Operation → Except Error ExecResponse → TableMap → Prop where
  /-- An operation may be refused, and then nothing is done. -/
  | refused {op : Operation} {err : Error} : RowStep table m op (.error err) m
  /-- A row goes where there is none. -/
  | inserted {stmt : Insert} {row : Row} {ret : Bool} {columns : Option (List ColumnId)}
      {resp : ExecResponse}
      (hrow : stmt.values = some [row]) (hret : Returns table stmt.returning columns)
      (hfree : m (keyOf table (valueOf row stmt.columns)) = none)
      (hresp : AnswersRow table columns (valueOf row stmt.columns) resp) :
      RowStep table m (.insert (some (table, stmt)) ret) (.ok resp)
        (m.put (keyOf table (valueOf row stmt.columns)) (some (valueOf row stmt.columns)))
  /-- The rows of the keys that have one, in the order of the keys. -/
  | read {op : GetByKey} {keys : List (List Value)} {records : List Value}
      (hkeys : List.Forall₂
        (fun key vs => ∃ value, KeyForm table value key ∧ vs = keyOf table value) op.keys keys)
      (hrecords : List.Forall₂ (ReadsRow table op.select) (keys.filterMap m) records) :
      RowStep table m (.getByKey table op) (.ok (.valueStream records)) m
  /-- The columns are set. -/
  | updated {op : UpdateByKey} {key : Value} {value row : ColumnId → Value} {resp : ExecResponse}
      (hkeys : op.keys = [key]) (hkey : KeyForm table value key)
      (hrow : m (keyOf table value) = some row)
      (hsel : ComesOut table [op.filter, op.condition] row true)
      (hresp : AnswersRow table op.returning (assignedRow op.assignments row) resp) :
      RowStep table m (.updateByKey table op) (.ok resp)
        (m.put (keyOf table value) (some (assignedRow op.assignments row)))
  /-- There is no row, or the filter or the condition does not hold of it. -/
  | missed {op : UpdateByKey} {key : Value} {value : ColumnId → Value} (hkeys : op.keys = [key])
      (hkey : KeyForm table value key)
      (hnone : ∀ row, m (keyOf table value) = some row →
        ComesOut table [op.filter, op.condition] row false) :
      RowStep table m (.updateByKey table op) op.missed m
  | deleted {op : DeleteByKey} {key : Value} {value row : ColumnId → Value}
      (hkeys : op.keys = [key])
      (hkey : KeyForm table value key) (hrow : m (keyOf table value) = some row)
      (hsel : ComesOut table [op.filter, op.condition] row true) :
      RowStep table m (.deleteByKey table op) (.ok (.count 1))
        (m.put (keyOf table value) none)
  | undeleted {op : DeleteByKey} {key : Value} {value : ColumnId → Value} (hkeys : op.keys = [key])
      (hkey : KeyForm table value key)
      (hnone : ∀ row, m (keyOf table value) = some row →
        ComesOut table [op.filter, op.condition] row false) :
      RowStep table m (.deleteByKey table op)
        (if op.condition.isSome then .error
          (.conditionFailed "SurrealDB delete condition did not match") else .ok (.count 0)) m
  /-- A row is created, or the one that is there merged with. -/
  | upserted {op : Upsert} {clause : UpsertClause} {row : Row} {columns : Option (List ColumnId)}
      {new : ColumnId → Value} {resp : ExecResponse} (hclause : op.clause = some clause)
      (hrow : op.insert.values = some [row]) (hret : Returns table op.insert.returning columns)
      (hnew : new = merged table clause.shared (valueOf row op.insert.columns)
        (m (keyOf table (valueOf row op.insert.columns))))
      (hresp : AnswersRow table columns new resp) :
      RowStep table m (.upsert table op) (.ok resp)
        (m.put (keyOf table (valueOf row op.insert.columns)) (some new))

/-! ## How a store is a map -/

/-- The records are the rows of the map, and there are no others. -/
structure Represents (table : Table) (s : Records) (m : TableMap) : Prop where
  present : ∀ vs row, m vs = some row → vs = keyOf table row ∧
    ∃ rid o, AssocMap.lookup rid s = some o ∧ HoldsRow table row rid o
  absent : ∀ value rid, KeyTyped table value → m (keyOf table value) = none →
    keyId table value = .ok rid → AssocMap.lookup rid s = none

/-- Every key a row can have is told apart and read back, and so is every other column. The
table's name can be written, as theirs can. -/
structure Table.Mapped (t : Table) : Prop where
  readsTrue : t.ReadsTrue
  exact : ∀ cid ∈ t.primaryKey, (t.column cid).ty.isExact = true
  name : CleanName t.name

/-! ## What a transaction makes of the map -/

/-- Nothing that is stored tells the two apart: there is no row, or there are rows of one record. -/
def Alike (table : Table) : Option (ColumnId → Value) → Option (ColumnId → Value) → Prop
  | none, none => True
  | some row, some row' => ∃ rid o, HoldsRow table row rid o ∧ HoldsRow table row' rid o
  | _, _ => False

/-- A transaction made `working` of the map `start`, and commits it into the map `m`: every row
that it left as it was is the map's, and every other one is the transaction's, where nobody else
has changed it since. -/
def TableMerge (table : Table) (start working m m' : TableMap) : Prop :=
  ∀ vs, (Alike table (start vs) (working vs) ∧ m' vs = m vs) ∨
    (Alike table (start vs) (m vs) ∧ m' vs = working vs)

end

end ToastySurreal
