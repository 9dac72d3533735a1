import ToastySurreal.Conn
import ToastySurreal.RecordId

/-!
# The reading operations

The models of `op/get_by_key.rs`, `op/query_pk.rs`, `op/scan.rs` and
`op/find_pk_by_index.rs`. Scans and key queries share `runKeysetSelect`, which
resumes a page by key comparison and reads the next cursor off the last row.
-/

namespace ToastySurreal

/-- `operation::GetByKey`. -/
structure GetByKey where
  select : List ColumnId
  keys : List Value

/-- `operation::Pagination`. -/
inductive Pagination where
  | offset (limit : Nat) (offset : Option Nat)
  | cursor (pageSize : Nat) (after : Option Value)

/-- `operation::QueryPk`. -/
structure QueryPk where
  select : List ColumnId
  pkFilter : Expr
  filter : Option Expr
  order : Option Direction
  limit : Option Pagination

/-- `operation::Scan`; columns go by their index. -/
structure Scan where
  columns : List Nat
  filter : Option Expr
  limit : Option Pagination

/-- `operation::FindPkByIndex`. -/
structure FindPkByIndex where
  filter : Expr

variable [Sdk]

/-! ## By key -/

/-- The record ids of the keys, bound to `k0`, `k1`, … -/
def keyBinds (table : Table) : List Value → Nat → Except Error (List (String × SurValue))
  | [], _ => .ok []
  | key :: keys, i => do
      let rid ← recordId table key
      let rest ← keyBinds table keys (i + 1)
      .ok (("k" ++ toString i, rid.value) :: rest)

/-- The `SELECT` of `exec_get_by_key`. -/
def getQuery (table : Table) (op : GetByKey) : Except Error Query := do
  let binds ← keyBinds table op.keys 0
  .ok ⟨.selectKeys (projectColumns table (op.select.map table.column)) (binds.map Prod.fst), binds⟩

/-- `exec_get_by_key`. -/
def execGetByKey (conn : Connection) (table : Table) (op : GetByKey) : Action ExecResponse :=
  if op.keys.isEmpty then .done (.valueStream [])
  else do
    let q ← .lift (getQuery table op)
    let value ← runQuery conn q
    let records ← .lift (rowsToRecords (op.select.map table.column) (takeRows value))
    .done (.valueStream records)

/-! ## By keyset -/

/-- `KeysetSelect`. -/
structure KeysetSelect where
  tableName : String
  projection : List ProjItem
  predicate : Option (List Token)
  sortRef : ColumnRef
  sortColumn : Option Column
  order : Option Direction
  limit : Option Pagination
  binds : Binds
  select : List Column

/-- The last primary-key column. -/
def sortColumn (table : Table) : Option Column := table.primaryKey.getLast?.map table.column

def sortRef (table : Table) : ColumnRef :=
  match sortColumn table with
  | some column => columnRef table column
  | none => .id

/-- Cursor pagination needs an order; ascending when none is asked for. -/
def effectiveOrder (input : KeysetSelect) : Option Direction :=
  match input.order, input.limit with
  | some dir, _ => some dir
  | none, some (.cursor _ _) => some .asc
  | none, _ => none

/-- The resume predicate `sort_ref <op> $cursor`, `<op>` following the order. -/
def resumeClause (input : KeysetSelect) (p : String) : List Token :=
  let op := match effectiveOrder input with
    | some .desc => Op.lt
    | _ => Op.gt
  [.atom (.ref input.sortRef []), .op op, .atom (.param p)]

def limitOf : Option Pagination → Option (Nat × Option Nat)
  | none => none
  | some (.offset limit start) => some (limit, start)
  | some (.cursor pageSize _) => some (pageSize, none)

/-- The resume predicate of a page that goes on from a cursor, and its parameter. -/
def resumePart (input : KeysetSelect) : Except Error (List (List Token) × Binds) :=
  match input.limit with
  | some (.cursor _ (some cursor)) => do
      let (p, binds) := input.binds.push (← toSurreal cursor)
      .ok ([resumeClause input p], binds)
  | _ => .ok ([], input.binds)

/-- The sort key that is projected and ordered by, when there is one. -/
def sortOf (input : KeysetSelect) : Option (ColumnRef × Direction) :=
  match effectiveOrder input, input.sortColumn with
  | some dir, some _ => some (input.sortRef, dir)
  | _, _ => none

/-- The `SELECT` of `run_keyset_select`. -/
def keysetQuery (input : KeysetSelect) : Except Error Query := do
  let (resume, binds) ← resumePart input
  .ok ⟨.select input.projection (sortOf input) input.tableName (input.predicate.toList ++ resume)
    (limitOf input.limit), binds.values⟩

/-- `keyset_cursor`: only a full page has a next one. -/
def keysetCursor (rows : List SurValue) (limit : Option Pagination) (sortColumn : Option Column) :
    Except Error (Option Value) :=
  match limit with
  | some (.cursor pageSize _) =>
      if rows.length < pageSize then .ok none
      else
        match rows.getLast?, sortColumn with
        | some (.object o), some column =>
            match AssocMap.lookup sortAlias o with
            | some value => do .ok (some (← fromSurreal value column.ty))
            | none => .ok none
        | _, _ => .ok none
  | _ => .ok none

/-- `run_keyset_select`. -/
def runKeysetSelect (conn : Connection) (input : KeysetSelect) : Action ExecResponse := do
  let q ← .lift (keysetQuery input)
  let value ← runQuery conn q
  let rows := takeRows value
  let nextCursor ← .lift (keysetCursor rows input.limit input.sortColumn)
  let records ← .lift (rowsToRecords input.select rows)
  .done ⟨.stream records, nextCursor⟩

/-- The predicate of `exec_query_pk`: the key filter and the post-filter. -/
def queryPkPredicate (table : Table) (op : QueryPk) : Except Error (List Token × Binds) := do
  let (predicate, binds) ← render table .empty op.pkFilter
  match op.filter with
  | none => .ok (predicate, binds)
  | some filter => do
      let (extra, binds) ← render table binds filter
      .ok (parens predicate ++ .op .and :: parens extra, binds)

/-- `exec_query_pk`. -/
def execQueryPk (conn : Connection) (table : Table) (op : QueryPk) : Action ExecResponse := do
  let (predicate, binds) ← .lift (queryPkPredicate table op)
  let select := op.select.map table.column
  runKeysetSelect conn
    { tableName := table.name
      projection := projectColumns table select
      predicate := some predicate
      sortRef := sortRef table
      sortColumn := sortColumn table
      order := op.order
      limit := op.limit
      binds := binds
      select := select }

/-- The filter of a scan, if there is one. -/
def scanPredicate (table : Table) : Option Expr → Except Error (Option (List Token) × Binds)
  | none => .ok (none, .empty)
  | some filter => do
      let (toks, binds) ← render table .empty filter
      .ok (some toks, binds)

def scanSelect (table : Table) (op : Scan) : List Column :=
  op.columns.map fun i => table.column ⟨table.id, i⟩

/-- `exec_scan`: no order is asked for, so a resumed page goes on ascending. -/
def execScan (conn : Connection) (table : Table) (op : Scan) : Action ExecResponse := do
  let (predicate, binds) ← .lift (scanPredicate table op.filter)
  runKeysetSelect conn
    { tableName := table.name
      projection := projectColumns table (scanSelect table op)
      predicate := predicate
      sortRef := sortRef table
      sortColumn := sortColumn table
      order := none
      limit := op.limit
      binds := binds
      select := scanSelect table op }

/-! ## By index -/

/-- `exec_find_pk_by_index`. -/
def execFindPkByIndex (conn : Connection) (table : Table) (op : FindPkByIndex) :
    Action ExecResponse := do
  let (predicate, binds) ← .lift (render table .empty op.filter)
  let value ← runQuery conn ⟨.select (projectColumns table table.primaryKeyColumns) none table.name
    [predicate] none, binds.values⟩
  let records ← .lift (rowsToRecords table.primaryKeyColumns (takeRows value))
  .done (.valueStream records)

end ToastySurreal
