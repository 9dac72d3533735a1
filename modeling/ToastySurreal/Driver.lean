import ToastySurreal.Op.Read
import ToastySurreal.Op.Write

/-!
# The driver's entry points

The model of the `Connection` trait's implementation in `conn.rs`: the dispatch of
operations with its read-only guard, explicit transactions, the schema push, and
the tracking of applied migrations.
-/

namespace ToastySurreal

/-! ## Operations -/

/-- `operation::TransactionMode`. -/
inductive TransactionMode where
  | default
  /-- Any other mode, with its `Debug` text. -/
  | other (debug : String)
  deriving DecidableEq, Repr

/-- `operation::Transaction`; `isolation` says whether a level is asked for. -/
inductive Transaction where
  | start (isolation readOnly : Bool) (mode : TransactionMode)
  | commit
  | rollback
  | savepoint
  | releaseSavepoint
  | rollbackToSavepoint

/-- `Operation`, each with the table it names. -/
inductive Operation where
  /-- A statement other than an insert goes by its name. -/
  | querySql (stmt : Except String (Table × Insert)) (ret : Bool)
  | insert (stmt : Option (Table × Insert)) (ret : Bool)
  | getByKey (table : Table) (op : GetByKey)
  | queryPk (table : Table) (op : QueryPk)
  | findPkByIndex (table : Table) (op : FindPkByIndex)
  | scan (table : Table) (op : Scan)
  | updateByKey (table : Table) (op : UpdateByKey)
  | deleteByKey (table : Table) (op : DeleteByKey)
  | upsert (table : Table) (op : Upsert)
  | rawSql
  | transaction (op : Transaction)

/-- What a method on a mutable connection leaves: the connection and the result. -/
abbrev Outcome (α : Type) := Connection × Except Error α

/-- A method that does not touch the connection. -/
def Connection.keep {α : Type} (conn : Connection) (p : Action α) : Action (Outcome α) := do
  let result ← p.attempt
  .done (conn, result)

/-- `ensure_writable`. -/
def ensureWritable (conn : Connection) (operation : String) : Except Error Unit :=
  if conn.readOnly then
    .error (.readOnlyTransaction (operation ++ " is not allowed in a read-only transaction"))
  else .ok ()

/-- `ensure_no_active_transaction`. -/
def ensureNoActiveTransaction (conn : Connection) (operation : String) : Except Error Unit :=
  if conn.transaction then
    .error (.invalidStatement
      ("cannot " ++ operation ++ " while a SurrealDB transaction is active"))
  else .ok ()

/-- The end of a transaction: the handle is gone whatever comes back. -/
def finishTransaction (call : Call) : Action (Outcome ExecResponse) := do
  let result ← (callWith classifyError call).attempt
  .done (⟨false, false⟩, result.map fun _ => .count 0)

/-- `exec_transaction`. -/
def execTransaction (conn : Connection) : Transaction → Action (Outcome ExecResponse)
  | .start isolation readOnly mode =>
      if isolation then
        .done (conn, .error (.unsupportedFeature
          "SurrealDB driver does not support explicit transaction isolation levels"))
      else
        match mode with
        | .other debug => .done (conn, .error (.unsupportedFeature
            ("SurrealDB driver does not support TransactionMode::" ++ debug)))
        | .default =>
            if conn.transaction then
              .done (conn, .error (.invalidStatement
                "SurrealDB connection already has an active transaction"))
            else do
              let result ← (callWith classifyError .begin).attempt
              match result with
              | .ok _ => .done (⟨true, readOnly⟩, .ok (.count 0))
              | .error err => .done (conn, .error err)
  | .commit =>
      if conn.transaction then finishTransaction .commit
      else .done (conn, .error (.invalidStatement
        "cannot commit without an active SurrealDB transaction"))
  | .rollback =>
      if conn.transaction then finishTransaction .cancel
      else .done (conn, .error (.invalidStatement
        "cannot roll back without an active SurrealDB transaction"))
  | .savepoint | .releaseSavepoint | .rollbackToSavepoint =>
      .done (conn, .error (.unsupportedFeature
        "SurrealDB SDK 3.2.4 does not support transaction savepoints"))

variable [Sdk]

/-- A write, behind the read-only guard. -/
def guarded {α : Type} (conn : Connection) (operation : String) (p : Action α) : Action α := do
  .lift (ensureWritable conn operation)
  p

/-- `Connection::exec`. -/
def exec (conn : Connection) : Operation → Action (Outcome ExecResponse)
  | .querySql (.ok (table, stmt)) ret =>
      conn.keep (guarded conn "Insert" (execInsert conn table stmt ret))
  | .querySql (.error name) _ => conn.keep (.fail (.unsupportedFeature
      ("SurrealDB driver only accepts insert statements via QuerySql, got: " ++ name)))
  | .insert stmt ret => conn.keep (guarded conn "Insert" (match stmt with
      | some (table, stmt) => execInsert conn table stmt ret
      | none => .fail (.invalidStatement "Insert operation did not carry an insert statement")))
  | .getByKey table op => conn.keep (execGetByKey conn table op)
  | .queryPk table op => conn.keep (execQueryPk conn table op)
  | .findPkByIndex table op => conn.keep (execFindPkByIndex conn table op)
  | .scan table op => conn.keep (execScan conn table op)
  | .updateByKey table op => conn.keep (guarded conn "UpdateByKey" (execUpdateByKey conn table op))
  | .deleteByKey table op => conn.keep (guarded conn "DeleteByKey" (execDeleteByKey conn table op))
  | .upsert table op => conn.keep (guarded conn "Upsert" (execUpsert conn table op))
  | .rawSql => conn.keep (.fail (.unsupportedFeature "SurrealDB driver does not support raw SQL"))
  | .transaction op => execTransaction conn op

/-! ## The schema -/

omit [Sdk]

/-- A statement through the plain handle, transaction or not. -/
def queryPlain (sql : Sql) : Action Unit := do
  let _ ← callWith classifyError (.plain ⟨sql, []⟩)
  .done ()

/-- `define_table`. -/
def defineTable (table : Table) : Action Unit :=
  go (defineTableStatements table true)
where
  go : List Statement → Action Unit
    | [] => .done ()
    | statement :: statements => do
        queryPlain (.schema statement)
        go statements

/-- `push_schema`. -/
def pushTables : List Table → Action Unit
  | [] => .done ()
  | table :: tables => do
      defineTable table
      pushTables tables

def pushSchema (conn : Connection) (tables : List Table) : Action (Outcome Unit) :=
  conn.keep (pushTables tables)

/-! ## Migrations -/

/-- `char::is_whitespace`: the code points with Unicode's `White_Space`. -/
def isWhitespace (c : Char) : Bool :=
  let n := c.toNat
  (9 ≤ n && n ≤ 13) || n == 0x20 || n == 0x85 || n == 0xa0 || n == 0x1680 ||
    (0x2000 ≤ n && n ≤ 0x200a) || n == 0x2028 || n == 0x2029 || n == 0x202f || n == 0x205f ||
    n == 0x3000

/-- `statement.trim().is_empty()`. -/
def isBlank (statement : String) : Bool := statement.toList.all isWhitespace

/-- `str::parse::<u64>`: decimal digits, after a plus sign or not. -/
def parseU64 (s : String) : Option UInt64 :=
  match s.toList with
  | '+' :: cs => digits cs
  | cs => digits cs
where
  digits (cs : List Char) : Option UInt64 :=
    if cs.isEmpty || !cs.all Char.isDigit then none
    else if Nat.ofDigitChars 10 cs 0 < 2 ^ 64 then some (.ofNat (Nat.ofDigitChars 10 cs 0))
    else none

/-- `ensure_migrations_table`. -/
def ensureMigrationsTable : Action Unit := queryPlain (.schema (.defineTable trackingTable true))

/-- `invalid_migration_tracking_row`. -/
def invalidMigrationTrackingRow : Error :=
  .serializationFailure "SurrealDB migration tracking table contains an invalid migration ID"

/-- The id of a tracking row. -/
def trackingId (row : SurValue) : Except Error UInt64 :=
  match row with
  | .object o =>
      match AssocMap.lookup trackingIdAlias o with
      | some (.string id) =>
          match parseU64 id with
          | some id => .ok id
          | none => .error invalidMigrationTrackingRow
      | _ => .error invalidMigrationTrackingRow
  | _ => .error invalidMigrationTrackingRow

def trackingIds : List SurValue → Except Error (List UInt64)
  | [] => .ok []
  | row :: rows => do
      let id ← trackingId row
      let ids ← trackingIds rows
      .ok (id :: ids)

/-- The `SELECT` of `applied_migrations`. -/
def trackingQuery : Query := ⟨.select [.key .key trackingIdAlias] none trackingTable [] none, []⟩

/-- `applied_migrations`. -/
def appliedMigrations (conn : Connection) : Action (List UInt64) := do
  .lift (ensureNoActiveTransaction conn "query applied migrations")
  ensureMigrationsTable
  let value ← callWith classifyError (.plain trackingQuery)
  .lift (trackingIds (takeRows value))

/-- The tracking record of a migration. -/
def trackingRecord (id : UInt64) : RecordId := ⟨trackingTable, .string (toString id.toNat)⟩

/-- The `CREATE` of the tracking record. -/
def trackQuery (id : UInt64) (name : String) : Query :=
  ⟨.createMigration,
    [("migration_record", (trackingRecord id).value), ("migration_name", .string name)]⟩

/-- A statement of a migration. -/
def scriptQuery (statement : String) : Query := ⟨.script statement, []⟩

/-- What a migration runs inside its transaction: the statements that are not blank,
then the tracking record. -/
def applyStatements (track : Query) : List String → Action Unit
  | [] => do
      let _ ← callWith classifyMigrationError (.tx track)
      .done ()
  | statement :: statements =>
      if isBlank statement then applyStatements track statements
      else do
        let _ ← callWith classifyMigrationError (.tx (scriptQuery statement))
        applyStatements track statements

/-- `apply_migration`. -/
def applyMigration (conn : Connection) (id : UInt64) (name : String) (statements : List String) :
    Action Unit := do
  .lift (ensureNoActiveTransaction conn "apply a migration")
  ensureMigrationsTable
  let _ ← callWith classifyMigrationError .begin
  let result ← (applyStatements (trackQuery id name) statements).attempt
  match result with
  | .error applyError => do
      let _ ← callWith classifyMigrationError .cancel
      .fail applyError
  | .ok _ => do
      let _ ← callWith classifyMigrationError .commit
      .done ()

end ToastySurreal
