import ToastySurreal.Query
import ToastySurreal.Lib.Prog

/-!
# The connection and its handle on the database

A connection sends queries through its plain handle or, while a transaction is
active, through the transaction's. What it asks of the SDK are `Call`s; everything
it does is a program over them.
-/

namespace ToastySurreal

/-- `surrealdb::Error`: its `Display` text and whether it or a cause is a transaction
conflict. -/
structure DbError where
  message : String
  conflict : Bool
  deriving DecidableEq, Repr

/-- What the driver asks of the SDK. -/
inductive Call where
  /-- A query through the plain handle, checked for errors of the statement. -/
  | plain (q : Query)
  /-- A query through a transaction's handle. -/
  | tx (q : Query)
  | begin
  | commit
  | cancel

/-- The value of the statement, or the error. -/
abbrev Reply := Except DbError SurValue

abbrev Action := Prog Call Reply Error

/-- `Connection`; `transaction` says whether one is active. -/
structure Connection where
  transaction : Bool
  readOnly : Bool
  deriving DecidableEq, Repr

/-- `Connection::new`. -/
def Connection.new : Connection := ⟨false, false⟩

/-! ## Errors -/

/-- `str::contains`. -/
def containsText (text part : String) : Bool := decide (part.toList <:+: text.toList)

/-- `classify_error`. -/
def classifyError (err : DbError) : Error :=
  if err.conflict || containsText err.message "Transaction conflict:" then
    .serializationFailure err.message
  else if containsText err.message "already exists" then .conditionFailed err.message
  else .driverOperationFailed err.message

/-- `classify_migration_error`. -/
def classifyMigrationError (err : DbError) : Error :=
  if err.conflict || containsText err.message "Transaction conflict:" then
    .serializationFailure "SurrealDB migration transaction conflicted"
  else if containsText err.message "manual migration required:" then
    .unsupportedFeature "SurrealDB migration requires manual editing before it can be applied"
  else if containsText err.message "already exists" then
    .conditionFailed "SurrealDB migration object already exists"
  else .driverOperationFailed "SurrealDB migration statement failed"

/-! ## Queries -/

/-- A call whose error is classified. -/
def callWith (classify : DbError → Error) (call : Call) : Action SurValue :=
  .ask call fun
    | .ok value => .done value
    | .error err => .fail (classify err)

/-- `run_query`: through the active transaction when there is one. -/
def runQuery (conn : Connection) (q : Query) : Action SurValue :=
  callWith classifyError (if conn.transaction then .tx q else .plain q)

/-- `take_rows`. -/
def takeRows : SurValue → List SurValue
  | .array items => items
  | .none | .null => []
  | other => [other]

/-! ## Responses -/

/-- `Rows`. -/
inductive Rows where
  | count (n : Nat)
  | stream (records : List Value)

/-- `ExecResponse`. -/
structure ExecResponse where
  values : Rows
  nextCursor : Option Value

def ExecResponse.count (n : Nat) : ExecResponse := ⟨.count n, none⟩

def ExecResponse.valueStream (records : List Value) : ExecResponse := ⟨.stream records, none⟩

variable [Sdk]

/-- `row_to_record`: a missing field decodes to null. -/
def rowToRecord (row : SurValue) : List Column → Except Error (List Value)
  | [] => .ok []
  | column :: columns => do
      let value ← fromSurrealForColumn (match row with
        | .object o => Object.field o column.name
        | _ => .none) column
      let rest ← rowToRecord row columns
      .ok (value :: rest)

/-- Decode every row of a response. -/
def rowsToRecords (select : List Column) : List SurValue → Except Error (List Value)
  | [] => .ok []
  | row :: rows => do
      let fields ← rowToRecord row select
      let rest ← rowsToRecords select rows
      .ok (.record fields :: rest)

end ToastySurreal
