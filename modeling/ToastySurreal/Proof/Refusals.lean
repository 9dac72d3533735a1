import ToastySurreal.Proof.Shape

/-!
# What errors tell

An error of the driver's own code says which check refused the operation. `Check` lists the
checks; what their messages are filled in with are names, counts, positions and types, which the
instances of one operation have in common. Of a value a message is meant to tell nothing but
where a JSON text has a syntax error. Nine arms quote what they refuse, though; `Quote` lists
them. `Explained` errors are of these three kinds, and part by part the driver's code makes no
others.
-/

namespace ToastySurreal

open Results Prog

/-! ## Checks -/

/-- The checks of the driver whose messages hold nothing of a value. -/
inductive Check where
  | keyTooLarge | emptyKey | jsonNotText
  | uuidText | uuidKey | nonFinite | decimalNotNumber | embeddedNone | nonJson
  | nonNumeric (ty : Ty)
  | textConversion (ty : Ty)
  | anyOperator (op : BinaryOp)
  | rowEntry (operation : String) (position : Nat)
  | returningProjection (operation : String)
  | returningRecord (operation : String)
  | returningItem (operation : String)
  | insertValues
  | keyCount (operation : String) (count : Nat)
  | conditionFailed (operation : String)
  | upsertDefault | upsertClause | upsertTarget | upsertKeyOnly | upsertValues | upsertOneRow
  | readOnly (operation : String)
  | otherStatement (name : String)
  | noInsert | rawSql
  | isolation
  | otherMode (debug : String)
  | activeTransaction | commitIdle | rollbackIdle | savepoints

/-- The error of a check that fails. -/
def Check.error [Sdk] : Check → Error
  | .keyTooLarge => .unsupportedFeature
      "SurrealDB record id integers are i64; u64 keys above i64::MAX are not supported"
  | .emptyKey => .invalidStatement "empty record key for single-column table"
  | .jsonNotText => .serializationFailure
      "SurrealDB native JSON columns require serialized JSON text or a database null"
  | .uuidText => .unsupportedFeature "expected UUID text from SurrealDB"
  | .uuidKey => .unsupportedFeature "expected UUID record id key"
  | .nonFinite => .serializationFailure "SurrealDB native JSON contained a non-finite number"
  | .decimalNotNumber => .serializationFailure
      "SurrealDB native JSON decimal did not produce a JSON number"
  | .embeddedNone => .serializationFailure "SurrealDB native JSON contained an embedded NONE value"
  | .nonJson => .serializationFailure "SurrealDB native JSON column contained a non-JSON value"
  | .nonNumeric ty => .unsupportedFeature
      ("SurrealDB returned a number for a non-numeric column type: " ++ Sdk.debugTy ty)
  | .textConversion ty => .unsupportedFeature
      ("SurrealDB text value does not convert to column type " ++ Sdk.debugTy ty)
  | .anyOperator op => .unsupportedFeature
      ("SurrealDB driver only supports `= ANY` list membership, got " ++ Sdk.debugOp op)
  | .rowEntry operation position => .invalidStatement
      ("SurrealDB " ++ operation ++ " row entry did not lower to a literal at position " ++
        toString position)
  | .returningProjection operation =>
      .invalidStatement (operation ++ " returning is not a projection")
  | .returningRecord operation => .invalidStatement (operation ++ " returning must be a record")
  | .returningItem operation =>
      .invalidStatement (operation ++ " returning item is not a column reference")
  | .insertValues => .invalidStatement "SurrealDB insert requires a VALUES source"
  | .keyCount operation count => .invalidStatement
      ("SurrealDB " ++ operation ++ " expects exactly one key, got " ++ toString count)
  | .conditionFailed operation =>
      .conditionFailed ("SurrealDB " ++ operation ++ " condition did not match")
  | .upsertDefault => .invalidStatement
      "SurrealDB shared upsert mutation requires a literal #[default] value"
  | .upsertClause => .invalidStatement "upsert operation without clause"
  | .upsertTarget => .invalidStatement "SurrealDB upsert target was not lowered to columns"
  | .upsertKeyOnly => .unsupportedFeature "SurrealDB upsert only supports targeting the primary key"
  | .upsertValues => .invalidStatement "SurrealDB upsert requires a VALUES source"
  | .upsertOneRow => .invalidStatement "SurrealDB upsert requires exactly one row"
  | .readOnly operation =>
      .readOnlyTransaction (operation ++ " is not allowed in a read-only transaction")
  | .otherStatement name => .unsupportedFeature
      ("SurrealDB driver only accepts insert statements via QuerySql, got: " ++ name)
  | .noInsert => .invalidStatement "Insert operation did not carry an insert statement"
  | .rawSql => .unsupportedFeature "SurrealDB driver does not support raw SQL"
  | .isolation => .unsupportedFeature
      "SurrealDB driver does not support explicit transaction isolation levels"
  | .otherMode debug => .unsupportedFeature
      ("SurrealDB driver does not support TransactionMode::" ++ debug)
  | .activeTransaction => .invalidStatement "SurrealDB connection already has an active transaction"
  | .commitIdle => .invalidStatement "cannot commit without an active SurrealDB transaction"
  | .rollbackIdle => .invalidStatement "cannot roll back without an active SurrealDB transaction"
  | .savepoints => .unsupportedFeature "SurrealDB SDK 3.2.4 does not support transaction savepoints"

/-- The values that no record id is made of. -/
def Value.keyless : Value → Bool
  | .i8 _ | .i16 _ | .i32 _ | .i64 _ | .u8 _ | .u16 _ | .u32 _ | .u64 _ | .string _ | .uuid _ =>
      false
  | _ => true

/-- The arms that quote what they refuse, or the text of an error of `serde_json`. -/
inductive Quote where
  | key (v : Value) (h : v.keyless = true)
  | literal (kind : TextKind) (code : Nat)
  | filter (debug : String)
  | assignment (debug : String)
  | sharedMutation (debug : String)
  | stored (code : Nat)
  | storedKey (code : Nat)
  | decimal (text : String)
  | json (text : String)

def Quote.error [Sdk] : Quote → Error
  | .key v _ =>
      .unsupportedFeature
        ("SurrealDB record id key cannot be built from value: " ++ Sdk.debugValue v)
  | .literal kind code => cannotEncode (.text kind code)
  | .filter debug => .unsupportedFeature
      ("SurrealDB driver cannot translate filter expression: " ++ debug)
  | .assignment debug => .unsupportedFeature
      ("SurrealDB driver does not support update assignment: " ++ debug)
  | .sharedMutation debug => .unsupportedFeature
      ("SurrealDB driver does not support shared upsert mutation: " ++ debug)
  | .stored code => .unsupportedFeature
      ("SurrealDB driver cannot decode value: " ++ Sdk.debugSurValue (.other code))
  | .storedKey code => .unsupportedFeature
      ("SurrealDB driver cannot decode record id key: " ++ Sdk.debugKey (.other code))
  | .decimal text => .serializationFailure
      ("SurrealDB native JSON decimal could not be serialized: " ++ text)
  | .json text => .serializationFailure
      ("failed to serialize a SurrealDB native JSON value: " ++ text)

/-- A JSON text that does not parse, by the place where it does not. -/
def jsonSyntaxError (line column : Nat) : Error := .serializationFailure
  ("invalid JSON for a SurrealDB native JSON column at line " ++ toString line ++
    ", column " ++ toString column)

/-! ## Shapes -/

/-- What the instances of an operation have in common: the table, how many keys there are, how
many columns a row has, which of its entries are literals, and the name of a statement or mode
that is refused. -/
structure Frame where
  table : Option Table
  keys : Nat
  columns : Nat
  rows : List (List Bool)
  label : String

/-- The rows of a source, without the literals. -/
def Insert.entries (insert : Insert) : List (List Bool) :=
  match insert.values with
  | some rows => rows.map fun row => row.map Option.isSome
  | none => []

def Operation.frame : Operation → Frame
  | .querySql (.ok (t, stmt)) _ => ⟨some t, 0, stmt.columns.length, stmt.entries, ""⟩
  | .insert (some (t, stmt)) _ => ⟨some t, 0, stmt.columns.length, stmt.entries, ""⟩
  | .querySql (.error name) _ => ⟨none, 0, 0, [], name⟩
  | .insert none _ => ⟨none, 0, 0, [], ""⟩
  | .getByKey t op => ⟨some t, op.keys.length, 0, [], ""⟩
  | .queryPk t _ => ⟨some t, 0, 0, [], ""⟩
  | .findPkByIndex t _ => ⟨some t, 0, 0, [], ""⟩
  | .scan t _ => ⟨some t, 0, 0, [], ""⟩
  | .updateByKey t op => ⟨some t, op.keys.length, 0, [], ""⟩
  | .deleteByKey t op => ⟨some t, op.keys.length, 0, [], ""⟩
  | .upsert t op => ⟨some t, 0, op.insert.columns.length, op.insert.entries, ""⟩
  | .rawSql => ⟨none, 0, 0, [], ""⟩
  | .transaction (.start _ _ (.other debug)) => ⟨none, 0, 0, [], debug⟩
  | .transaction _ => ⟨none, 0, 0, [], ""⟩

/-- The types that a value is decoded as where a column has the type `ty`. -/
inductive DecodedAs (ty : Ty) : Ty → Prop where
  | self : DecodedAs ty ty
  | elem {t : Ty} (h : DecodedAs ty t) : DecodedAs ty (elemTy t)
  | unknown : DecodedAs ty .unknown

/-- The names that messages call the operations. -/
def operationNames : List String :=
  ["insert", "update", "delete", "upsert", "Insert", "UpdateByKey", "DeleteByKey", "Upsert"]

/-- What a check of an operation of this shape can fill its message in with. -/
def Check.Of (frame : Frame) : Check → Prop
  | .nonNumeric ty | .textConversion ty =>
      ∃ t cid, frame.table = some t ∧ DecodedAs (t.column cid).ty ty
  | .rowEntry operation position =>
      operation ∈ operationNames ∧ position < frame.columns ∧
        ∃ row ∈ frame.rows, row[position]? ≠ some true
  | .keyCount operation count => operation ∈ operationNames ∧ count = frame.keys
  | .returningProjection operation | .returningRecord operation | .returningItem operation
  | .conditionFailed operation | .readOnly operation => operation ∈ operationNames
  | .otherStatement name | .otherMode name => name = frame.label
  | _ => True

/-- An error of the driver's own in an operation of this shape. -/
inductive Explained [Sdk] (frame : Frame) : Error → Prop where
  | check (c : Check) (h : c.Of frame) : Explained frame c.error
  | jsonSyntax (line column : Nat) : Explained frame (jsonSyntaxError line column)
  | quotes (q : Quote) : Explained frame q.error

variable [Sdk] {frame : Frame} {table : Table}

/-! ## Values -/

mutual

/-- A value that cannot be encoded is quoted. -/
theorem toSurreal_errs : ∀ v : Value, Errs (Explained frame) (toSurreal v)
  | .u64 v => by
      rw [toSurreal]
      split <;> exact .ok _
  | .list items => (toSurrealList_errs items).bind fun _ _ => .ok _
  | .record items => (toSurrealList_errs items).bind fun _ _ => .ok _
  | .object entries => (toSurrealEntries_errs entries []).bind fun _ _ => .ok _
  | .text kind code => by
      rw [toSurreal]
      split
      · exact .ok _
      · exact .error (.quotes (.literal kind code))
  | .null => .ok _
  | .bool _ | .i8 _ | .i16 _ | .i32 _ | .i64 _ | .u8 _ | .u16 _ | .u32 _ => .ok _
  | .f32 _ | .f64 _ | .string _ | .bytes _ | .uuid _ => .ok _

theorem toSurrealList_errs : ∀ vs : List Value, Errs (Explained frame) (toSurrealList vs)
  | [] => .ok _
  | v :: vs => (toSurreal_errs v).bind fun _ _ => (toSurrealList_errs vs).bind fun _ _ => .ok _

theorem toSurrealEntries_errs : ∀ (entries : List (String × Value)) (out : Object),
    Errs (Explained frame) (toSurrealEntries entries out)
  | [], _ => .ok _
  | (name, v) :: entries, out => by
      rw [toSurrealEntries]
      split
      · exact toSurrealEntries_errs entries out
      · exact (toSurreal_errs v).bind fun _ _ => toSurrealEntries_errs entries _

end

theorem jsonTextToSurreal_errs (v : Value) : Errs (Explained frame) (jsonTextToSurreal v) := by
  unfold jsonTextToSurreal
  split
  · exact .ok _
  · split
    · exact .ok _
    · exact .error (.jsonSyntax _ _)
  · exact .error (.check .jsonNotText trivial)

theorem toSurrealWithStorage_errs (v : Value) (storageTy : Option DbType) :
    Errs (Explained frame) (toSurrealWithStorage v storageTy) := by
  rw [toSurrealWithStorage]
  split
  · exact jsonTextToSurreal_errs v
  · exact toSurreal_errs v

theorem toSurrealForColumn_errs (v : Value) (c : Column) :
    Errs (Explained frame) (toSurrealForColumn v c) :=
  toSurrealWithStorage_errs v _

theorem scalarToKey_errs (v : Value) : Errs (Explained frame) (scalarToKey v) := by
  cases v with
  | u64 v =>
      rw [scalarToKey]
      split
      · exact .ok _
      · exact .error (.check .keyTooLarge trivial)
  | i8 v | i16 v | i32 v | i64 v | u8 v | u16 v | u32 v | string v | uuid v => exact .ok _
  | _ => exact .error (.quotes (.key _ rfl))

theorem recordIdKey_errs (key : Value) (arity : Nat) :
    Errs (Explained frame) (recordIdKey key arity) := by
  unfold recordIdKey
  split
  · split
    · split
      · exact .error (.check .emptyKey trivial)
      · exact scalarToKey_errs _
    · exact (toSurrealList_errs _).bind fun _ _ => .ok _
  · exact scalarToKey_errs _

theorem recordId_errs (table : Table) (key : Value) : Errs (Explained frame) (recordId table key) :=
  (recordIdKey_errs key _).bind fun _ _ => .ok _

/-! ## Expressions -/

theorem bindItems_errs {storageTy : Option DbType} : ∀ (items : List Value) (b : Binds),
    Errs (Explained frame) (bindItems b storageTy items)
  | [], _ => .ok _
  | item :: items, _ => (toSurrealWithStorage_errs item storageTy).bind fun _ _ =>
      (bindItems_errs items _).bind fun _ _ => .ok _

theorem valueToBinds_errs (b : Binds) (v : Value) (storageTy : Option DbType) :
    Errs (Explained frame) (valueToBinds b v storageTy) := by
  unfold valueToBinds
  split
  · exact (bindItems_errs _ b).bind fun _ _ => .ok _
  · exact (toSurrealWithStorage_errs _ storageTy).bind fun _ _ => .ok _

mutual

theorem renderWithStorage_errs : ∀ (e : Expr) (b : Binds) (storageTy : Option DbType),
    Errs (Explained frame) (renderWithStorage table b e storageTy)
  | .binaryOp _ l r, b, st | .isSuperset l r, b, st | .intersects l r, b, st | .inList l r, b, st
  | .startsWith l r, b, st => by
      rw [renderWithStorage]
      refine (renderWithStorage_errs l b _).bind fun _ _ => ?_
      exact (renderWithStorage_errs r _ _).bind fun _ _ => .ok _
  | .and es, b, st | .or es, b, st => by
      rw [renderWithStorage]
      exact (renderOperands_errs es b).bind fun _ _ => .ok _
  | .not e, b, st | .length e, b, st => by
      rw [renderWithStorage]
      exact (renderWithStorage_errs e b none).bind fun _ _ => .ok _
  | .isNull e, b, st => by
      cases e with
      | reference column => exact .ok _
      | jsonExtract base path => exact .ok _
      | _ => exact (renderWithStorage_errs _ b none).bind fun _ _ => .ok _
  | .between e lo hi, b, st => by
      rw [renderWithStorage]
      refine (renderWithStorage_errs e b none).bind fun _ _ => ?_
      refine (renderWithStorage_errs lo _ _).bind fun _ _ => ?_
      exact (renderWithStorage_errs hi _ _).bind fun _ _ => .ok _
  | .anyOp op l r, b, st => by
      rw [renderWithStorage]
      -- any other operator is refused before either side is rendered
      split
      · exact .error (.check (.anyOperator op) trivial)
      · refine (renderWithStorage_errs l b _).bind fun _ _ => ?_
        exact (renderWithStorage_errs r _ none).bind fun _ _ => .ok _
  | .jsonExtract base path, b, st => .ok _
  | .reference column, b, st => by
      rw [renderWithStorage]
      split <;> exact .ok _
  | .value v, b, st => valueToBinds_errs b v st
  | .list es, b, st => by
      rw [renderWithStorage]
      exact (renderItems_errs es b st).bind fun _ _ => .ok _
  | .other debug, b, st => .error (.quotes (.filter debug))

theorem renderOperands_errs : ∀ (es : List Expr) (b : Binds),
    Errs (Explained frame) (renderOperands table b es)
  | [], _ => .ok _
  | e :: es, b => by
      rw [renderOperands]
      refine (renderWithStorage_errs e b none).bind fun _ _ => ?_
      exact (renderOperands_errs es _).bind fun _ _ => .ok _

theorem renderItems_errs : ∀ (es : List Expr) (b : Binds) (storageTy : Option DbType),
    Errs (Explained frame) (renderItems table b es storageTy)
  | [], _, _ => .ok _
  | e :: es, b, st => by
      rw [renderItems]
      refine (renderWithStorage_errs e b st).bind fun _ _ => ?_
      exact (renderItems_errs es _ st).bind fun _ _ => .ok _

end

theorem renderPredicates_errs : ∀ (exprs : List (Option Expr)) (b : Binds),
    Errs (Explained frame) (renderPredicates table b exprs)
  | [], _ => .ok _
  | none :: rest, b => by
      rw [renderPredicates]
      exact renderPredicates_errs rest b
  | some e :: rest, b => by
      rw [renderPredicates]
      refine (renderWithStorage_errs e b none).bind fun _ _ => ?_
      exact (renderPredicates_errs rest _).bind fun _ _ => .ok _

/-! ## Assignments -/

/-- A list that is appended, or a single value. -/
theorem appended_errs (v : Value) (c : Column) : Errs (Explained frame) (appended v c) := by
  unfold appended
  split <;> exact toSurrealForColumn_errs _ c

theorem renderAssignment_errs (c : Column) (b : Binds) (a : Assignment) :
    Errs (Explained frame) (renderAssignment c b a) := by
  cases a with
  | set v =>
      rw [renderAssignment]
      split
      · exact .ok _
      · exact (toSurrealForColumn_errs v c).bind fun _ _ => .ok _
  | add v | subtract v => exact (toSurrealForColumn_errs v c).bind fun _ _ => .ok _
  | append v => exact (appended_errs v c).bind fun _ _ => .ok _
  | other debug => exact .error (.quotes (.assignment debug))

theorem renderAssignments_errs : ∀ (as : List (ColumnId × Assignment)) (b : Binds),
    Errs (Explained frame) (renderAssignments table b as)
  | [], _ => .ok _
  | (cid, a) :: as, b => by
      rw [renderAssignments]
      refine (renderAssignment_errs (table.column cid) b a).bind fun _ _ => ?_
      exact (renderAssignments_errs as _).bind fun _ _ => .ok _

theorem defaultParam_errs (c : Column) (b : Binds) (d : Option Assignment) :
    Errs (Explained frame) (defaultParam c b d) := by
  unfold defaultParam
  split
  · exact (toSurrealForColumn_errs _ c).bind fun _ _ => .ok _
  · exact .error (.check .upsertDefault trivial)

theorem renderSharedMutation_errs (c : Column) (d : Option Assignment) (b : Binds)
    (a : Assignment) : Errs (Explained frame) (renderSharedMutation c d b a) := by
  cases a with
  | set v =>
      rw [renderSharedMutation]
      split
      · exact .ok _
      · exact (toSurrealForColumn_errs v c).bind fun _ _ => .ok _
  | add v | subtract v =>
      refine (defaultParam_errs c b d).bind fun _ _ => ?_
      exact (toSurrealForColumn_errs v c).bind fun _ _ => .ok _
  | append v =>
      refine (defaultParam_errs c b d).bind fun _ _ => ?_
      exact (appended_errs v c).bind fun _ _ => .ok _
  | other debug => exact .error (.quotes (.sharedMutation debug))

theorem sharedSets_errs {clause : UpsertClause} : ∀ (as : List (ColumnId × Assignment)) (b : Binds),
    Errs (Explained frame) (sharedSets table clause b as)
  | [], _ => .ok _
  | (cid, a) :: as, b => by
      rw [sharedSets]
      refine (renderSharedMutation_errs _ _ b a).bind fun _ _ => ?_
      exact (sharedSets_errs as _).bind fun _ _ => .ok _

/-! ## Rows of a source -/

theorem rowValue_errs {op : String} {row : Row} {position : Nat} (hop : op ∈ operationNames)
    (hpos : position < frame.columns) (hrow : row.map Option.isSome ∈ frame.rows) :
    Errs (Explained frame) (rowValue op row position) := by
  unfold rowValue
  split
  · exact .ok _
  · rename_i hentry
    -- what was found is no literal, and the frame knows which entries are
    refine .error (.check (.rowEntry op position) ⟨hop, hpos, _, hrow, fun hsome => ?_⟩)
    rw [List.getElem?_map] at hsome
    obtain ⟨entry, hget, hentry'⟩ := Option.map_eq_some_iff.mp hsome
    obtain ⟨v, rfl⟩ := Option.isSome_iff_exists.mp hentry'
    exact hentry v hget

theorem splitRow_errs {op : String} {row : Row} (hop : op ∈ operationNames)
    (hrow : row.map Option.isSome ∈ frame.rows) : ∀ (columns : List ColumnId) (position : Nat)
    (content : Object) (pk : List (Nat × Value)), position + columns.length ≤ frame.columns →
    Errs (Explained frame) (splitRow op table row columns position content pk)
  | [], _, _, _, _ => .ok _
  | cid :: columns, position, content, pk, hlen => by
      rw [List.length_cons] at hlen
      -- a position counts the columns before it
      have hrest : position + 1 + columns.length ≤ frame.columns := by omega
      rw [splitRow]
      refine (rowValue_errs hop (by omega) hrow).bind fun v _ => ?_
      split
      · exact splitRow_errs hop hrow columns _ content _ hrest
      · split
        · exact splitRow_errs hop hrow columns _ content pk hrest
        · exact (toSurrealForColumn_errs v _).bind fun _ _ =>
            splitRow_errs hop hrow columns _ _ pk hrest

theorem buildRow_errs {op : String} {row : Row} {columns : List ColumnId}
    (hop : op ∈ operationNames) (hcolumns : columns.length = frame.columns)
    (hrow : row.map Option.isSome ∈ frame.rows) :
    Errs (Explained frame) (buildRow op table columns row) := by
  refine (splitRow_errs hop hrow columns 0 [] [] (by omega)).bind fun split _ => ?_
  exact (recordId_errs table _).bind fun _ _ => .ok _

theorem createOnlySets_errs {clause : UpsertClause} {row : Row}
    (hrow : row.map Option.isSome ∈ frame.rows) :
    ∀ (columns : List ColumnId) (position : Nat) (b : Binds), position + columns.length ≤
    frame.columns → Errs (Explained frame) (createOnlySets table clause row columns position b)
  | [], _, _, _ => .ok _
  | cid :: columns, position, b, hlen => by
      rw [List.length_cons] at hlen
      have hrest : position + 1 + columns.length ≤ frame.columns := by omega
      rw [createOnlySets]
      dsimp only
      split
      · exact createOnlySets_errs hrow columns _ b hrest
      · refine (rowValue_errs (by decide) (by omega) hrow).bind fun v _ => ?_
        split
        · exact createOnlySets_errs hrow columns _ b hrest
        · refine (toSurrealForColumn_errs v _).bind fun _ _ => ?_
          exact (createOnlySets_errs hrow columns _ _ hrest).bind fun _ _ => .ok _

/-- The columns that an operation returns. -/
theorem returningColumns_errs {op : String} (hop : op ∈ operationNames)
    (returning : Option Returning) :
    Errs (Explained frame) (returningColumns op table returning) := by
  have hitems : ∀ items : List (Option ColumnId),
      Errs (Explained frame) (returningColumns.columns op table items) := by
    intro items
    induction items with
    | nil => exact .ok _
    | cons item items ih =>
        cases item with
        | none => exact .error (.check (.returningItem op) hop)
        | some cid => exact ih.bind fun _ _ => .ok _
  unfold returningColumns
  split
  · exact .ok _
  · exact .error (.check (.returningProjection op) hop)
  · exact .error (.check (.returningRecord op) hop)
  · exact (hitems _).bind fun _ _ => .ok _

/-! ## Stored values -/

/-- The types that values of the table's columns are decoded as. -/
def TypedBy (frame : Frame) (ty : Ty) : Prop :=
  ∃ t cid, frame.table = some t ∧ DecodedAs (t.column cid).ty ty

omit [Sdk] in
theorem TypedBy.elem {ty : Ty} (h : TypedBy frame ty) : TypedBy frame (elemTy ty) := by
  obtain ⟨t, cid, ht, hty⟩ := h
  exact ⟨t, cid, ht, hty.elem⟩

omit [Sdk] in
theorem TypedBy.unknown {ty : Ty} (h : TypedBy frame ty) : TypedBy frame .unknown := by
  obtain ⟨t, cid, ht, _⟩ := h
  exact ⟨t, cid, ht, .unknown⟩

theorem numberToStmt_errs {ty : Ty} (h : TypedBy frame ty) (n : Number) :
    Errs (Explained frame) (numberToStmt n ty) := by
  cases ty with
  | unknown =>
      rw [numberToStmt]
      split <;> exact .ok _
  | bool | i8 | i16 | i32 | i64 | u8 | u16 | u32 | u64 | f32 | f64 => exact .ok _
  | _ => exact .error (.check (.nonNumeric _) h)

theorem textToStmt_errs {ty : Ty} (h : TypedBy frame ty) (s : String) :
    Errs (Explained frame) (textToStmt s ty) := by
  unfold textToStmt
  split
  · exact .ok _
  · exact .ok _
  · split
    · exact .ok _
    · exact .error (.check .uuidText trivial)
  · split
    · exact .ok _
    · exact .error (.check (.textConversion _) h)

mutual

/-- Decoding tells a type, or quotes what SurrealDB has and Toasty has not. -/
theorem fromSurreal_errs : ∀ (v : SurValue) {ty : Ty}, TypedBy frame ty →
    Errs (Explained frame) (fromSurreal v ty)
  | .none, _, _ | .null, _, _ | .bool _, _, _ | .uuid _, _, _ | .bytes _, _, _ => .ok _
  | .number n, _, h => numberToStmt_errs h n
  | .string s, _, h => textToStmt_errs h s
  | .recordId _ key, _, h => recordIdKeyToStmt_errs key h
  | .array items, _, h => (fromSurrealList_errs items h.elem).bind fun _ _ => .ok _
  | .object fields, _, h => (fromSurrealFields_errs fields h).bind fun _ _ => .ok _
  | .other code, _, _ => .error (.quotes (.stored code))

theorem fromSurrealList_errs : ∀ (vs : List SurValue) {ty : Ty}, TypedBy frame ty →
    Errs (Explained frame) (fromSurrealList vs ty)
  | [], _, _ => .ok _
  | v :: vs, _, h =>
      (fromSurreal_errs v h).bind fun _ _ => (fromSurrealList_errs vs h).bind fun _ _ => .ok _

theorem fromSurrealFields_errs : ∀ (fields : List (String × SurValue)) {ty : Ty}, TypedBy frame ty →
    Errs (Explained frame) (fromSurrealFields fields)
  | [], _, _ => .ok _
  | (_, v) :: fields, _, h => (fromSurreal_errs v h.unknown).bind fun _ _ =>
      (fromSurrealFields_errs fields h).bind fun _ _ => .ok _

theorem recordIdKeyToStmt_errs : ∀ (key : RecordIdKey) {ty : Ty}, TypedBy frame ty →
    Errs (Explained frame) (recordIdKeyToStmt key ty)
  | .number i, _, h => numberToStmt_errs h (.int i)
  | .string s, ty, _ => by
      cases ty with
      | uuid =>
          rw [recordIdKeyToStmt]
          split
          · exact .ok _
          · exact .error (.check .uuidKey trivial)
      | _ => exact .ok _
  | .uuid _, _, _ => .ok _
  | .array items, _, h => (fromSurrealList_errs items h.unknown).bind fun _ _ => .ok _
  | .other code, _, _ => .error (.quotes (.storedKey code))

end

mutual

theorem surrealToJsonValue_errs : ∀ v : SurValue, Errs (Explained frame) (surrealToJsonValue v)
  | .null | .bool _ | .string _ => .ok _
  | .number (.int v) => .ok _
  | .number (.float v) => by
      by_cases hv : Sdk.finite v = true
      · rw [surrealToJsonValue_float hv]
        exact .ok _
      · rw [surrealToJsonValue_nonfinite hv]
        exact .error (.check .nonFinite trivial)
  | .number (.decimal v) => by
      intro e h
      rcases surrealToJsonValue_decimal_error h with rfl | ⟨text, rfl⟩
      · exact .check .decimalNotNumber trivial
      · exact .quotes (.decimal text)
  | .array items => by
      rw [surrealToJsonValue_array]
      exact (surrealToJsonItems_errs items).bind fun _ _ => .ok _
  | .object fields => by
      rw [surrealToJsonValue_object]
      exact (surrealToJsonMembers_errs fields).bind fun _ _ => .ok _
  | .none => .error (.check .embeddedNone trivial)
  | .uuid _ | .bytes _ | .recordId _ _ | .other _ => .error (.check .nonJson trivial)

theorem surrealToJsonItems_errs : ∀ vs :
    List SurValue, Errs (Explained frame) (surrealToJsonItems vs)
  | [] => .ok _
  | v :: vs =>
      (surrealToJsonValue_errs v).bind fun _ _ => (surrealToJsonItems_errs vs).bind fun _ _ => .ok _

theorem surrealToJsonMembers_errs : ∀ fields : List (String × SurValue),
    Errs (Explained frame) (surrealToJsonMembers fields)
  | [] => .ok _
  | (_, v) :: fields => (surrealToJsonValue_errs v).bind fun _ _ =>
      (surrealToJsonMembers_errs fields).bind fun _ _ => .ok _

end

theorem surrealJsonToText_errs (v : SurValue) : Errs (Explained frame) (surrealJsonToText v) := by
  unfold surrealJsonToText
  split
  · exact .ok _
  · refine (surrealToJsonValue_errs _).bind fun json _ => ?_
    split
    · exact .ok _
    · exact .error (.quotes (.json _))

theorem rowToRecord_errs (row : SurValue) :
    ∀ {select : List Column}, (∀ c ∈ select, TypedBy frame c.ty) →
    Errs (Explained frame) (rowToRecord row select)
  | [], _ => .ok _
  | c :: select, h => by
      unfold rowToRecord
      refine Errs.bind ?_ fun _ _ => ?_
      · rw [fromSurrealForColumn, fromSurrealWithStorage]
        split
        · exact surrealJsonToText_errs _
        · exact fromSurreal_errs _ (h c List.mem_cons_self)
      · exact (rowToRecord_errs row fun d hd => h d (List.mem_cons_of_mem c hd)).bind
          fun _ _ => .ok _

theorem rowsToRecords_errs {select : List Column} (h : ∀ c ∈ select, TypedBy frame c.ty) :
    ∀ rows : List SurValue, Errs (Explained frame) (rowsToRecords select rows)
  | [] => .ok _
  | row :: rows =>
      (rowToRecord_errs row h).bind fun _ _ => (rowsToRecords_errs h rows).bind fun _ _ => .ok _

end ToastySurreal
