import ToastySurreal.Value

/-!
# Primary keys as record ids

The model of `record_id.rs`. Toasty knows a row by its key columns, SurrealDB by a
record id: a key of one column becomes a scalar id, a key of several an array in
key order.
-/

namespace ToastySurreal

variable [Sdk]

/-- `scalar_to_key`. -/
def scalarToKey (value : Value) : Except Error RecordIdKey :=
  match value with
  | .i8 v => .ok (.number v.toInt64)
  | .i16 v => .ok (.number v.toInt64)
  | .i32 v => .ok (.number v.toInt64)
  | .i64 v => .ok (.number v)
  | .u8 v => .ok (.number v.toUInt64.toInt64)
  | .u16 v => .ok (.number v.toUInt64.toInt64)
  | .u32 v => .ok (.number v.toUInt64.toInt64)
  | .u64 v =>
      if v.toNat < 2 ^ 63 then .ok (.number v.toInt64)
      else .error (.unsupportedFeature
        "SurrealDB record id integers are i64; u64 keys above i64::MAX are not supported")
  | .string v => .ok (.string v)
  | .uuid v => .ok (.uuid v)
  | other => .error (.unsupportedFeature
      ("SurrealDB record id key cannot be built from value: " ++ Sdk.debugValue other))

/-- `record_id_key`: the arity of the key decides its shape, since the engine wraps a
single key in a record on some paths. -/
def recordIdKey (key : Value) (arity : Nat) : Except Error RecordIdKey :=
  match key with
  | .record fields =>
      if arity ≤ 1 then
        match fields with
        | [] => .error (.invalidStatement "empty record key for single-column table")
        | field :: _ => scalarToKey field
      else do .ok (.array (← toSurrealList fields))
  | other => scalarToKey other

/-- `record_id`. -/
def recordId (table : Table) (key : Value) : Except Error RecordId := do
  .ok ⟨table.name, ← recordIdKey key table.primaryKey.length⟩

end ToastySurreal
