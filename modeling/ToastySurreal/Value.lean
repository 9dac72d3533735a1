import ToastySurreal.Types

/-!
# The value codec

The model of `value.rs`. Encoding and decoding go straight between the two value
types; a native-JSON column (`db::Type::Json`) is the exception, whose values
cross the driver's boundary as JSON text.
-/

namespace ToastySurreal

variable [Sdk]

/-! ## Encoding -/

def cannotEncode (v : Value) : Error :=
  .unsupportedFeature ("SurrealDB driver cannot encode value variant: " ++ Sdk.debugValue v)

mutual

/-- `to_surreal`. -/
def toSurreal : Value → Except Error SurValue
  | .null => .ok .null
  | .bool v => .ok (.bool v)
  | .i8 v => .ok (.number (.int v.toInt64))
  | .i16 v => .ok (.number (.int v.toInt64))
  | .i32 v => .ok (.number (.int v.toInt64))
  | .i64 v => .ok (.number (.int v))
  | .u8 v => .ok (.number (.int v.toUInt64.toInt64))
  | .u16 v => .ok (.number (.int v.toUInt64.toInt64))
  | .u32 v => .ok (.number (.int v.toUInt64.toInt64))
  -- above `i64::MAX` a decimal keeps the magnitude
  | .u64 v =>
      if v.toNat < 2 ^ 63 then .ok (.number (.int v.toInt64)) else .ok
        (.number (.decimal (.ofU64 v)))
  | .f32 v => .ok (.number (.float (Sdk.widen v)))
  | .f64 v => .ok (.number (.float v))
  | .string v => .ok (.string v)
  | .bytes v => .ok (.bytes v)
  | .uuid v => .ok (.uuid v)
  | .list items => do .ok (.array (← toSurrealList items))
  | .record items => do .ok (.array (← toSurrealList items))
  | .object entries => do .ok (.object (← toSurrealEntries entries []))
  | .text kind code =>
      match Sdk.storageText kind code with
      | some text => .ok (.string text)
      | none => .error (cannotEncode (.text kind code))

def toSurrealList : List Value → Except Error (List SurValue)
  | [] => .ok []
  | v :: vs => do
      let out ← toSurreal v
      let rest ← toSurrealList vs
      .ok (out :: rest)

/-- Null entries are left out, so that a presence check on the field works. -/
def toSurrealEntries : List (String × Value) → Object → Except Error Object
  | [], out => .ok out
  | (name, v) :: entries, out =>
      if v.isNull then toSurrealEntries entries out
      else do
        let item ← toSurreal v
        toSurrealEntries entries (AssocMap.insert name item out)

end

def jsonNumberToSurreal : JsonNumber → SurValue
  -- `as_i64`, then `as_u64` through a decimal, then `as_f64`
  | .posInt v =>
      if v.toNat < 2 ^ 63 then .number (.int v.toInt64) else .number (.decimal (.ofU64 v))
  | .negInt v => .number (.int v)
  | .float v => .number (.float v)

mutual

/-- `json_value_to_surreal`. -/
def jsonValueToSurreal : JsonValue → SurValue
  | .null => .null
  | .bool v => .bool v
  | .number n => jsonNumberToSurreal n
  | .string v => .string v
  | .array items => .array (jsonItemsToSurreal items)
  | .object members => .object (jsonMembersToSurreal members [])

def jsonItemsToSurreal : List JsonValue → List SurValue
  | [] => []
  | v :: vs => jsonValueToSurreal v :: jsonItemsToSurreal vs

def jsonMembersToSurreal : List (String × JsonValue) → Object → Object
  | [], out => out
  | (name, v) :: members, out =>
      jsonMembersToSurreal members (AssocMap.insert name (jsonValueToSurreal v) out)

end

/-- `json_text_to_surreal`: a Toasty null is the absent value, the text `null` is the
JSON literal. -/
def jsonTextToSurreal : Value → Except Error SurValue
  | .null => .ok .none
  | .string text =>
      match Sdk.parseJson text with
      | .ok json => .ok (jsonValueToSurreal json)
      | .error error => .error (.serializationFailure
          ("invalid JSON for a SurrealDB native JSON column at line " ++ toString error.line ++
            ", column " ++ toString error.column))
  | _ => .error (.serializationFailure
      "SurrealDB native JSON columns require serialized JSON text or a database null")

/-- `to_surreal_with_storage`. -/
def toSurrealWithStorage (value : Value) (storageTy : Option DbType) : Except Error SurValue :=
  if storageTy = some .json then jsonTextToSurreal value else toSurreal value

/-- `to_surreal_for_column`. -/
def toSurrealForColumn (value : Value) (column : Column) : Except Error SurValue :=
  toSurrealWithStorage value (some column.storageTy)

/-! ## Decoding -/

/-- `number_to_u64`. -/
def numberToU64 : Number → UInt64
  | .int v => v.toUInt64
  | .float v => Sdk.floatToU64 v
  | .decimal v => (Sdk.decimalToU64 v).getD 0

/-- `n.to_int().unwrap_or(0)`. -/
def numberToInt (n : Number) : Int64 := (Sdk.toInt n).getD 0

/-- `n.to_f64().unwrap_or(0.0)`. -/
def numberToF64 (n : Number) : F64 := (Sdk.toF64 n).getD ⟨0⟩

/-- `number_to_stmt`. -/
def numberToStmt (n : Number) (ty : Ty) : Except Error Value :=
  match ty with
  | .bool => .ok (.bool (numberToInt n ≠ 0))
  | .i8 => .ok (.i8 (numberToInt n).toInt8)
  | .i16 => .ok (.i16 (numberToInt n).toInt16)
  | .i32 => .ok (.i32 (numberToInt n).toInt32)
  | .i64 => .ok (.i64 (numberToInt n))
  | .u8 => .ok (.u8 (numberToInt n).toUInt64.toUInt8)
  | .u16 => .ok (.u16 (numberToInt n).toUInt64.toUInt16)
  | .u32 => .ok (.u32 (numberToInt n).toUInt64.toUInt32)
  | .u64 => .ok (.u64 (numberToU64 n))
  | .f32 => .ok (.f32 (Sdk.narrow (numberToF64 n)))
  | .f64 => .ok (.f64 (numberToF64 n))
  | .unknown =>
      match Sdk.toInt n with
      | some i => .ok (.i64 i)
      | none => .ok (.f64 (numberToF64 n))
  | _ => .error (.unsupportedFeature
      ("SurrealDB returned a number for a non-numeric column type: " ++ Sdk.debugTy ty))

/-- The text branch of `from_surreal_with_storage`. -/
def textToStmt (s : String) (ty : Ty) : Except Error Value :=
  match ty with
  | .string | .unknown => .ok (.string s)
  | .uuid =>
      match Sdk.parseUuid s with
      | some u => .ok (.uuid u)
      | none => .error (.unsupportedFeature "expected UUID text from SurrealDB")
  | _ =>
      match Sdk.cast ty s with
      | some v => .ok v
      | none => .error (.unsupportedFeature
          ("SurrealDB text value does not convert to column type " ++ Sdk.debugTy ty))

/-- The element type of a list; anything else decodes as `Unknown`. -/
def elemTy : Ty → Ty
  | .list inner => inner
  | _ => .unknown

mutual

/-- `from_surreal`. -/
def fromSurreal : SurValue → Ty → Except Error Value
  | .none, _ => .ok .null
  | .null, _ => .ok .null
  | .bool b, _ => .ok (.bool b)
  | .number n, ty => numberToStmt n ty
  | .string s, ty => textToStmt s ty
  | .uuid u, _ => .ok (.uuid u)
  | .bytes b, _ => .ok (.bytes b)
  | .recordId _ key, ty => recordIdKeyToStmt key ty
  | .array items, ty => do .ok (.list (← fromSurrealList items (elemTy ty)))
  | .object fields, _ => do .ok (.object (← fromSurrealFields fields))
  | .other code, _ => .error (.unsupportedFeature
      ("SurrealDB driver cannot decode value: " ++ Sdk.debugSurValue (.other code)))

def fromSurrealList : List SurValue → Ty → Except Error (List Value)
  | [], _ => .ok []
  | v :: vs, ty => do
      let item ← fromSurreal v ty
      let rest ← fromSurrealList vs ty
      .ok (item :: rest)

def fromSurrealFields : List (String × SurValue) → Except Error (List (String × Value))
  | [] => .ok []
  | (name, v) :: fields => do
      let item ← fromSurreal v .unknown
      let rest ← fromSurrealFields fields
      .ok ((name, item) :: rest)

/-- `record_id_key_to_stmt`. -/
def recordIdKeyToStmt : RecordIdKey → Ty → Except Error Value
  | .number i, ty => numberToStmt (.int i) ty
  | .string s, ty =>
      match ty with
      | .uuid =>
          match Sdk.parseUuid s with
          | some u => .ok (.uuid u)
          | none => .error (.unsupportedFeature "expected UUID record id key")
      | _ => .ok (.string s)
  | .uuid u, _ => .ok (.uuid u)
  | .array items, _ => do .ok (.record (← fromSurrealList items .unknown))
  | .other code, _ => .error (.unsupportedFeature
      ("SurrealDB driver cannot decode record id key: " ++ Sdk.debugKey (.other code)))

end

/-- `serde_json::Number::from` on an `i64`. -/
def JsonNumber.ofInt64 (v : Int64) : JsonNumber :=
  if h : v < 0 then .negInt ⟨v, h⟩ else .posInt v.toUInt64

mutual

/-- `surreal_to_json_value`: only the JSON variants convert. -/
def surrealToJsonValue : SurValue → Except Error JsonValue
  | .null => .ok .null
  | .bool v => .ok (.bool v)
  | .number (.int v) => .ok (.number (.ofInt64 v))
  | .number (.float v) =>
      if Sdk.finite v then .ok (.number (.float v))
      else .error (.serializationFailure "SurrealDB native JSON contained a non-finite number")
  | .number (.decimal v) =>
      match Sdk.parseJson (Sdk.decimalText v) with
      | .ok (.number n) => .ok (.number n)
      | .ok _ => .error (.serializationFailure
          "SurrealDB native JSON decimal did not produce a JSON number")
      | .error error => .error (.serializationFailure
          ("SurrealDB native JSON decimal could not be serialized: " ++ error.text))
  | .string v => .ok (.string v)
  | .array items => do .ok (.array (← surrealToJsonItems items))
  | .object fields => do .ok (.object (← surrealToJsonMembers fields))
  | .none => .error (.serializationFailure "SurrealDB native JSON contained an embedded NONE value")
  | _ => .error (.serializationFailure "SurrealDB native JSON column contained a non-JSON value")

def surrealToJsonItems : List SurValue → Except Error (List JsonValue)
  | [] => .ok []
  | v :: vs => do
      let item ← surrealToJsonValue v
      let rest ← surrealToJsonItems vs
      .ok (item :: rest)

def surrealToJsonMembers : List (String × SurValue) → Except Error (List (String × JsonValue))
  | [] => .ok []
  | (name, v) :: fields => do
      let item ← surrealToJsonValue v
      let rest ← surrealToJsonMembers fields
      .ok ((name, item) :: rest)

end

@[simp] theorem surrealToJsonValue_int (v : Int64) :
    surrealToJsonValue (.number (.int v)) = .ok (.number (.ofInt64 v)) := rfl

theorem surrealToJsonValue_float {v : F64} (h : Sdk.finite v = true) :
    surrealToJsonValue (.number (.float v)) = .ok (.number (.float v)) := if_pos h

theorem surrealToJsonValue_nonfinite {v : F64} (h : ¬ Sdk.finite v = true) :
    surrealToJsonValue (.number (.float v)) =
      .error (.serializationFailure "SurrealDB native JSON contained a non-finite number") :=
      if_neg h

theorem surrealToJsonValue_decimal {v : Decimal} {n : JsonNumber}
    (h : Sdk.parseJson (Sdk.decimalText v) = .ok (.number n)) :
    surrealToJsonValue (.number (.decimal v)) = .ok (.number n) := by
  change (match Sdk.parseJson (Sdk.decimalText v) with
    | Except.ok (JsonValue.number n) => Except.ok (JsonValue.number n)
    | Except.ok _ => _
    | Except.error error => _) = _
  rw [h]

/-- A decimal that is not printed as a number. -/
theorem surrealToJsonValue_decimal_error {v : Decimal} {e : Error}
    (h : surrealToJsonValue (.number (.decimal v)) = .error e) :
    e = .serializationFailure "SurrealDB native JSON decimal did not produce a JSON number" ∨
      ∃ text, e = .serializationFailure
      ("SurrealDB native JSON decimal could not be serialized: " ++ text) := by
  change (match Sdk.parseJson (Sdk.decimalText v) with
    | Except.ok (JsonValue.number n) => Except.ok (JsonValue.number n)
    | Except.ok _ => _
    | Except.error error => _) = _ at h
  split at h
  · exact absurd h (by simp)
  · injection h with h
    exact .inl h.symm
  · injection h with h
    exact .inr ⟨_, h.symm⟩

@[simp] theorem surrealToJsonValue_string (v : String) :
    surrealToJsonValue (.string v) = .ok (.string v) := rfl

theorem surrealToJsonValue_array (items : List SurValue) :
    surrealToJsonValue (.array items) =
      (do .ok (.array (← surrealToJsonItems items))) := rfl

theorem surrealToJsonValue_object (fields : List (String × SurValue)) :
    surrealToJsonValue (.object fields) =
      (do .ok (.object (← surrealToJsonMembers fields))) := rfl

/-- `surreal_json_to_text`: only `NONE` is a Toasty null. -/
def surrealJsonToText (value : SurValue) : Except Error Value :=
  match value with
  | .none => .ok .null
  | value => do
      let json ← surrealToJsonValue value
      match Sdk.printJson json with
      | .ok text => .ok (.string text)
      | .error error => .error (.serializationFailure
          ("failed to serialize a SurrealDB native JSON value: " ++ error.text))

/-- `from_surreal_with_storage`. -/
def fromSurrealWithStorage (value : SurValue) (ty : Ty) (storageTy : Option DbType) :
    Except Error Value :=
  if storageTy = some .json then surrealJsonToText value else fromSurreal value ty

/-- `from_surreal_for_column`. -/
def fromSurrealForColumn (value : SurValue) (column : Column) : Except Error Value :=
  fromSurrealWithStorage value column.ty (some column.storageTy)

end ToastySurreal
