import ToastySurreal.Schema
import ToastySurreal.Lib.AssocMap

/-!
# Values on the two sides of the driver, and what the driver calls

`Value` is what Toasty hands over and expects back, `SurValue` what SurrealDB
stores, and `JsonValue` the tree `serde_json` parses a native-JSON column's text
into. The driver's own code is the translation between them; it leans on a number
of library functions that are not part of the repository. Those are the fields of
`Sdk`. What the documentation of the libraries promises about them is collected
in `LawfulSdk`, and a result that needs a promise says so.
-/

namespace ToastySurreal

/-! ## Scalars -/

/-- A UUID, as its 128 bits. -/
structure Uuid where
  bits : BitVec 128
  deriving DecidableEq, Repr

/-- A single-precision float, as its bits; every NaN is the one quiet NaN. No result
depends on its arithmetic. -/
structure F32 where
  bits : BitVec 32
  quiet : 0x7f800000 < (bits &&& 0x7fffffff).toNat → bits = 0x7fc00000 := by decide
  deriving DecidableEq

/-- A double-precision float, as its bits. -/
structure F64 where
  bits : BitVec 64
  deriving DecidableEq, Repr

/-- `rust_decimal::Decimal`: `mantissa / 10 ^ scale`. -/
structure Decimal where
  mantissa : Int
  scale : Nat
  deriving DecidableEq, Repr

/-- `Decimal::from` on a `u64`. -/
def Decimal.ofU64 (v : UInt64) : Decimal := ⟨v.toNat, 0⟩

/-! ## `toasty_core::stmt::Value` -/

inductive Value where
  | null
  | bool (v : Bool)
  | i8 (v : Int8)
  | i16 (v : Int16)
  | i32 (v : Int32)
  | i64 (v : Int64)
  | u8 (v : UInt8)
  | u16 (v : UInt16)
  | u32 (v : UInt32)
  | u64 (v : UInt64)
  | f32 (v : F32)
  | f64 (v : F64)
  | string (v : String)
  | bytes (v : List UInt8)
  | uuid (v : Uuid)
  | list (items : List Value)
  | record (items : List Value)
  | object (entries : List (String × Value))
  /-- A temporal, decimal or network value; `code` tells the values of a kind apart. -/
  | text (kind : TextKind) (code : Nat)

def Value.isNull : Value → Bool
  | .null => true
  | _ => false

@[simp] theorem Value.isNull_iff {v : Value} : v.isNull = true ↔ v = .null := by
  cases v <;> simp [Value.isNull]

/-! ## `surrealdb::types::Value` -/

inductive Number where
  | int (v : Int64)
  | float (v : F64)
  | decimal (v : Decimal)
  deriving DecidableEq, Repr

mutual

inductive SurValue where
  | none
  | null
  | bool (v : Bool)
  | number (n : Number)
  | string (v : String)
  | bytes (v : List UInt8)
  | uuid (v : Uuid)
  | recordId (table : String) (key : RecordIdKey)
  | array (items : List SurValue)
  | object (fields : List (String × SurValue))
  /-- A variant the driver neither writes nor reads: durations, geometries, ranges, … -/
  | other (code : Nat)

inductive RecordIdKey where
  | number (v : Int64)
  | string (v : String)
  | uuid (v : Uuid)
  | array (items : List SurValue)
  | other (code : Nat)

end

/-! ### Equality is decidable -/

mutual

def SurValue.beq : SurValue → SurValue → Bool
  | .none, .none => true
  | .null, .null => true
  | .bool v, .bool w => v == w
  | .number n, .number m => n == m
  | .string v, .string w => v == w
  | .bytes v, .bytes w => v == w
  | .uuid v, .uuid w => v == w
  | .recordId t k, .recordId u l => t == u && k.beq l
  | .array items, .array items' => SurValue.beqItems items items'
  | .object fields, .object fields' => SurValue.beqFields fields fields'
  | .other c, .other d => c == d
  | _, _ => false
termination_by structural v => v

def SurValue.beqItems : List SurValue → List SurValue → Bool
  | [], [] => true
  | v :: vs, w :: ws => v.beq w && SurValue.beqItems vs ws
  | _, _ => false
termination_by structural vs => vs

def SurValue.beqFields : List (String × SurValue) → List (String × SurValue) → Bool
  | [], [] => true
  | (n, v) :: vs, (m, w) :: ws => n == m && v.beq w && SurValue.beqFields vs ws
  | _, _ => false
termination_by structural vs => vs

def RecordIdKey.beq : RecordIdKey → RecordIdKey → Bool
  | .number v, .number w => v == w
  | .string v, .string w => v == w
  | .uuid v, .uuid w => v == w
  | .array items, .array items' => SurValue.beqItems items items'
  | .other c, .other d => c == d
  | _, _ => false
termination_by structural k => k

end

mutual

theorem SurValue.beq_iff : ∀ v w : SurValue, v.beq w = true ↔ v = w
  | .none, w => by cases w <;> simp [SurValue.beq]
  | .null, w => by cases w <;> simp [SurValue.beq]
  | .bool _, w => by cases w <;> simp [SurValue.beq]
  | .number _, w => by cases w <;> simp [SurValue.beq]
  | .string _, w => by cases w <;> simp [SurValue.beq]
  | .bytes _, w => by cases w <;> simp [SurValue.beq]
  | .uuid _, w => by cases w <;> simp [SurValue.beq]
  | .recordId _ k, w => by cases w <;> simp [SurValue.beq, RecordIdKey.beq_iff k]
  | .array items, w => by cases w <;> simp [SurValue.beq, SurValue.beqItems_iff items]
  | .object fields, w => by cases w <;> simp [SurValue.beq, SurValue.beqFields_iff fields]
  | .other _, w => by cases w <;> simp [SurValue.beq]

theorem SurValue.beqItems_iff : ∀ vs ws : List SurValue, SurValue.beqItems vs ws = true ↔ vs = ws
  | [], ws => by cases ws <;> simp [SurValue.beqItems]
  | v :: vs, ws => by
      cases ws <;> simp [SurValue.beqItems, SurValue.beq_iff v, SurValue.beqItems_iff vs]

theorem SurValue.beqFields_iff : ∀ vs ws : List (String × SurValue),
    SurValue.beqFields vs ws = true ↔ vs = ws
  | [], ws => by cases ws <;> simp [SurValue.beqFields]
  | (n, v) :: vs, ws => by
      cases ws with
      | nil => simp [SurValue.beqFields]
      | cons w ws =>
          simp [SurValue.beqFields, SurValue.beq_iff v, SurValue.beqFields_iff vs, Prod.ext_iff]

theorem RecordIdKey.beq_iff : ∀ k l : RecordIdKey, k.beq l = true ↔ k = l
  | .number _, l => by cases l <;> simp [RecordIdKey.beq]
  | .string _, l => by cases l <;> simp [RecordIdKey.beq]
  | .uuid _, l => by cases l <;> simp [RecordIdKey.beq]
  | .array items, l => by cases l <;> simp [RecordIdKey.beq, SurValue.beqItems_iff items]
  | .other _, l => by cases l <;> simp [RecordIdKey.beq]

end

instance : DecidableEq SurValue := fun v w => decidable_of_iff _ (SurValue.beq_iff v w)

instance : DecidableEq RecordIdKey := fun k l => decidable_of_iff _ (RecordIdKey.beq_iff k l)

/-- `surrealdb::types::RecordId`. -/
structure RecordId where
  table : String
  key : RecordIdKey
  deriving DecidableEq

/-- A record id as a value. -/
def RecordId.value (rid : RecordId) : SurValue := .recordId rid.table rid.key

/-- `surrealdb::types::Object`. -/
abbrev Object := List (String × SurValue)

/-- What SurrealQL reads from a field: an absent one is `NONE`. -/
def Object.field (o : Object) (name : String) : SurValue := (AssocMap.lookup name o).getD .none

/-- Assigning `NONE` removes a field, anything else stores it. -/
def Object.set (o : Object) (name : String) : SurValue → Object
  | .none => AssocMap.erase name o
  | v => AssocMap.insert name v o

@[simp] theorem Object.field_nil (name : String) : Object.field [] name = .none := rfl

@[simp] theorem Object.field_insert_self (o : Object) (name : String) (v : SurValue) :
    Object.field (AssocMap.insert name v o) name = v := by
  simp [Object.field]

@[simp] theorem Object.field_insert_ne {o : Object} {n m : String} (h : n ≠ m) (v : SurValue) :
    Object.field (AssocMap.insert m v o) n = Object.field o n := by
  simp [Object.field, h]

@[simp] theorem Object.field_erase_self (o : Object) (name : String) :
    Object.field (AssocMap.erase name o) name = .none := by
  simp [Object.field]

@[simp] theorem Object.field_erase_ne {o : Object} {n m : String} (h : n ≠ m) :
    Object.field (AssocMap.erase m o) n = Object.field o n := by
  simp [Object.field, h]

@[simp] theorem Object.field_set_self (o : Object) (name : String) (v : SurValue) :
    Object.field (o.set name v) name = v := by
  cases v <;> simp [Object.set]

@[simp] theorem Object.field_set_ne {o : Object} {n m : String} (h : n ≠ m) (v : SurValue) :
    Object.field (o.set m v) n = Object.field o n := by
  cases v <;> simp [Object.set, h]

/-! ## `serde_json::Value` -/

/-- `serde_json::Number`: a non-negative integer, a negative one, or a finite double. -/
inductive JsonNumber where
  | posInt (v : UInt64)
  | negInt (v : {v : Int64 // v < 0})
  | float (v : F64)
  deriving DecidableEq

inductive JsonValue where
  | null
  | bool (v : Bool)
  | number (n : JsonNumber)
  | string (v : String)
  | array (items : List JsonValue)
  | object (members : List (String × JsonValue))

/-- `serde_json::Error`: where it is, and its `Display` text. -/
structure JsonError where
  line : Nat
  column : Nat
  text : String
  deriving DecidableEq, Repr

/-! ## Errors -/

/-- The variants of `toasty_core::Error` the driver builds. -/
inductive ErrorKind where
  | unsupportedFeature
  | invalidStatement
  | serializationFailure
  | conditionFailed
  | readOnlyTransaction
  | driverOperationFailed
  deriving DecidableEq, Repr

structure Error where
  kind : ErrorKind
  message : String
  deriving DecidableEq, Repr

namespace Error

def unsupportedFeature (message : String) : Error := ⟨.unsupportedFeature, message⟩
def invalidStatement (message : String) : Error := ⟨.invalidStatement, message⟩
def serializationFailure (message : String) : Error := ⟨.serializationFailure, message⟩
def conditionFailed (message : String) : Error := ⟨.conditionFailed, message⟩
def readOnlyTransaction (message : String) : Error := ⟨.readOnlyTransaction, message⟩
def driverOperationFailed (message : String) : Error := ⟨.driverOperationFailed, message⟩

end Error

/-! ## What the driver calls -/

/-- `stmt::BinaryOp`. -/
inductive BinaryOp where
  | eq | ne | gt | ge | lt | le | add | sub
  deriving DecidableEq, Repr

/-- Library functions outside the repository that the driver's own code calls. -/
class Sdk where
  /-- `stmt::Value::document_storage_text` on a text-stored value. -/
  storageText : TextKind → Nat → Option String
  /-- `stmt::Type::cast` from text, where it returns. -/
  cast : Ty → String → Option Value
  /-- `str::parse::<Uuid>`. -/
  parseUuid : String → Option Uuid
  /-- `f32 as f64`. -/
  widen : F32 → F64
  /-- `f64 as f32`. -/
  narrow : F64 → F32
  /-- `f64 as u64`. -/
  floatToU64 : F64 → UInt64
  /-- `Number::to_int`. -/
  toInt : Number → Option Int64
  /-- `Number::to_f64`. -/
  toF64 : Number → Option F64
  /-- `Decimal::to_u64`. -/
  decimalToU64 : Decimal → Option UInt64
  /-- `Decimal::to_string`. -/
  decimalText : Decimal → String
  /-- `serde_json::Number::from_f64`, which refuses NaN and the infinities. -/
  finite : F64 → Bool
  /-- `serde_json::from_str`. -/
  parseJson : String → Except JsonError JsonValue
  /-- `serde_json::to_string`. -/
  printJson : JsonValue → Except JsonError String
  /-- The `Debug` text of a value. -/
  debugValue : Value → String
  /-- The `Debug` text of a type. -/
  debugTy : Ty → String
  /-- The `Debug` text of a binary operator. -/
  debugOp : BinaryOp → String
  /-- The `Debug` text of a stored value. -/
  debugSurValue : SurValue → String
  /-- The `Debug` text of a record-id key. -/
  debugKey : RecordIdKey → String

/-- What `serde_json` can parse into: numbers are finite, an object has no name twice. -/
inductive JsonValue.Proper [Sdk] : JsonValue → Prop where
  | null : Proper .null
  | bool (v : Bool) : Proper (.bool v)
  | posInt (v : UInt64) : Proper (.number (.posInt v))
  | negInt (v : {v : Int64 // v < 0}) : Proper (.number (.negInt v))
  | float (v : F64) (h : Sdk.finite v = true) : Proper (.number (.float v))
  | string (v : String) : Proper (.string v)
  | array (items : List JsonValue) (h : ∀ v ∈ items, Proper v) : Proper (.array items)
  | object (members : List (String × JsonValue)) (hn : (members.map Prod.fst).Nodup)
      (h : ∀ m ∈ members, Proper m.2) : Proper (.object members)

/-- What the libraries' documentation promises. -/
class LawfulSdk [Sdk] : Prop where
  /-- Text written for a temporal, decimal or network value casts back to it. -/
  cast_storageText : ∀ kind code text, Sdk.storageText kind code = some text →
    Sdk.cast (.text kind) text = some (.text kind code)
  narrow_widen : ∀ v, Sdk.narrow (Sdk.widen v) = v
  toInt_int : ∀ v, Sdk.toInt (.int v) = some v
  toF64_float : ∀ v, Sdk.toF64 (.float v) = some v
  decimalToU64_ofU64 : ∀ v, Sdk.decimalToU64 (.ofU64 v) = some v
  /-- A decimal that is a natural number prints as one. -/
  parse_decimalText : ∀ v : UInt64, Sdk.parseJson (Sdk.decimalText (.ofU64 v)) =
    .ok (.number (.posInt v))
  proper_of_parse : ∀ text json, Sdk.parseJson text = .ok json → json.Proper
  /-- A proper tree serializes. -/
  print_proper : ∀ json : JsonValue, json.Proper → ∃ text, Sdk.printJson json = .ok text
  parse_print_null : ∀ text, Sdk.printJson .null = .ok text → Sdk.parseJson text = .ok .null
  parse_print_string : ∀ v text, Sdk.printJson (.string v) = .ok text →
    Sdk.parseJson text = .ok (.string v)

end ToastySurreal
