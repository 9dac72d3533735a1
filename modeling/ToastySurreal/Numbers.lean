import ToastySurreal.Op.Write
import ToastySurreal.Store

/-!
# What an update computes

An update assigns columns, one after another, and what it makes of a column depends on
what the column holds and on its own assignments to it: `Assigns` for one assignment,
`Evolves` for several in order. The whole numbers among the values of the two sides are
what versions and counters are made of.
-/

namespace ToastySurreal

/-! ## Whole numbers -/

/-- The whole number a value of an integer type is. -/
def Value.whole : Value → Option Int
  | .i8 v => some v.toInt
  | .i16 v => some v.toInt
  | .i32 v => some v.toInt
  | .i64 v => some v.toInt
  | .u8 v => some v.toNat
  | .u16 v => some v.toNat
  | .u32 v => some v.toNat
  | .u64 v => some v.toNat
  | _ => none

/-- The whole number a stored number is. -/
def SurValue.whole (v : SurValue) : Option Int :=
  match v with
  | .number (.int n) => some n.toInt
  | .number (.decimal n) => if n.scale = 0 then some n.mantissa else Option.none
  | _ => Option.none

/-- An integer type. -/
def Ty.isInteger : Ty → Bool
  | .i8 | .i16 | .i32 | .i64 | .u8 | .u16 | .u32 | .u64 => true
  | _ => false

/-- A column of integers, outside the key. -/
structure IntegerColumn (table : Table) (c : Column) : Prop where
  column : c ∈ table.columns
  integer : c.ty.isInteger = true
  native : c.storageTy ≠ .json
  data : isPrimaryKey table c = false

section

variable [Surql]

/-- SurrealQL computes with whole numbers exactly, or not at all. -/
class SqlArith : Prop where
  /-- `=` on a column reference. -/
  holds_eq : ∀ {r : ColumnRef} {v : SurValue} {rid : RecordId} {o : Object} {x y : Int},
    (refValue rid o r).whole = some x → v.whole = some y →
    Surql.holds [.atom (.ref r []), .op .eq, .atom (.value v)] rid o = decide (x = y)
  add_whole : ∀ {v w u : SurValue} {x y : Int}, v.whole = some x → w.whole = some y →
    Surql.add v w = .ok u → u.whole = some (x + y)
  sub_whole : ∀ {v w u : SurValue} {x y : Int}, v.whole = some x → w.whole = some y →
    Surql.sub v w = .ok u → u.whole = some (x - y)

/-! ## Assignments to a column -/

variable [Sdk]

/-- What an assignment makes of a column that holds `x`. -/
def Assigns (c : Column) (x z : SurValue) : Assignment → Prop
  | .set v => if v.isNull then z = .none else toSurrealForColumn v c = .ok z
  | .add v => ∃ w, toSurrealForColumn v c = .ok w ∧ Surql.add x w = .ok z
  | .subtract v => ∃ w, toSurrealForColumn v c = .ok w ∧ Surql.sub x w = .ok z
  | .append v => ∃ w, appended v c = .ok w ∧ Surql.add x w = .ok z
  | .other _ => False

/-- What assignments make of a column, one after another. -/
def Evolves (c : Column) : List Assignment → SurValue → SurValue → Prop
  | [], x, z => z = x
  | a :: as, x, z => ∃ y, Assigns c x y a ∧ Evolves c as y z

end

/-- The assignments to a column, in order. -/
def assignmentsOn (c : Column) (assignments : List (ColumnId × Assignment)) : List Assignment :=
  (assignments.filter fun a => decide (a.1 = c.id)).map Prod.snd

/-- The update assigns the column. -/
def UpdateByKey.writes (op : UpdateByKey) (c : Column) : Bool :=
  !(assignmentsOn c op.assignments).isEmpty

/-- The condition `v = n`. -/
def versionIs (v : Column) (n : Value) : Expr := .binaryOp .eq (.reference v) (.value n)

/-- The update is from version `n` to the next. -/
structure Versioned (v : Column) (op : UpdateByKey) (n : Int) : Prop where
  condition : ∃ w, op.condition = some (versionIs v w) ∧ w.whole = some n
  next : ∃ w, assignmentsOn v op.assignments = [.set w] ∧ w.whole = some (n + 1)

/-- The whole number an assignment adds. -/
def Assignment.delta : Assignment → Option Int
  | .add v => v.whole
  | .subtract v => v.whole.map (- ·)
  | _ => none

/-- The sum of what some assignments add. -/
def deltaSum (assignments : List Assignment) : Int := (assignments.map fun a => a.delta.getD 0).sum

end ToastySurreal
