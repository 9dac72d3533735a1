import ToastySurreal.Store

/-!
# What a predicate computes on a record

SurrealQL compares any two values, by one total order in which `NONE` is the least,
and a field that is absent reads as `NONE`. `rowAlgebra` is the meaning this gives to
the operators on one record. A `Filter` is a conjunction and disjunction of
comparisons of columns and document paths with literals; `Filter.reading` is how
Toasty means it, where a comparison about something that is absent is false.
-/

namespace ToastySurreal

open Precedence (Algebra)

/-- What SurrealQL computes on values. -/
class SqlOrder where
  /-- The order of values, of all types. -/
  le : SurValue → SurValue → Bool
  le_total : ∀ v w, le v w = true ∨ le w v = true
  le_trans : ∀ u v w, le u v = true → le v w = true → le u w = true
  /-- `NONE` is below every other value. -/
  none_lt : ∀ v, v ≠ .none → le v .none = false
  /-- A field of a value. -/
  field : SurValue → String → SurValue
  field_object : ∀ o name, field (.object o) name = Object.field o name
  arrayLen : SurValue → SurValue
  /-- An operator that neither compares nor is logical. -/
  other : Op → SurValue → SurValue → SurValue

section

variable [SqlOrder]

/-- Neither value is below the other. -/
def SqlOrder.eqv (v w : SurValue) : Bool := SqlOrder.le v w && SqlOrder.le w v

def SurValue.isTrue : SurValue → Bool
  | .bool true => true
  | _ => false

def SurValue.items : SurValue → List SurValue
  | .array items => items
  | _ => []

/-- `string::starts_with`; a record is not selected when the arguments are no strings. -/
def startsWith : SurValue → SurValue → Bool
  | .string s, .string start => start.toList.isPrefixOf s.toList
  | _, _ => false

/-- The value of an operator. -/
def opValue (o : Op) (v w : SurValue) : SurValue :=
  match o with
  | .or => .bool (v.isTrue || w.isTrue)
  | .and => .bool (v.isTrue && w.isTrue)
  | .eq | .isOp => .bool (SqlOrder.eqv v w)
  | .ne | .isNot => .bool !(SqlOrder.eqv v w)
  | .gt => .bool !(SqlOrder.le v w)
  | .ge => .bool (SqlOrder.le w v)
  | .lt => .bool !(SqlOrder.le w v)
  | .le => .bool (SqlOrder.le v w)
  | .inOp => .bool (w.items.any (SqlOrder.eqv v))
  | .contains => .bool (v.items.any (SqlOrder.eqv w))
  | .containsAll => .bool (w.items.all fun x => v.items.any (SqlOrder.eqv x))
  | .containsAny => .bool (w.items.any fun x => v.items.any (SqlOrder.eqv x))
  | .add | .sub => SqlOrder.other o v w

/-- What a path into a column reads from a record. -/
def pathValue (rid : RecordId) (o : Object) (r : ColumnRef) (path : List String) : SurValue :=
  path.foldl SqlOrder.field (refValue rid o r)

/-- The meaning of SurrealQL's operators on a record. -/
def rowAlgebra (rid : RecordId) (o : Object) : Algebra Operand Op Bracket SurValue where
  atom
    | .ref r path => pathValue rid o r path
    -- a path on something that is no column
    | .raw _ _ => .none
    | .value v => v
  pre v := .bool !v.isTrue
  op := opValue
  bracket
    | .paren, vs => vs.headD .none
    | .array, vs => .array vs
    | .arrayLen, vs => SqlOrder.arrayLen (vs.headD .none)
    | .startsWith, vs => .bool (startsWith (vs.headD .none) (vs.getD 1 .none))

end

/-! ## Filters of comparisons -/

/-- What a comparison is about. -/
inductive Target where
  | column (c : Column)
  | path (c : Column) (path : List String)

def Target.expr : Target → Expr
  | .column c => .reference c
  | .path c p => .jsonExtract (.reference c) p

def Target.storageTy : Target → DbType
  | .column c | .path c _ => c.storageTy

/-- A literal that is not null. -/
abbrev Literal := {v : Value // v.isNull = false}

inductive CompareOp where
  | eq | lt | le | gt | ge
  deriving DecidableEq, Repr

def CompareOp.binary : CompareOp → BinaryOp
  | .eq => .eq
  | .lt => .lt
  | .le => .le
  | .gt => .gt
  | .ge => .ge

inductive Comparison where
  | targetFirst (op : CompareOp) (target : Target) (literal : Literal)
  | literalFirst (op : CompareOp) (literal : Literal) (target : Target)
  | between (target : Target) (low high : Literal)
  /-- The list is one literal, or an expression of literals. -/
  | inList (target : Target) (items : List Literal) (asExpr : Bool)
  | startsWith (target : Target) (start : Literal)

def Comparison.target : Comparison → Target
  | .targetFirst _ target _ | .literalFirst _ _ target | .between target _ _ | .inList target _ _
  | .startsWith target _ => target

/-- The list of an `IN`. -/
def listExpr (items : List Literal) (asExpr : Bool) : Expr :=
  if asExpr then .list (items.map fun v => .value v.1) else .value (.list (items.map Subtype.val))

def Comparison.expr : Comparison → Expr
  | .targetFirst op target literal => .binaryOp op.binary target.expr (.value literal.1)
  | .literalFirst op literal target => .binaryOp op.binary (.value literal.1) target.expr
  | .between target low high => .between target.expr (.value low.1) (.value high.1)
  | .inList target items asExpr => .inList target.expr (listExpr items asExpr)
  | .startsWith target start => .startsWith target.expr (.value start.1)

/-- A filter without negations. -/
inductive Filter where
  | comparison (c : Comparison)
  | and (operands : List Filter)
  | or (operands : List Filter)

mutual

def Filter.expr : Filter → Expr
  | .comparison c => c.expr
  | .and fs => .and (filterExprs fs)
  | .or fs => .or (filterExprs fs)

def filterExprs : List Filter → List Expr
  | [] => []
  | f :: fs => f.expr :: filterExprs fs

end

mutual

/-- The value of a filter whose comparisons have these values. -/
def Filter.eval (value : Comparison → Bool) : Filter → Bool
  | .comparison c => value c
  | .and fs => evalAnd value fs
  | .or fs => evalOr value fs

def evalAnd (value : Comparison → Bool) : List Filter → Bool
  | [] => true
  | f :: fs => f.eval value && evalAnd value fs

def evalOr (value : Comparison → Bool) : List Filter → Bool
  | [] => false
  | f :: fs => f.eval value || evalOr value fs

end

section

variable [Sdk] [SqlOrder]

/-- The stored form of a literal. -/
def Literal.stored (v : Literal) (storageTy : DbType) : SurValue :=
  match v.1 with
  | .list items => .array (items.map fun item => literal item (some storageTy))
  | v => literal v (some storageTy)

/-- The stored form of an item of a list. -/
def storedItem (storageTy : DbType) (asExpr : Bool) (v : Literal) : SurValue :=
  if asExpr then v.stored storageTy else literal v.1 (some storageTy)

/-- What a target reads from a record. -/
def Target.value (table : Table) (rid : RecordId) (o : Object) : Target → SurValue
  | .column c => pathValue rid o (columnRef table c) []
  | .path c p => pathValue rid o (columnRef table c) p

/-- How a comparison comes out, given what its target reads. -/
def Comparison.outcome (x : SurValue) : Comparison → Bool
  | .targetFirst op target v => (opValue op.binary.sym x (v.stored target.storageTy)).isTrue
  | .literalFirst op v target => (opValue op.binary.sym (v.stored target.storageTy) x).isTrue
  | .between target low high => (opValue .ge x (low.stored target.storageTy)).isTrue &&
      (opValue .le x (high.stored target.storageTy)).isTrue
  | .inList target items asExpr =>
      (items.map (storedItem target.storageTy asExpr)).any (SqlOrder.eqv x)
  | .startsWith target start => ToastySurreal.startsWith x (start.stored target.storageTy)

/-- A comparison about something that is absent is false. -/
def Comparison.reading (table : Table) (rid : RecordId) (o : Object) (c : Comparison) : Bool :=
  let x := c.target.value table rid o
  if x = .none then false else c.outcome x

/-- How Toasty means a filter. -/
def Filter.reading (table : Table) (rid : RecordId) (o : Object) (f : Filter) : Bool :=
  f.eval (Comparison.reading table rid o)

end

end ToastySurreal
