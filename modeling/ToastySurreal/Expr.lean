import ToastySurreal.Text
import ToastySurreal.Value
import ToastySurreal.Lib.Precedence

/-!
# Rendering filter expressions

The model of `expr.rs`. `render` walks a Toasty filter expression and produces the
tokens of a SurrealQL predicate, collecting the literals as bound parameters. The
text the driver sends is the concatenation of the tokens' texts. A column
reference arrives resolved to its column.
-/

namespace ToastySurreal

open Precedence (Tok)

/-! ## Column references -/

/-- What SurrealQL addresses a column by. -/
inductive ColumnRef where
  /-- The record id's key. -/
  | key
  /-- An element of a composite key. -/
  | keyElem (pos : Nat)
  | field (name : String)
  /-- The record id itself, for a table without a primary key. -/
  | id
  deriving DecidableEq, Repr

def ColumnRef.text : ColumnRef → String
  | .key => "record::id(id)"
  | .keyElem pos => "record::id(id)[" ++ toString pos ++ "]"
  | .field name => escapeIdent name
  | .id => "id"

/-- `column_ref`: a key column lives in the record id. -/
def columnRef (table : Table) (column : Column) : ColumnRef :=
  if isPrimaryKey table column then
    if table.primaryKey.length ≤ 1 then .key
    else .keyElem ((table.primaryKey.idxOf? column.id).getD 0)
  else .field column.name

/-! ## Tokens -/

inductive Atom where
  /-- A column reference and a path into it. -/
  | ref (r : ColumnRef) (path : List String)
  /-- A path whose base is no column: the base's text as it was rendered. -/
  | raw (base : String) (path : List String)
  | param (name : String)
  | true
  | none
  deriving DecidableEq, Repr

inductive Op where
  | or | and
  | eq | ne | gt | ge | lt | le
  | isOp | isNot | inOp | contains | containsAll | containsAny
  | add | sub
  deriving DecidableEq, Repr

inductive Bracket where
  | paren | array | arrayLen | startsWith
  deriving DecidableEq, Repr

inductive Closer where
  | paren | array
  deriving DecidableEq, Repr

abbrev Token := Tok Atom Op Bracket Closer

/-- The path into a document, appended segment by segment. -/
def pathText (path : List String) : String :=
  path.foldl (fun text segment => text ++ "." ++ escapeIdent segment) ""

def Atom.text : Atom → String
  | .ref r path => r.text ++ pathText path
  | .raw base path => base ++ pathText path
  | .param name => "$" ++ name
  | .true => "true"
  | .none => "NONE"

def Op.text : Op → String
  | .or => " OR "
  | .and => " AND "
  | .eq => " = "
  | .ne => " != "
  | .gt => " > "
  | .ge => " >= "
  | .lt => " < "
  | .le => " <= "
  | .isOp => " IS "
  | .isNot => " IS NOT "
  | .inOp => " IN "
  | .contains => " CONTAINS "
  | .containsAll => " CONTAINSALL "
  | .containsAny => " CONTAINSANY "
  | .add => " + "
  | .sub => " - "

def tokenText : Token → String
  | .atom a => a.text
  | .op o => o.text
  | .pre => "!"
  | .opening .paren => "("
  | .opening .array => "["
  | .opening .arrayLen => "array::len("
  | .opening .startsWith => "string::starts_with("
  | .closing .paren => ")"
  | .closing .array => "]"
  | .comma => ", "

def tokensText (toks : List Token) : String := (toks.map tokenText).foldl (· ++ ·) ""

/-! ## Bound parameters -/

/-- `Binds`. -/
structure Binds where
  values : List (String × SurValue)

def Binds.empty : Binds := ⟨[]⟩

/-- The name `Binds::push` gives to its next value. -/
def Binds.nextName (binds : Binds) : String := "p" ++ toString binds.values.length

/-- `Binds::push`; the placeholder is `$` and the name. -/
def Binds.push (binds : Binds) (value : SurValue) : String × Binds :=
  (binds.nextName, ⟨binds.values ++ [(binds.nextName, value)]⟩)

/-- `Binds::push_named`. -/
def Binds.pushNamed (binds : Binds) (name : String) (value : SurValue) : Binds :=
  ⟨binds.values ++ [(name, value)]⟩

/-! ## Expressions -/

/-- The symbol of a binary operator. -/
def BinaryOp.sym : BinaryOp → Op
  | .eq => .eq
  | .ne => .ne
  | .gt => .gt
  | .ge => .ge
  | .lt => .lt
  | .le => .le
  | .add => .add
  | .sub => .sub

/-- `stmt::Expr`, as far as the renderer tells its variants apart. -/
inductive Expr where
  | binaryOp (op : BinaryOp) (lhs rhs : Expr)
  | and (operands : List Expr)
  | or (operands : List Expr)
  | not (expr : Expr)
  | isNull (expr : Expr)
  | between (expr low high : Expr)
  | inList (expr list : Expr)
  | anyOp (op : BinaryOp) (lhs rhs : Expr)
  | isSuperset (lhs rhs : Expr)
  | intersects (lhs rhs : Expr)
  | length (expr : Expr)
  | startsWith (expr start : Expr)
  | jsonExtract (base : Expr) (path : List String)
  | reference (column : Column)
  | value (v : Value)
  | list (items : List Expr)
  /-- Any other variant, with its `Debug` text. -/
  | other (debug : String)

/-- `expression_storage_ty`. -/
def expressionStorageTy : Expr → Option DbType
  | .reference column => some column.storageTy
  | .jsonExtract base _ => expressionStorageTy base
  | _ => none

/-! ## The renderer -/

/-- Join rendered operands. -/
def joinTokens (sep : Token) : List (List Token) → List Token
  | [] => []
  | [part] => part
  | part :: parts => part ++ sep :: joinTokens sep parts

def parens (toks : List Token) : List Token := .opening .paren :: (toks ++ [.closing .paren])

def arrayTokens (parts : List (List Token)) : List Token :=
  .opening .array :: (joinTokens .comma parts ++ [.closing .array])

variable [Sdk]

/-- The encoded items of a list literal, each bound to a parameter of its own. -/
def bindItems (binds : Binds) (storageTy : Option DbType) :
    List Value → Except Error (List (List Token) × Binds)
  | [] => .ok ([], binds)
  | item :: items => do
      let value ← toSurrealWithStorage item storageTy
      let (name, binds) := binds.push value
      let (parts, binds) ← bindItems binds storageTy items
      .ok ([.atom (.param name)] :: parts, binds)

/-- `value_to_binds`: a list literal becomes an array of parameters. -/
def valueToBinds (binds : Binds) (value : Value) (storageTy : Option DbType) :
    Except Error (List Token × Binds) :=
  match value with
  | .list items => do
      let (parts, binds) ← bindItems binds storageTy items
      .ok (arrayTokens parts, binds)
  | other => do
      let value ← toSurrealWithStorage other storageTy
      let (name, binds) := binds.push value
      .ok ([.atom (.param name)], binds)

/-- `document_path`: a column and a path into it. Any other base is rendered on its
own, its literals dropped, with `id` in place of one that cannot be. -/
def documentPath (table : Table) (base : Expr) (rendered : Except Error (List Token × Binds))
    (path : List String) : List Token :=
  match base with
  | .reference column => [.atom (.ref (columnRef table column) path)]
  | _ =>
      match rendered with
      | .ok (toks, _) => [.atom (.raw (tokensText toks) path)]
      | .error _ => [.atom (.raw "id" path)]

mutual

/-- `render_with_storage`. -/
def renderWithStorage (table : Table) (binds : Binds) (expr : Expr) (storageTy : Option DbType) :
    Except Error (List Token × Binds) :=
  match expr with
  | .binaryOp op lhs rhs => do
      let (lhsToks, binds) ← renderWithStorage table binds lhs (expressionStorageTy rhs)
      let (rhsToks, binds) ← renderWithStorage table binds rhs (expressionStorageTy lhs)
      .ok (lhsToks ++ .op op.sym :: rhsToks, binds)
  | .and operands => do
      let (parts, binds) ← renderOperands table binds operands
      .ok (parens (joinTokens (.op .and) parts), binds)
  | .or operands => do
      let (parts, binds) ← renderOperands table binds operands
      .ok (parens (joinTokens (.op .or) parts), binds)
  | .not expr => do
      let (inner, binds) ← renderWithStorage table binds expr none
      .ok (.pre :: parens inner, binds)
  -- a presence check needs the plain field, also of a bool column
  | .isNull (.reference column) =>
      .ok ([.atom (.ref (columnRef table column) []), .op .isOp, .atom .none], binds)
  | .isNull (.jsonExtract base path) =>
      .ok (documentPath table base (renderWithStorage table .empty base none) path ++
        [.op .isOp, .atom .none], binds)
  | .isNull expr => do
      let (inner, binds) ← renderWithStorage table binds expr none
      .ok (inner ++ [.op .isOp, .atom .none], binds)
  | .between expr low high => do
      let targetStorage := expressionStorageTy expr
      let (target, binds) ← renderWithStorage table binds expr none
      let (lowToks, binds) ← renderWithStorage table binds low targetStorage
      let (highToks, binds) ← renderWithStorage table binds high targetStorage
      .ok (parens (target ++ .op .ge :: (lowToks ++ .op .and :: (target ++ .op .le :: highToks))),
        binds)
  | .inList expr list => do
      let (target, binds) ← renderWithStorage table binds expr none
      let (listToks, binds) ← renderWithStorage table binds list (expressionStorageTy expr)
      .ok (target ++ .op .inOp :: listToks, binds)
  | .anyOp op lhs rhs =>
      if op ≠ .eq then
        .error (.unsupportedFeature
          ("SurrealDB driver only supports `= ANY` list membership, got " ++ Sdk.debugOp op))
      else do
        let (value, binds) ← renderWithStorage table binds lhs (expressionStorageTy rhs)
        let (list, binds) ← renderWithStorage table binds rhs none
        .ok (list ++ .op .contains :: value, binds)
  | .isSuperset lhs rhs => do
      let (lhsToks, binds) ← renderWithStorage table binds lhs (expressionStorageTy rhs)
      let (rhsToks, binds) ← renderWithStorage table binds rhs (expressionStorageTy lhs)
      .ok (lhsToks ++ .op .containsAll :: rhsToks, binds)
  | .intersects lhs rhs => do
      let (lhsToks, binds) ← renderWithStorage table binds lhs (expressionStorageTy rhs)
      let (rhsToks, binds) ← renderWithStorage table binds rhs (expressionStorageTy lhs)
      .ok (lhsToks ++ .op .containsAny :: rhsToks, binds)
  | .length expr => do
      let (inner, binds) ← renderWithStorage table binds expr none
      .ok (.opening .arrayLen :: (inner ++ [.closing .paren]), binds)
  | .startsWith expr start => do
      let (target, binds) ← renderWithStorage table binds expr none
      let (startToks, binds) ← renderWithStorage table binds start (expressionStorageTy expr)
      -- `string::starts_with` fails on anything but a string
      .ok (parens (target ++ .op .isNot :: .atom .none :: .op .and :: .opening .startsWith ::
        (target ++ .comma :: (startToks ++ [.closing .paren]))), binds)
  | .jsonExtract base path =>
      .ok (documentPath table base (renderWithStorage table .empty base none) path, binds)
  | .reference column =>
      let reference := Tok.atom (.ref (columnRef table column) [])
      -- a bare bool column used as a predicate means `= true`
      if column.ty = .bool then .ok ([reference, .op .eq, .atom .true], binds)
      else .ok ([reference], binds)
  | .value v => valueToBinds binds v storageTy
  | .list items => do
      let (parts, binds) ← renderItems table binds items storageTy
      .ok (arrayTokens parts, binds)
  | .other debug => .error (.unsupportedFeature
      ("SurrealDB driver cannot translate filter expression: " ++ debug))
termination_by structural expr

/-- `render_operands`. -/
def renderOperands (table : Table) (binds : Binds) (operands : List Expr) :
    Except Error (List (List Token) × Binds) :=
  match operands with
  | [] => .ok ([], binds)
  | op :: ops => do
      let (part, binds) ← renderWithStorage table binds op none
      let (parts, binds) ← renderOperands table binds ops
      .ok (part :: parts, binds)
termination_by structural operands

/-- The items of a list expression, all with the list's storage hint. -/
def renderItems (table : Table) (binds : Binds) (items : List Expr) (storageTy : Option DbType) :
    Except Error (List (List Token) × Binds) :=
  match items with
  | [] => .ok ([], binds)
  | item :: items => do
      let (part, binds) ← renderWithStorage table binds item storageTy
      let (parts, binds) ← renderItems table binds items storageTy
      .ok (part :: parts, binds)
termination_by structural items

end

/-- `render`. -/
def render (table : Table) (binds : Binds) (expr : Expr) : Except Error (List Token × Binds) :=
  renderWithStorage table binds expr none

end ToastySurreal
