import ToastySurreal.Lib.Holes
import ToastySurreal.Proof.Parameters

/-!
# What a statement's text says

`layout` is what the text of an expression is meant to be, every literal's encoding in its
own place, with the encodings in the order in which they are bound. The text the renderer
writes has holes there, and `Writes` says that each hole's name is bound to what belongs
in it. A path into a base that is no column is the exception: the base is rendered with
parameters of its own, which are dropped while their names stay in the text. The layout
keeps what such a base held as a stray.
-/

namespace ToastySurreal

open Results
open Holes (Piece Marks chars Ended)
open Precedence (Tok)

/-! ## Reading SurrealQL -/

/-- Parameters start with a dollar sign, identifiers stand in backticks. -/
def sqlMarks : Marks where
  sigil := '$'
  quote := backtick
  word c := c.isAlphanum || c = '_'
  differ := by decide
  ends := by decide

/-- The pieces of a statement. -/
def sqlRead (s : String) : List (Piece String) := Holes.read sqlMarks s.toList

/-- A text without parameters. -/
def Fixed (s : String) : Prop := Holes.Plain sqlMarks s.toList

instance (s : String) : Decidable (Fixed s) := inferInstanceAs (Decidable (Holes.Plain _ _))

/-- A text that starts with something that ends a parameter's name. -/
def Breaks (s : String) : Prop := Ended sqlMarks s.toList ∧ s.toList ≠ []

instance (s : String) : Decidable (Breaks s) := inferInstanceAs (Decidable (_ ∧ _))

theorem Breaks.append {s : String} (h : Breaks s) (t : String) :
    Ended sqlMarks (s ++ t).toList := by
  rw [String.toList_append]
  exact h.1.append h.2 _

theorem Fixed.append {s t : String} (hs : Fixed s) (ht : Fixed t) : Fixed (s ++ t) := by
  rw [Fixed, String.toList_append]
  exact Holes.Plain.append hs ht

/-- An escaped identifier names no parameter, whatever is in it. -/
theorem fixed_escapeIdent (name : String) : Fixed (escapeIdent name) := by
  rw [Fixed, escapeIdent_toList]
  exact @Holes.plain_quoted sqlMarks name.toList

theorem fixed_toString (n : Nat) : Fixed (toString n) := by
  refine Holes.plain_of_ordinary fun c hc => ?_
  rw [Nat.toString_eq_ofList_toDigits, String.toList_ofList] at hc
  have hdigit := Nat.isDigit_of_mem_toDigits (by decide) (by decide) hc
  constructor <;> (intro h; subst h; exact absurd hdigit (by decide))

theorem fixed_columnRef (r : ColumnRef) : Fixed r.text := by
  cases r with
  | key => decide
  | keyElem pos =>
      have hopen : Fixed "record::id(id)[" := by decide
      have hclose : Fixed "]" := by decide
      exact (hopen.append (fixed_toString pos)).append hclose
  | field name => exact fixed_escapeIdent name
  | id => decide

theorem breaks_op (o : Op) : Breaks o.text := by cases o <;> decide

theorem fixed_op (o : Op) : Fixed o.text := by cases o <;> decide

/-- The name of the `i`th parameter. -/
def paramName (i : Nat) : String := "p" ++ toString i

theorem paramName_word (i : Nat) : ∀ c ∈ (paramName i).toList, sqlMarks.word c = true := by
  intro c hc
  rw [paramName, String.toList_append, List.mem_append] at hc
  rcases hc with hc | hc
  · have hp : c = 'p' := by simpa using hc
    subst hp
    decide
  · rw [Nat.toString_eq_ofList_toDigits, String.toList_ofList] at hc
    have hdigit := Nat.isDigit_of_mem_toDigits (by decide) (by decide) hc
    simp [sqlMarks, Char.isAlphanum, hdigit]

/-! ## Layouts -/

/-- A text with values in their places, the values it binds, in order, and what each base
it drops would have bound. -/
@[ext] structure Layout where
  places : List (Piece SurValue)
  literals : List SurValue
  strays : List (List SurValue)

namespace Layout

def text (s : String) : Layout := ⟨chars s.toList, [], []⟩

def value (v : SurValue) : Layout := ⟨[.hole v], [v], []⟩

instance : Append Layout :=
  ⟨fun l l' => ⟨l.places ++ l'.places, l.literals ++ l'.literals, l.strays ++ l'.strays⟩⟩

/-- A text written once more. -/
def again (l : Layout) : Layout := { l with literals := [] }

/-- Two texts around an operator, of which the second was bound first. -/
def swapped (o : Op) (l l' : Layout) : Layout :=
  ⟨l'.places ++ chars o.text.toList ++ l.places, l.literals ++ l'.literals, l.strays ++ l'.strays⟩

/-- A text whose parameters are dropped. -/
def dropped (l : Layout) : Layout := ⟨l.places, [], l.literals :: l.strays⟩

/-- Texts with one between each two. -/
def join (sep : String) : List Layout → Layout
  | [] => text ""
  | [l] => l
  | l :: l' :: rest => l ++ text sep ++ join sep (l' :: rest)

/-- A text between two others. -/
def enclosed (before : String) (l : Layout) (after : String) : Layout :=
  text before ++ l ++ text after

end Layout

/-- What every base that is dropped would have bound, the statement does bind, under the
same names. -/
def Layout.Settled (l : Layout) : Prop := ∀ stray ∈ l.strays, stray <+: l.literals

section

variable [Sdk]

/-- A list literal is an array of its items. -/
def valueLayout (v : Value) (storageTy : Option DbType) : Layout :=
  match v with
  | .list items =>
      .enclosed "[" (.join ", " (items.map fun item => .value (literal item storageTy))) "]"
  | v => .value (literal v storageTy)

/-- A path into a column, or into another base that can be rendered. -/
def pathLayout (table : Table) (base : Expr) (path : List String) (l : Layout) : Layout :=
  match base with
  | .reference column => .text ((columnRef table column).text ++ pathText path)
  | _ =>
      match renderWithStorage table .empty base none with
      | .ok _ => l.dropped ++ .text (pathText path)
      | .error _ => .text ("id" ++ pathText path)

mutual

/-- The text of an expression, its literals in place. -/
def layout (table : Table) (expr : Expr) (storageTy : Option DbType) : Layout :=
  match expr with
  | .binaryOp op lhs rhs => layout table lhs (expressionStorageTy rhs) ++ .text op.sym.text ++
      layout table rhs (expressionStorageTy lhs)
  | .and operands => .enclosed "(" (.join (Op.text .and) (layouts table operands none)) ")"
  | .or operands => .enclosed "(" (.join (Op.text .or) (layouts table operands none)) ")"
  | .not expr => .enclosed "!(" (layout table expr none) ")"
  | .isNull (.reference column) => .text ((columnRef table column).text ++ " IS NONE")
  | .isNull (.jsonExtract base path) =>
      pathLayout table base path (layout table base none) ++ .text " IS NONE"
  | .isNull expr => layout table expr none ++ .text " IS NONE"
  | .between expr low high =>
      let target := layout table expr none
      .enclosed "(" (target ++ .text (Op.text .ge) ++ layout table low (expressionStorageTy expr) ++
        .text (Op.text .and) ++ target.again ++ .text (Op.text .le) ++
        layout table high (expressionStorageTy expr)) ")"
  | .inList expr list => layout table expr none ++ .text (Op.text .inOp) ++
      layout table list (expressionStorageTy expr)
  | .anyOp _ lhs rhs =>
      .swapped .contains (layout table lhs (expressionStorageTy rhs)) (layout table rhs none)
  | .isSuperset lhs rhs =>
      layout table lhs (expressionStorageTy rhs) ++ .text (Op.text .containsAll) ++
      layout table rhs (expressionStorageTy lhs)
  | .intersects lhs rhs =>
      layout table lhs (expressionStorageTy rhs) ++ .text (Op.text .containsAny) ++
      layout table rhs (expressionStorageTy lhs)
  | .length expr => .enclosed "array::len(" (layout table expr none) ")"
  | .startsWith expr start =>
      let target := layout table expr none
      .enclosed "(" (target ++ .text " IS NOT NONE AND string::starts_with(" ++ target.again ++
        .text ", " ++ layout table start (expressionStorageTy expr)) "))"
  | .jsonExtract base path => pathLayout table base path (layout table base none)
  | .reference column =>
      if column.ty = .bool then .text ((columnRef table column).text ++ " = true")
      else .text (columnRef table column).text
  | .value v => valueLayout v storageTy
  | .list items => .enclosed "[" (.join ", " (layouts table items storageTy)) "]"
  | .other _ => .text ""
termination_by structural expr

def layouts (table : Table) (exprs : List Expr) (storageTy : Option DbType) : List Layout :=
  match exprs with
  | [] => []
  | e :: es => layout table e storageTy :: layouts table es storageTy
termination_by structural exprs

end

end

end ToastySurreal
