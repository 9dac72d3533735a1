import ToastySurreal.Proof.Identifiers

/-!
# Migration texts that are read back

A migration is sent as texts, and a database reads each of them before it does what it says.
`readStatement` is such a reader for the statements a migration is made of: the lexemes of a
text, and from them the statement. It reads every generated statement back as itself
(`readStatement_text`), as long as its names are what `escape_ident` is for.
-/

namespace ToastySurreal

open Lexing (Lexeme)

/-! ## From lexemes to a statement -/

/-- `IF NOT EXISTS`, where it is written. -/
def readIfNotExists : List Lexeme → Bool × List Lexeme
  | .word "IF" :: .word "NOT" :: .word "EXISTS" :: ls => (true, ls)
  | ls => (false, ls)

/-- Names with commas between them, and what comes after them. -/
def readNames : List Lexeme → Option (List String × List Lexeme)
  | .quoted .name name :: .symbol ',' :: ls => (readNames ls).map fun r => (name :: r.1, r.2)
  | .quoted .name name :: ls => some ([name], ls)
  | _ => none

/-- The reason of a guard. -/
def readReason (text : String) : Option String :=
  let lead := "manual migration required: "
  if lead.toList <+: text.toList then some
    (String.ofList (text.toList.drop lead.toList.length)) else none

def parseDefineTable (ls : List Lexeme) : Option Statement :=
  match readIfNotExists ls with
  | (ifNotExists, [.quoted .name table, .word "SCHEMALESS"]) =>
      some (.defineTable table ifNotExists)
  | _ => none

def parseDefineIndex (ls : List Lexeme) : Option Statement :=
  match readIfNotExists ls with
  | (ifNotExists, .quoted .name index :: .word "ON" :: .word "TABLE" :: .quoted .name table ::
      .word "COLUMNS" :: ls) =>
      match readNames ls with
      | some (columns, []) => some (.defineIndex index table columns false ifNotExists)
      | some (columns, [.word "UNIQUE"]) => some (.defineIndex index table columns true ifNotExists)
      | _ => none
  | _ => none

def parseUpdate : List Lexeme → Option Statement
  | [.quoted .name table, .word "SET", .quoted .name next, .symbol '=', .quoted .name previous,
      .word "WHERE", .quoted .name previous', .word "IS", .word "NOT", .word "NONE", .word "RETURN",
      .word "NONE"] =>
      if previous' = previous then some (.updateSet table next previous) else none
  | [.quoted .name table, .word "UNSET", .quoted .name column, .word "RETURN", .word "NONE"] =>
      some (.updateUnset table column)
  | _ => none

/-- The statement that is written so. -/
def parseStatement : List Lexeme → Option Statement
  | .word "DEFINE" :: .word "TABLE" :: ls => parseDefineTable ls
  | .word "DEFINE" :: .word "INDEX" :: ls => parseDefineIndex ls
  | [.word "REMOVE", .word "TABLE", .quoted .name table] => some (.removeTable table)
  | [.word "REMOVE", .word "INDEX", .quoted .name index, .word "ON", .word "TABLE",
      .quoted .name table] =>
      some (.removeIndex index table)
  | .word "UPDATE" :: ls => parseUpdate ls
  | [.word "THROW", .quoted .text text] => (readReason text).map .throw
  | [.word "RETURN", .word "NONE"] => some .returnNone
  | _ => none

/-- The statement a text is read as. -/
def readStatement (others : Char → List Char) (text : String) : Option Statement :=
  (lexSql others text).bind parseStatement

/-! ## Generated statements -/

theorem readIfNotExists_words (b : Bool) {l : Lexeme} {ls : List Lexeme} (h : ∀ s, l ≠ .word s) :
    readIfNotExists (words (if b then ["IF", "NOT", "EXISTS"] else []) ++ l :: ls) =
    (b, l :: ls) := by
  cases b with
  | true => rfl
  | false =>
      cases l with
      | word s => exact absurd rfl (h s)
      | quoted q s => rfl
      | symbol c => rfl

/-- Names are read up to what is no comma. -/
theorem readNames_nameList {rest : List Lexeme} (h : rest.head? ≠ some (.symbol ',')) :
    ∀ {names : List String}, names ≠ [] → readNames (nameList names ++ rest) = some (names, rest)
  | [], hne => absurd rfl hne
  | [name], _ => by
      cases rest with
      | nil => rfl
      | cons l ls =>
          cases l with
          | word s => rfl
          | quoted q s => rfl
          | symbol c =>
              have hc : c ≠ ',' := fun hc => h (by rw [hc]; rfl)
              simp [nameList, readNames, hc]
  | name :: next :: names, _ => by
      have ih : readNames (nameList (next :: names) ++ rest) = some (next :: names, rest) :=
        readNames_nameList h (List.cons_ne_nil _ _)
      change (readNames (nameList (next :: names) ++ rest)).map _ = _
      rw [ih]
      rfl

theorem readReason_append (reason : String) :
    readReason ("manual migration required: " ++ reason) = some reason := by
  have htext : ("manual migration required: " ++ reason).toList =
      "manual migration required: ".toList ++ reason.toList := String.toList_append
  rw [readReason, htext]
  simp

/-- Without a special character in a name, with a column in every index, and without data of a
column called `id`: in a record that is the record id. -/
def Statement.Legible (s : Statement) : Prop :=
  (∀ n ∈ s.names, CleanName n) ∧
    match s with
    | .defineIndex _ _ columns _ _ => columns ≠ []
    | .updateSet _ next previous => next ≠ "id" ∧ previous ≠ "id"
    | .updateUnset _ column => column ≠ "id"
    | _ => True

instance (s : Statement) : Decidable s.Legible := by
  unfold Statement.Legible
  cases s <;> infer_instance

/-- What a statement is meant to be read as is read as the statement. -/
theorem parseStatement_lexemes {s : Statement} (h : s.Legible) :
    parseStatement s.lexemes = some s := by
  cases s with
  | defineTable table ifNotExists => cases ifNotExists <;> rfl
  | removeTable table => rfl
  | defineIndex index table columns unique ifNotExists =>
      have hnames : ∀ rest, rest.head? ≠ some (.symbol ',') →
          readNames (nameList columns ++ rest) = some (columns, rest) :=
        fun rest hrest => readNames_nameList hrest h.2
      have hindex : ∀ b, parseDefineIndex (words (if b then ["IF", "NOT", "EXISTS"] else []) ++
          .quoted .name index ::
          (words ["ON", "TABLE"] ++ .quoted .name table :: (words ["COLUMNS"] ++
            (nameList columns ++ words (if unique then ["UNIQUE"] else []))))) =
          some (.defineIndex index table columns unique b) := by
        intro b
        rw [parseDefineIndex, readIfNotExists_words b (fun _ => Lexeme.noConfusion)]
        cases unique with
        | false =>
            have hread := hnames [] (by simp)
            rw [List.append_nil] at hread
            simp [words, hread]
        | true =>
            have hread := hnames [.word "UNIQUE"] (by simp)
            simp [words, hread]
      cases ifNotExists with
      | false => exact hindex false
      | true => exact hindex true
  | removeIndex index table => rfl
  | updateSet table next previous => exact if_pos rfl
  | updateUnset table column => rfl
  | throw reason =>
      change (readReason ("manual migration required: " ++ reason)).map _ = _
      rw [readReason_append]
      rfl
  | returnNone => rfl

/-- **A generated statement is read back** from its text. -/
theorem readStatement_text (others : Char → List Char) {s : Statement} (h : s.Legible) :
    readStatement others s.text = some s := by
  rw [readStatement, (reads_statement s).mpr h.1]
  exact parseStatement_lexemes h

example : readStatement (fun c => [c])
    "DEFINE INDEX `by_name` ON TABLE `items` COLUMNS `name`, `size` UNIQUE" =
    some (.defineIndex "by_name" "items" ["name", "size"] true false) := by decide

end ToastySurreal
