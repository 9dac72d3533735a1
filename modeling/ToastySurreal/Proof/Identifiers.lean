import ToastySurreal.Migration
import ToastySurreal.Lib.Lexing
import ToastySurreal.Proof.Placeholders

/-!
# Names and texts in statements

`escape_ident` doubles the backticks of a name. SurrealQL reads a name up to the first
backtick that is not escaped, and a backslash escapes: a doubled backtick is the end of one
name and the start of another, and a backslash is lost. `names_read_back_iff` says that a name,
a generated statement and a path into a document are read as they are meant just if their
names have neither. The text of a guard escapes both of its special characters, so it is read
back whatever its reason is: `guard_text_read`.
-/

namespace ToastySurreal

open Lexing (Lexeme Whole)

/-! ## Reading SurrealQL -/

/-- Names and texts of SurrealQL. In a text the quote and the backslash stand for themselves
behind a backslash; `others` is what the other characters stand for there. -/
def sqlLexer (others : Char → List Char) : Lexing.Marks where
  mark
    | .name => backtick
    | .text => '\''
  escape := '\\'
  word c := c.isAlphanum || c = '_'
  space c := c.isWhitespace
  unescape
    | .name, c => [c]
    | .text, c => if c = '\'' ∨ c = '\\' then [c] else others c
  differ := by decide
  escape_ne q := by cases q <;> decide
  unescape_mark q := by cases q <;> simp
  unescape_escape q := by cases q <;> simp

variable (others : Char → List Char)

/-- The lexemes of a text. -/
def lexSql (text : String) : Option (List Lexeme) := Lexing.lex (sqlLexer others) text.toList

/-- The name in backticks that a text starts with, and what is left of the text. -/
def nameToken (text : String) : Option (String × String) :=
  match text.toList with
  | [] => none
  | c :: cs =>
      if c = backtick then
        (Lexing.quotation (sqlLexer others) .name cs).map fun r =>
        (String.ofList r.1, String.ofList r.2)
      else none

/-- A name without backticks and backslashes. -/
def CleanName (name : String) : Prop := backtick ∉ name.toList ∧ '\\' ∉ name.toList

instance (name : String) : Decidable (CleanName name) := inferInstanceAs (Decidable (_ ∧ _))

theorem cleanName_iff {name : String} :
    CleanName name ↔ Lexing.Clean (sqlLexer others) .name name.toList := by
  constructor
  · intro h c hc
    refine ⟨fun he => ?_, fun he => ?_⟩
    · rw [he] at hc
      exact h.1 hc
    · rw [he] at hc
      exact h.2 hc
  · intro h
    exact ⟨fun hc => (h _ hc).1 rfl, fun hc => (h _ hc).2 rfl⟩

/-- `escape_ident` doubles the marks of names. -/
theorem escapeIdent_append (name rest : String) : (escapeIdent name ++ rest).toList =
    backtick :: (Lexing.doubled (sqlLexer others) .name name.toList ++ backtick ::
      rest.toList) := by
  have hdoubled : Lexing.doubled (sqlLexer others) .name name.toList = doubled name.toList := by
    refine List.flatMap_congr fun c _ => ?_
    by_cases hc : c = backtick
    · rw [hc]
      rfl
    · rw [if_neg hc]
      exact if_neg hc
  rw [String.toList_append, escapeIdent_toList, List.cons_append, List.append_assoc, hdoubled]
  rfl

variable {others}

theorem reads_fixed {text : String} {ls : List Lexeme} (h : Whole (sqlLexer others) text.toList ls)
    {rest : String} {ks : List Lexeme} :
    lexSql others (text ++ rest) = some (ls ++ ks) ↔ lexSql others rest = some ks := by
  rw [lexSql, String.toList_append]
  exact h.lex_append_iff

theorem reads_name {name rest : String} {ks : List Lexeme} :
    lexSql others (escapeIdent name ++ rest) = some (.quoted .name name :: ks) ↔
      CleanName name ∧ lexSql others rest = some ks := by
  have hu : ∀ c, (sqlLexer others).unescape .name c = [c] := fun _ => rfl
  rw [lexSql, lexSql, escapeIdent_append others, cleanName_iff others, ← Lexing.lex_doubled_iff hu,
    String.ofList_toList]
  rfl

theorem reads_last_name {name : String} :
    lexSql others (escapeIdent name) = some [.quoted .name name] ↔ CleanName name := by
  have h : lexSql others (escapeIdent name ++ "") = some [.quoted .name name] ↔
      CleanName name ∧ lexSql others "" = some [] := reads_name
  rw [String.append_empty] at h
  rw [h]
  exact and_iff_left rfl

/-! ## Generated statements -/

def words (ws : List String) : List Lexeme := ws.map .word

/-- Names with commas between them. -/
def nameList : List String → List Lexeme
  | [] => []
  | [name] => [.quoted .name name]
  | name :: names => .quoted .name name :: .symbol ',' :: nameList names

/-- What a statement is meant to be read as. -/
def Statement.lexemes : Statement → List Lexeme
  | .defineTable table ifNotExists =>
      words (if ifNotExists then
        ["DEFINE", "TABLE", "IF", "NOT", "EXISTS"] else ["DEFINE", "TABLE"]) ++
        .quoted .name table :: words ["SCHEMALESS"]
  | .removeTable table => words ["REMOVE", "TABLE"] ++ [.quoted .name table]
  | .defineIndex index table columns unique ifNotExists =>
      words (if ifNotExists then
        ["DEFINE", "INDEX", "IF", "NOT", "EXISTS"] else ["DEFINE", "INDEX"]) ++
        .quoted .name index ::
        (words ["ON", "TABLE"] ++ .quoted .name table :: (words ["COLUMNS"] ++
          (nameList columns ++ words (if unique then ["UNIQUE"] else []))))
  | .removeIndex index table =>
      words ["REMOVE", "INDEX"] ++ .quoted .name index ::
        (words ["ON", "TABLE"] ++ [.quoted .name table])
  | .updateSet table next previous =>
      words ["UPDATE"] ++ .quoted .name table :: (words ["SET"] ++ .quoted .name next ::
        ([.symbol '='] ++ .quoted .name previous :: (words ["WHERE"] ++ .quoted .name previous ::
          words ["IS", "NOT", "NONE", "RETURN", "NONE"])))
  | .updateUnset table column =>
      words ["UPDATE"] ++ .quoted .name table :: (words ["UNSET"] ++ .quoted .name column ::
        words ["RETURN", "NONE"])
  | .throw reason => words ["THROW"] ++ [.quoted .text ("manual migration required: " ++ reason)]
  | .returnNone => words ["RETURN", "NONE"]

/-- The names a statement puts through `escape_ident`. -/
def Statement.names : Statement → List String
  | .defineTable table _ | .removeTable table => [table]
  | .defineIndex index table columns _ _ => index :: table :: columns
  | .removeIndex index table => [index, table]
  | .updateSet table next previous => [table, next, previous]
  | .updateUnset table column => [table, column]
  | .throw _ | .returnNone => []

theorem reads_identList {rest : String} {ks : List Lexeme} : ∀ {names : List String},
    lexSql others (identList names ++ rest) = some (nameList names ++ ks) ↔
      (∀ n ∈ names, CleanName n) ∧ lexSql others rest = some ks
  | [] => by
      have hnil : identList [] ++ rest = rest := String.empty_append
      rw [hnil]
      simp [nameList]
  | [name] => by
      have hone : identList [name] = escapeIdent name := rfl
      rw [hone, nameList, List.cons_append, List.nil_append, reads_name]
      simp
  | name :: next :: names => by
      have ih : lexSql others (identList (next :: names) ++ rest) =
          some (nameList (next :: names) ++ ks) ↔
          (∀ n ∈ next :: names, CleanName n) ∧ lexSql others rest = some ks := reads_identList
      have htail : identTail (next :: names) rest = ", " ++ (identList (next :: names) ++ rest) :=
        String.append_assoc
      have hcomma : Whole (sqlLexer others) ", ".toList [.symbol ','] := rfl
      have hlist : nameList (name :: next :: names) ++ ks =
          .quoted .name name :: ([.symbol ','] ++ (nameList (next :: names) ++ ks)) := rfl
      rw [identList_cons, htail, hlist, reads_name, reads_fixed hcomma, ih]
      simp [and_assoc]

/-! ## The text of a guard -/

theorem replaceChar_toList (c : Char) (by_ s : String) :
    (replaceChar c by_ s).toList = s.toList.flatMap fun d => if d = c then by_.toList else [d] :=
  String.toList_ofList

variable (others) in
/-- The two replacements of `manual_guard` escape every quote and every backslash. -/
theorem escapeQuoted_toList (reason : String) :
    (escapeQuoted reason).toList = Lexing.escaped (sqlLexer others) .text reason.toList := by
  rw [escapeQuoted, replaceChar_toList, replaceChar_toList, List.flatMap_assoc]
  refine List.flatMap_congr fun c _ => ?_
  by_cases hescape : c = '\\'
  · subst hescape
    rfl
  · by_cases hquote : c = '\''
    · subst hquote
      rfl
    · have hother : ¬(c = (sqlLexer others).mark .text ∨ c = (sqlLexer others).escape) :=
        fun h => h.elim hquote hescape
      rw [if_neg hescape, if_neg hother]
      simp [hquote]

theorem toList_enclosed (before text after : String) :
    (before ++ text ++ after).toList = before.toList ++ (text.toList ++ after.toList) := by
  rw [String.toList_append, String.toList_append, List.append_assoc]

/-- A guard is a keyword and a text, whatever comes next. -/
theorem whole_guard (reason : String) :
    Whole (sqlLexer others) (Statement.throw reason).text.toList
    (Statement.throw reason).lexemes := by
  have hlead : "THROW 'manual migration required: ".toList = "THROW ".toList ++
      '\'' :: Lexing.escaped (sqlLexer others) .text "manual migration required: ".toList := rfl
  have hmessage : Lexing.escaped (sqlLexer others) .text
      ("manual migration required: " ++ reason).toList =
      Lexing.escaped (sqlLexer others) .text "manual migration required: ".toList ++
        Lexing.escaped (sqlLexer others) .text reason.toList := by
    rw [Lexing.escaped, String.toList_append]
    exact List.flatMap_append
  have htext : (Statement.throw reason).text.toList = "THROW ".toList ++ '\'' ::
      (Lexing.escaped (sqlLexer others) .text ("manual migration required: " ++ reason).toList ++
        ['\'']) := by
    refine (toList_enclosed _ _ _).trans ?_
    rw [hlead, hmessage, escapeQuoted_toList others, List.append_assoc, List.append_assoc]
    rfl
  have hthrow : Whole (sqlLexer others) "THROW ".toList (words ["THROW"]) := rfl
  have hquoted : Whole (sqlLexer others)
      ('\'' :: (Lexing.escaped (sqlLexer others) .text
        ("manual migration required: " ++ reason).toList ++ ['\'']))
      [.quoted .text ("manual migration required: " ++ reason)] := by
    have h := Lexing.whole_quotation
      (Lexing.quotation_escaped (m := sqlLexer others) (q := .text) []
      ("manual migration required: " ++ reason).toList)
    rw [String.ofList_toList] at h
    exact h
  rw [htext]
  exact hthrow.append hquoted

variable (others) in
/-- **The text of a guard** is the keyword and one text that is read as the reason, for every
reason. -/
theorem guard_text_read (reason : String) : lexSql others (Statement.throw reason).text =
    some [.word "THROW", .quoted .text ("manual migration required: " ++ reason)] :=
  (whole_guard reason).lex

/-! ## Statements -/

theorem reads_statement (s : Statement) :
    lexSql others s.text = some s.lexemes ↔ ∀ n ∈ s.names, CleanName n := by
  cases s with
  | defineTable table ifNotExists =>
      have hfront : Whole (sqlLexer others)
          ("DEFINE TABLE" ++ ifNotExistsText ifNotExists ++ " ").toList
          (words (if ifNotExists then
            ["DEFINE", "TABLE", "IF", "NOT", "EXISTS"] else ["DEFINE", "TABLE"])) := by
        cases ifNotExists with
        | false => rfl
        | true => rfl
      have hlast : lexSql others " SCHEMALESS" = some (words ["SCHEMALESS"]) := rfl
      change lexSql others
        ("DEFINE TABLE" ++ ifNotExistsText ifNotExists ++ " " ++ escapeIdent table ++
        " SCHEMALESS") = _ ↔ _
      -- fixed text reads as its words; a name reads as itself exactly when it is clean
      rw [String.append_assoc, Statement.lexemes, reads_fixed hfront, reads_name, hlast]
      simp [Statement.names]
  | removeTable table =>
      have hfront : Whole (sqlLexer others) "REMOVE TABLE ".toList (words ["REMOVE", "TABLE"]) :=
        rfl
      change lexSql others ("REMOVE TABLE " ++ escapeIdent table) = _ ↔ _
      rw [Statement.lexemes, reads_fixed hfront, reads_last_name]
      simp [Statement.names]
  | defineIndex index table columns unique ifNotExists =>
      have hfront : Whole (sqlLexer others)
          ("DEFINE INDEX" ++ ifNotExistsText ifNotExists ++ " ").toList
          (words (if ifNotExists then
            ["DEFINE", "INDEX", "IF", "NOT", "EXISTS"] else ["DEFINE", "INDEX"])) := by
        cases ifNotExists with
        | false => rfl
        | true => rfl
      have hon : Whole (sqlLexer others) " ON TABLE ".toList (words ["ON", "TABLE"]) := rfl
      have hcolumns : Whole (sqlLexer others) " COLUMNS ".toList (words ["COLUMNS"]) := rfl
      have hlast : lexSql others (if unique then " UNIQUE" else "") =
          some (words (if unique then ["UNIQUE"] else [])) := by
        cases unique with
        | false => rfl
        | true => rfl
      change lexSql others
        ("DEFINE INDEX" ++ ifNotExistsText ifNotExists ++ " " ++ (escapeIdent index ++
        (" ON TABLE " ++ (escapeIdent table ++ (" COLUMNS " ++ (identList columns ++
          if unique then " UNIQUE" else "")))))) = _ ↔ _
      rw [Statement.lexemes, reads_fixed hfront, reads_name, reads_fixed hon, reads_name,
        reads_fixed hcolumns, reads_identList, hlast]
      simp [Statement.names]
  | removeIndex index table =>
      have hfront : Whole (sqlLexer others) "REMOVE INDEX ".toList (words ["REMOVE", "INDEX"]) :=
        rfl
      have hon : Whole (sqlLexer others) " ON TABLE ".toList (words ["ON", "TABLE"]) := rfl
      change lexSql others
        ("REMOVE INDEX " ++ (escapeIdent index ++ (" ON TABLE " ++ escapeIdent table))) = _ ↔ _
      rw [Statement.lexemes, reads_fixed hfront, reads_name, reads_fixed hon, reads_last_name]
      simp [Statement.names]
  | updateSet table next previous =>
      have hfront : Whole (sqlLexer others) "UPDATE ".toList (words ["UPDATE"]) := rfl
      have hset : Whole (sqlLexer others) " SET ".toList (words ["SET"]) := rfl
      have heq : Whole (sqlLexer others) " = ".toList [.symbol '='] := rfl
      have hwhere : Whole (sqlLexer others) " WHERE ".toList (words ["WHERE"]) := rfl
      have hlast : lexSql others " IS NOT NONE RETURN NONE" =
        some (words ["IS", "NOT", "NONE", "RETURN", "NONE"]) := rfl
      change lexSql others
        ("UPDATE " ++ escapeIdent table ++ " SET " ++ escapeIdent next ++ " = " ++
        escapeIdent previous ++ " WHERE " ++ escapeIdent previous ++ " IS NOT NONE RETURN NONE") =
        _ ↔ _
      rw [String.append_assoc, String.append_assoc, String.append_assoc, String.append_assoc,
        String.append_assoc, String.append_assoc, String.append_assoc, Statement.lexemes,
        reads_fixed hfront,
        reads_name, reads_fixed hset, reads_name, reads_fixed heq, reads_name, reads_fixed hwhere,
        reads_name, hlast]
      simp [Statement.names]
  | updateUnset table column =>
      have hfront : Whole (sqlLexer others) "UPDATE ".toList (words ["UPDATE"]) := rfl
      have hunset : Whole (sqlLexer others) " UNSET ".toList (words ["UNSET"]) := rfl
      have hlast : lexSql others " RETURN NONE" = some (words ["RETURN", "NONE"]) := rfl
      change lexSql others ("UPDATE " ++ escapeIdent table ++ " UNSET " ++ escapeIdent column ++
        " RETURN NONE") = _ ↔ _
      rw [String.append_assoc, String.append_assoc, String.append_assoc, Statement.lexemes,
        reads_fixed hfront, reads_name, reads_fixed hunset, reads_name, hlast]
      simp [Statement.names]
  | throw reason =>
      -- a guard writes its reason as a string and names nothing
      have h : lexSql others (Statement.throw reason).text =
          some (Statement.throw reason).lexemes :=
        (whole_guard reason).lex
      simp [h, Statement.names]
  | returnNone =>
      have h : lexSql others Statement.returnNone.text = some Statement.returnNone.lexemes := rfl
      simp [h, Statement.names]

/-! ## Paths into documents -/

/-- What a column reference is meant to be read as. -/
def ColumnRef.lexemes : ColumnRef → List Lexeme
  | .key => keyLexemes
  | .keyElem pos => keyLexemes ++ [.symbol '[', .word (toString pos), .symbol ']']
  | .field name => [.quoted .name name]
  | .id => words ["id"]
where
  keyLexemes := [.word "record", .symbol ':', .symbol ':', .word "id",
    .symbol '(', .word "id", .symbol ')']

def ColumnRef.names : ColumnRef → List String
  | .field name => [name]
  | _ => []

/-- The segments of a path, each behind a dot. -/
def segmentLexemes (path : List String) : List Lexeme :=
  path.flatMap fun segment => [.symbol '.', .quoted .name segment]

/-- A path into a document that starts at a column. -/
inductive DocPath where
  | column (c : Column)
  | into (base : DocPath) (path : List String)

namespace DocPath

def expr : DocPath → Expr
  | .column c => .reference c
  | .into base path => .jsonExtract base.expr path

def root : DocPath → Column
  | .column c => c
  | .into base _ => base.root

def segments : DocPath → List String
  | .column _ => []
  | .into base path => base.segments ++ path

end DocPath

variable (others) in
theorem plainStep_digit {c : Char} (h : c.isDigit = true) :
    Lexing.plainStep (sqlLexer others) c = ([], .word [c]) := by
  have hname : c ≠ backtick := by
    intro he
    rw [he] at h
    exact absurd h (by decide)
  have htext : c ≠ '\'' := by
    intro he
    rw [he] at h
    exact absurd h (by decide)
  simp [Lexing.plainStep, sqlLexer, hname, htext, Char.isAlphanum, h]

/-- The position of a key column is one word. -/
theorem whole_position (pos : Nat) : Whole (sqlLexer others) (toString pos ++ "]").toList
    [.word (toString pos), .symbol ']'] := by
  have hdigits : ∀ c ∈ (toString pos).toList, c.isDigit = true := by
    intro c hc
    rw [Nat.toString_eq_ofList_toDigits, String.toList_ofList] at hc
    exact Nat.isDigit_of_mem_toDigits (by decide) (by decide) hc
  cases hlist : (toString pos).toList with
  | nil =>
      rw [Nat.toString_eq_ofList_toDigits, String.toList_ofList] at hlist
      exact absurd hlist Nat.toDigits_ne_nil
  | cons c cs =>
      rw [hlist] at hdigits
      have hstring : toString pos = String.ofList (c :: cs) := by rw [← hlist, String.ofList_toList]
      have hfirst := plainStep_digit others (hdigits c List.mem_cons_self)
      have hrest : ∀ e ∈ cs, (sqlLexer others).word e = true := by
        intro e he
        simp [sqlLexer, Char.isAlphanum, hdigits e (List.mem_cons_of_mem c he)]
      have hword : Whole (sqlLexer others) (c :: (cs ++ [']']))
          [.word (String.ofList (c :: cs)), .symbol ']'] :=
        Lexing.whole_word hfirst hrest rfl rfl
      rw [String.toList_append, hlist, hstring]
      exact hword

theorem reads_ref (table : Table) (column : Column) {rest : String} {ks : List Lexeme} :
    lexSql others ((columnRef table column).text ++ rest) =
    some ((columnRef table column).lexemes ++ ks) ↔
      (∀ n ∈ (columnRef table column).names, CleanName n) ∧ lexSql others rest = some ks := by
  have hkey : Whole (sqlLexer others) "record::id(id)".toList ColumnRef.lexemes.keyLexemes := rfl
  rw [columnRef]
  by_cases hpk : isPrimaryKey table column = true
  · rw [if_pos hpk]
    by_cases hone : table.primaryKey.length ≤ 1
    · rw [if_pos hone]
      refine (reads_fixed hkey).trans ?_
      simp [ColumnRef.names]
    · rw [if_neg hone]
      generalize (table.primaryKey.idxOf? column.id).getD 0 = pos
      have hopen : Whole (sqlLexer others) "record::id(id)[".toList
          (ColumnRef.lexemes.keyLexemes ++ [.symbol '[']) :=
        rfl
      have hlist : (ColumnRef.keyElem pos).lexemes ++ ks = ColumnRef.lexemes.keyLexemes ++
          [.symbol '['] ++
          ([.word (toString pos), .symbol ']'] ++ ks) := by simp [ColumnRef.lexemes]
      change lexSql others ("record::id(id)[" ++ toString pos ++ "]" ++ rest) = _ ↔ _
      rw [hlist, String.append_assoc, String.append_assoc, reads_fixed hopen, ← String.append_assoc,
        reads_fixed (whole_position pos)]
      simp [ColumnRef.names]
  · rw [if_neg hpk]
    refine reads_name.trans ?_
    simp [ColumnRef.names]

theorem reads_path {rest : String} {ks : List Lexeme} : ∀ {path : List String},
    lexSql others (pathText path ++ rest) = some (segmentLexemes path ++ ks) ↔
      (∀ n ∈ path, CleanName n) ∧ lexSql others rest = some ks
  | [] => by
      have hnil : pathText [] ++ rest = rest := String.empty_append
      rw [hnil]
      simp [segmentLexemes]
  | segment :: path => by
      have ih : lexSql others (pathText path ++ rest) = some (segmentLexemes path ++ ks) ↔
          (∀ n ∈ path, CleanName n) ∧ lexSql others rest = some ks := reads_path
      have hdot : Whole (sqlLexer others) ".".toList [.symbol '.'] := rfl
      have hlist : segmentLexemes (segment :: path) ++ ks =
          [.symbol '.'] ++ .quoted .name segment :: (segmentLexemes path ++ ks) := rfl
      rw [pathText_cons, String.append_assoc, String.append_assoc, hlist, reads_fixed hdot,
        reads_name, ih]
      simp [and_assoc]

theorem pathText_append : ∀ path path' :
    List String, pathText (path ++ path') = pathText path ++ pathText path'
  | [], path' => String.empty_append.symm
  | segment :: path, path' => by
      rw [List.cons_append, pathText_cons, pathText_cons, pathText_append path path',
        String.append_assoc, String.append_assoc]

variable [Sdk]

/-- A path into a document is its column and its segments. -/
theorem docPath_text (table : Table) : ∀ (doc : DocPath) (path : List String),
    tokensText (documentPath table doc.expr (renderWithStorage table .empty doc.expr none) path) =
      (columnRef table doc.root).text ++ pathText (doc.segments ++ path)
  | .column c, path => tokensText_single _
  | .into base path', path => by
      have ih := docPath_text table base path'
      have htext : tokensText (documentPath table (DocPath.into base path').expr
          (renderWithStorage table .empty (DocPath.into base path').expr none) path) =
          tokensText (documentPath table base.expr
            (renderWithStorage table .empty base.expr none) path') ++
            pathText path := tokensText_single _
      rw [htext, ih, DocPath.root, DocPath.segments, pathText_append, pathText_append,
        pathText_append, String.append_assoc, String.append_assoc]

theorem reads_document (table : Table) (doc : DocPath) (path : List String) :
    lexSql others (tokensText
      (documentPath table doc.expr (renderWithStorage table .empty doc.expr none) path)) =
        some ((columnRef table doc.root).lexemes ++ segmentLexemes (doc.segments ++ path)) ↔
      ∀ n ∈ (columnRef table doc.root).names ++ (doc.segments ++ path), CleanName n := by
  have hpath : lexSql others (pathText (doc.segments ++ path)) =
      some (segmentLexemes (doc.segments ++ path)) ↔ ∀ n ∈ doc.segments ++ path, CleanName n := by
    have h : lexSql others (pathText (doc.segments ++ path) ++ "") =
        some (segmentLexemes (doc.segments ++ path) ++ []) ↔
      (∀ n ∈ doc.segments ++ path, CleanName n) ∧ lexSql others "" = some [] := reads_path
    rw [String.append_empty, List.append_nil] at h
    rw [h]
    exact and_iff_left rfl
  rw [docPath_text, reads_ref, hpath]
  exact List.forall_mem_append.symm

/-! ## Every name -/

omit [Sdk] in
theorem nameToken_iff {name text : String} :
    nameToken others (escapeIdent name ++ text) = some (name, text) ↔ CleanName name := by
  have hu : ∀ c, (sqlLexer others).unescape .name c = [c] := fun _ => rfl
  have htoken : nameToken others (escapeIdent name ++ text) =
      (Lexing.quotation (sqlLexer others) .name
      (Lexing.doubled (sqlLexer others) .name name.toList ++ backtick :: text.toList)).map
        fun r => (String.ofList r.1, String.ofList r.2) := by
    rw [nameToken, escapeIdent_append others]
    rfl
  rw [htoken, cleanName_iff others]
  constructor
  · intro h
    obtain ⟨r, hquoted, hr⟩ := Option.map_eq_some_iff.mp h
    obtain ⟨v, rest⟩ := r
    have hv : v = name.toList := by rw [← (Prod.mk.inj hr).1, String.toList_ofList]
    subst hv
    exact Lexing.clean_of_quotation hu hquoted
  · intro h
    have hquoted : Lexing.quotation (sqlLexer others) .name
        (Lexing.doubled (sqlLexer others) .name name.toList ++ backtick :: text.toList) =
        some (name.toList, text.toList) := Lexing.quotation_clean h
    rw [hquoted, Option.map_some, String.ofList_toList, String.ofList_toList]

variable (others) in
/-- **Names, generated statements and document paths** are read as they are meant just if their
names have no backtick and no backslash. -/
theorem names_read_back_iff :
    (∀ name text : String, nameToken others (escapeIdent name ++ text) = some (name, text) ↔
      CleanName name) ∧
    (∀ schemaDiff, ∀ s ∈ generate schemaDiff,
      lexSql others s.text = some s.lexemes ↔ ∀ n ∈ s.names, CleanName n) ∧
    (∀ table ifNotExists, ∀ s ∈ defineTableStatements table ifNotExists,
      lexSql others s.text = some s.lexemes ↔ ∀ n ∈ s.names, CleanName n) ∧
    ∀ (table : Table) (binds : Binds) (doc : DocPath) (path : List String), ∃ toks,
      render table binds (.jsonExtract doc.expr path) = .ok (toks, binds) ∧
      (lexSql others (tokensText toks) =
          some ((columnRef table doc.root).lexemes ++ segmentLexemes (doc.segments ++ path)) ↔
        ∀ n ∈ (columnRef table doc.root).names ++ (doc.segments ++ path), CleanName n) :=
  ⟨fun _ _ => nameToken_iff, fun _ s _ => reads_statement s, fun _ _ s _ => reads_statement s,
    fun table _ doc path => ⟨_, rfl, reads_document table doc path⟩⟩

omit [Sdk] in
/-- One name becomes two, and a backslash is lost. -/
theorem backtick_splits_name :
    nameToken (fun c => [c]) (escapeIdent "a`b" ++ " SCHEMALESS") = some ("a", "`b` SCHEMALESS") ∧
    lexSql (fun c => [c]) (Statement.defineTable "a`b" false).text =
      some (words ["DEFINE", "TABLE"] ++
        [.quoted .name "a", .quoted .name "b", .word "SCHEMALESS"]) ∧
    nameToken (fun c => [c]) (escapeIdent "a\\b" ++ " SCHEMALESS") =
      some ("ab", " SCHEMALESS") := by
  decide +kernel

end ToastySurreal
