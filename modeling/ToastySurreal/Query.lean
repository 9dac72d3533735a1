import ToastySurreal.Expr
import ToastySurreal.Migration

/-!
# The queries the driver sends

`Query` is one SurrealQL statement with its parameters. `Sql` says what the
statement is, `text` is what `format!` writes for it.
-/

namespace ToastySurreal

/-- `SORT_ALIAS`. -/
def sortAlias : String := "__toasty_sort_key"

/-- `TRACKING_TABLE`. -/
def trackingTable : String := "__toasty_migrations"

/-- `TRACKING_ID_ALIAS`. -/
def trackingIdAlias : String := "migration_id"

/-! ## Projections -/

inductive ProjItem where
  /-- A part of the record id under a column's name. -/
  | key (r : ColumnRef) (name : String)
  | field (name : String)
  deriving DecidableEq, Repr

def ProjItem.text : ProjItem → String
  | .key r name => r.text ++ " AS " ++ escapeIdent name
  | .field name => escapeIdent name

/-- One column of a projection: key columns are read out of the record id. -/
def projectColumn (table : Table) (column : Column) : ProjItem :=
  if isPrimaryKey table column then .key (columnRef table column) column.name
  else .field column.name

/-- `project_columns`. -/
def projectColumns (table : Table) (columns : List Column) : List ProjItem :=
  columns.map (projectColumn table)

def projectionText (items : List ProjItem) : String :=
  if items.isEmpty then "*" else join ", " (items.map ProjItem.text)

/-! ## Assignments -/

/-- The right-hand side of a `SET` clause; parameters go by their names. -/
inductive SetRhs where
  | none
  | param (p : String)
  | plus (p : String)
  | minus (p : String)
  /-- `+=`. -/
  | append (p : String)
  /-- Keep a value, set an absent one. -/
  | orParam (p : String)
  | orPlus (d p : String)
  | orMinus (d p : String)
  | orConcat (d p : String)
  deriving DecidableEq, Repr

structure SetClause where
  name : String
  rhs : SetRhs
  deriving DecidableEq, Repr

def SetClause.text (clause : SetClause) : String :=
  let name := escapeIdent clause.name
  match clause.rhs with
  | .none => name ++ " = NONE"
  | .param p => name ++ " = $" ++ p
  | .plus p => name ++ " = " ++ name ++ " + $" ++ p
  | .minus p => name ++ " = " ++ name ++ " - $" ++ p
  | .append p => name ++ " += $" ++ p
  | .orParam p => name ++ " = " ++ name ++ " ?? $" ++ p
  | .orPlus d p => name ++ " = (" ++ name ++ " ?? $" ++ d ++ ") + $" ++ p
  | .orMinus d p => name ++ " = (" ++ name ++ " ?? $" ++ d ++ ") - $" ++ p
  | .orConcat d p => name ++ " = array::concat(" ++ name ++ " ?? $" ++ d ++ ", $" ++ p ++ ")"

/-! ## Statements -/

/-- `stmt::Direction`. -/
inductive Direction where
  | asc | desc
  deriving DecidableEq, Repr

def Direction.text : Direction → String
  | .asc => "ASC"
  | .desc => "DESC"

inductive UpsertBody where
  | set (sets : List SetClause)
  | merge (p : String)
  deriving DecidableEq, Repr

inductive Sql where
  | create (returnAfter : Bool)
  /-- From the record ids bound to the named parameters. -/
  | selectKeys (projection : List ProjItem) (targets : List String)
  /-- From a table, with the sort key under its alias, `WHERE` clauses joined by
  `AND`, and `LIMIT` and `START`. -/
  | select (projection : List ProjItem) (sort : Option (ColumnRef × Direction)) (table : String)
      (clauses : List (List Token)) (limit : Option (Nat × Option Nat))
  | update (sets : List SetClause) (clauses : List (List Token)) (returnAfter : Bool)
  | upsert (body : UpsertBody) (returnAfter : Bool)
  | delete (clauses : List (List Token))
  | schema (statement : Statement)
  | createMigration
  /-- A statement of a migration, as it was given. -/
  | script (text : String)
  deriving DecidableEq

def whereText (clauses : List (List Token)) : String :=
  if clauses.isEmpty then "" else " WHERE " ++ join " AND " (clauses.map tokensText)

def returnAfterText (returnAfter : Bool) : String := if returnAfter then " RETURN AFTER" else ""

def setText (sets : List SetClause) : String :=
  if sets.isEmpty then "" else " SET " ++ join ", " (sets.map SetClause.text)

def sortText : Option (ColumnRef × Direction) → String
  | none => ""
  | some (_, dir) => " ORDER BY " ++ sortAlias ++ " " ++ dir.text

/-- `apply_pagination`. -/
def limitText : Option (Nat × Option Nat) → String
  | none => ""
  | some (limit, none) => " LIMIT " ++ toString limit
  | some (limit, some start) => " LIMIT " ++ toString limit ++ " START " ++ toString start

def Sql.text : Sql → String
  | .create returnAfter => "CREATE $rid CONTENT $data" ++ returnAfterText returnAfter
  | .selectKeys projection targets =>
      "SELECT " ++ projectionText projection ++ " FROM " ++ join ", " (targets.map ("$" ++ ·))
  | .select projection sort table clauses limit =>
      let sortKey := match sort with
        | none => ""
        | some (r, _) => ", " ++ r.text ++ " AS " ++ sortAlias
      "SELECT " ++ projectionText projection ++ sortKey ++ " FROM " ++ escapeIdent table ++
        whereText clauses ++ sortText sort ++ limitText limit
  | .update sets clauses returnAfter =>
      "UPDATE $rid" ++ setText sets ++ whereText clauses ++ returnAfterText returnAfter
  | .upsert (.set sets) returnAfter => "UPSERT $rid" ++ setText sets ++ returnAfterText returnAfter
  | .upsert (.merge p) returnAfter => "UPSERT $rid MERGE $" ++ p ++ returnAfterText returnAfter
  | .delete clauses => "DELETE $rid" ++ whereText clauses ++ " RETURN BEFORE"
  | .schema statement => statement.text
  | .createMigration => "CREATE $migration_record SET name = $migration_name, " ++
      "applied_at = time::now() RETURN NONE"
  | .script text => text

example : (Sql.upsert (.set [⟨"n", .orPlus "p0" "p1"⟩]) true).text =
    "UPSERT $rid SET `n` = (`n` ?? $p0) + $p1 RETURN AFTER" := by decide

/-- A statement that only reads. -/
def Sql.isRead : Sql → Bool
  | .selectKeys .. | .select .. => true
  | _ => false

/-- A statement that changes the records its clauses hold of. -/
def Sql.isConditional : Sql → Bool
  | .update .. | .delete .. => true
  | _ => false

/-- A statement that puts one record in place. -/
def Sql.puts : Sql → Bool
  | .create _ | .update .. | .upsert .. => true
  | _ => false

/-- A statement the driver was given, not one it wrote. -/
def Sql.isScript : Sql → Bool
  | .script _ => true
  | _ => false

theorem Sql.isScript_of_conditional {sql : Sql} (h : sql.isConditional = true) :
    sql.isScript = false := by
  cases sql <;> first | rfl | exact absurd h (by simp [Sql.isConditional])

structure Query where
  sql : Sql
  binds : List (String × SurValue)

/-- The value bound to a parameter. -/
def Query.param (q : Query) (name : String) : SurValue := (AssocMap.lookup name q.binds).getD .none

end ToastySurreal
