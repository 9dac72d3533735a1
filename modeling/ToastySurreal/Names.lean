import ToastySurreal.Store
import ToastySurreal.Proof.Identifiers

/-!
# A store that reads names from the text

A statement is sent as text, and its names are what SurrealQL reads where the driver wrote
them with `escape_ident`. `SqlNames` says how one name is read: a name without backticks and
backslashes as itself, any other as another name or not at all. `textStore` is the store of
records behind that: it refuses a statement with a name that does not parse, and otherwise
does what the statement says in the names that were read.
-/

namespace ToastySurreal

/-- How SurrealQL reads the names the driver writes. -/
class SqlNames where
  /-- What a name is read as where it is written; none where that does not parse. -/
  read : String → Option String
  read_iff : ∀ name, read name = some name ↔ CleanName name

/-- Names as the lexer reads them: what is written for one has to be one name. -/
@[reducible] def lexedNames (others : Char → List Char) : SqlNames where
  read name :=
    match lexSql others (escapeIdent name) with
    | some [.quoted .name n] => some n
    | _ => none
  read_iff name := by
    refine Iff.trans ⟨fun h => ?_, fun h => ?_⟩ (@reads_last_name others name)
    · split at h
      · rename_i n hn
        injection h with h
        rwa [h] at hn
      · exact absurd h (by simp)
    · rw [h]

/-- Names, where every escaped character stands for itself. -/
@[reducible] def plainNames : SqlNames := lexedNames fun c => [c]

section Reading

variable [SqlNames]

/-! ## Reading a statement -/

def ColumnRef.read : ColumnRef → Option ColumnRef
  | .field name => (SqlNames.read name).map .field
  | r => some r

def ProjItem.read : ProjItem → Option ProjItem
  | .key r name => do some (.key (← r.read) (← SqlNames.read name))
  | .field name => (SqlNames.read name).map .field

def SetClause.read (clause : SetClause) : Option SetClause :=
  (SqlNames.read clause.name).map fun name => ⟨name, clause.rhs⟩

def Atom.read : Atom → Option Atom
  | .ref r path => do some (.ref (← r.read) (← path.mapM SqlNames.read))
  | .raw base path => (path.mapM SqlNames.read).map (.raw base)
  | a => some a

def readToken : Token → Option Token
  | .atom a => a.read.map .atom
  | t => some t

def readClauses (clauses : List (List Token)) : Option (List (List Token)) :=
  clauses.mapM (List.mapM readToken)

def readSort : Option (ColumnRef × Direction) → Option (Option (ColumnRef × Direction))
  | none => some none
  | some (r, dir) => r.read.map fun r => some (r, dir)

/-- The statement that is read where this one is written. -/
def Sql.read : Sql → Option Sql
  | .selectKeys projection targets => (projection.mapM ProjItem.read).map (.selectKeys · targets)
  | .select projection sort table clauses limit => do
      some (.select (← projection.mapM ProjItem.read) (← readSort sort) (← SqlNames.read table)
        (← readClauses clauses) limit)
  | .update sets clauses returnAfter => do
      some (.update (← sets.mapM SetClause.read) (← readClauses clauses) returnAfter)
  | .upsert (.set sets) returnAfter =>
      (sets.mapM SetClause.read).map fun sets => .upsert (.set sets) returnAfter
  | .delete clauses => (readClauses clauses).map .delete
  -- the names of definitions and scripts are not those of records
  | sql => some sql

/-- **A statement is read as one of its kind.** -/
theorem Sql.read_kind {sql sql' : Sql} (h : sql.read = some sql') : sql'.isRead = sql.isRead ∧
    sql'.isConditional = sql.isConditional ∧ sql'.isScript = sql.isScript ∧ sql'.puts =
    sql.puts := by
  cases sql with
  | selectKeys projection targets | delete clauses =>
      rw [Sql.read, Option.map_eq_some_iff] at h
      obtain ⟨_, _, rfl⟩ := h
      exact ⟨rfl, rfl, rfl, rfl⟩
  | select projection sort table clauses limit =>
      simp only [Sql.read, Option.bind_eq_bind, Option.bind_eq_some_iff] at h
      obtain ⟨_, _, _, _, _, _, _, _, h⟩ := h
      injection h with h; subst h
      exact ⟨rfl, rfl, rfl, rfl⟩
  | update sets clauses returnAfter =>
      simp only [Sql.read, Option.bind_eq_bind, Option.bind_eq_some_iff] at h
      obtain ⟨_, _, _, _, h⟩ := h
      injection h with h; subst h
      exact ⟨rfl, rfl, rfl, rfl⟩
  | upsert body returnAfter =>
      cases body with
      | set sets =>
          rw [Sql.read, Option.map_eq_some_iff] at h
          obtain ⟨_, _, rfl⟩ := h
          exact ⟨rfl, rfl, rfl, rfl⟩
      | merge p =>
          obtain rfl := Option.some.inj h
          exact ⟨rfl, rfl, rfl, rfl⟩
  | create returnAfter | schema statement | createMigration | script text =>
      obtain rfl := Option.some.inj h
      exact ⟨rfl, rfl, rfl, rfl⟩

/-- A column with a clean name is projected as it is written. -/
theorem projectColumn_clean {table : Table} {c : Column} (h : CleanName c.name) :
    (projectColumn table c).read = some (projectColumn table c) := by
  have hname := (SqlNames.read_iff c.name).mpr h
  by_cases hk : isPrimaryKey table c = true
  · rw [projectColumn, if_pos hk, ProjItem.read, hname, columnRef, if_pos hk]
    split <;> rfl
  · rw [projectColumn, if_neg hk, ProjItem.read, hname]
    rfl

theorem projectColumns_clean (table : Table) :
    ∀ {select : List Column}, (∀ c ∈ select, CleanName c.name) →
    (projectColumns table select).mapM ProjItem.read = some (projectColumns table select)
  | [], _ => rfl
  | c :: select, h => by
      have hrest := projectColumns_clean table fun d hd => h d (List.mem_cons_of_mem c hd)
      rw [projectColumns] at hrest ⊢
      rw [List.map_cons, List.mapM_cons, projectColumn_clean (h c List.mem_cons_self), hrest]
      rfl

/-- A column is projected under the name that is read for its own. -/
theorem projectColumn_named {table : Table} {c : Column} {item : ProjItem}
    (h : (projectColumn table c).read = some item) : SqlNames.read c.name = some item.name := by
  unfold projectColumn at h
  split at h
  · simp only [ProjItem.read, Option.bind_eq_bind, Option.bind_eq_some_iff] at h
    obtain ⟨_, _, name, hname, h⟩ := h
    injection h with h; subst h
    exact hname
  · obtain ⟨name, hname, rfl⟩ := Option.map_eq_some_iff.mp h
    exact hname

variable [Surql]

/-- What a text replies and does. -/
def Records.execText (s : Records) (q : Query) (r : Reply) (s' : Records) : Prop :=
  match q.sql.read with
  | none => Rejected s r s'
  | some sql => Records.exec s ⟨sql, q.binds⟩ r s'

theorem Records.execText_none {s s' : Records} {q : Query} {r : Reply} (h : q.sql.read = none) :
    Records.execText s q r s' ↔ Rejected s r s' := by
  unfold Records.execText
  rw [h]

theorem Records.execText_some {s s' : Records} {q : Query} {r : Reply} {sql : Sql}
    (h : q.sql.read = some sql) :
    Records.execText s q r s' ↔ Records.exec s ⟨sql, q.binds⟩ r s' := by
  unfold Records.execText
  rw [h]

/-- The records as a database that is sent texts. -/
def textStore : Database where
  State := Records
  exec := Records.execText
  atomic {d q err d'} _ h := by
    cases hread : q.sql.read with
    | none => exact ((Records.execText_none hread).mp h).eq
    | some sql => exact Records.exec_error ((Records.execText_some hread).mp h)
  reads {d q r d'} hq h := by
    cases hread : q.sql.read with
    | none => exact ((Records.execText_none hread).mp h).eq
    | some sql =>
        exact recordStore.reads ((Sql.read_kind hread).1.trans hq)
          ((Records.execText_some hread).mp h)
  unmatched {d q v d'} hq h hv := by
    cases hread : q.sql.read with
    | none => exact ((Records.execText_none hread).mp h).eq
    | some sql =>
        exact Records.exec_unmatched ((Sql.read_kind hread).2.1.trans hq)
          ((Records.execText_some hread).mp h) hv

end Reading

end ToastySurreal
