import ToastySurreal.Database
import ToastySurreal.Lib.Precedence
import ToastySurreal.Proof.Render

/-!
# A store of records

SurrealDB as far as the operations rely on it: a map from record ids to objects, the
statements the operations send, and rows as a statement returns them. The field `id`
of a record always reads as its record id. What SurrealQL itself computes (the order
of values, predicates, sums) is a `Surql`; a write may be rejected for reasons of the
database's own, and then does nothing.
-/

namespace ToastySurreal

open Precedence (Tok)

/-- The stored records. -/
abbrev Records := List (RecordId × Object)

/-! ## Rows -/

/-- A record as a statement returns it. -/
def recordRow (rid : RecordId) (o : Object) : Object := AssocMap.insert "id" rid.value o

/-- A record-id key as a value. -/
def RecordIdKey.value : RecordIdKey → SurValue
  | .number v => .number (.int v)
  | .string v => .string v
  | .uuid v => .uuid v
  | .array items => .array items
  | .other code => .other code

/-- What a column reference reads from a record. -/
def refValue (rid : RecordId) (o : Object) : ColumnRef → SurValue
  | .key => rid.key.value
  | .keyElem pos =>
      match rid.key with
      | .array items => items.getD pos .none
      | _ => .none
  | .field name => Object.field (recordRow rid o) name
  | .id => rid.value

def ProjItem.name : ProjItem → String
  | .key _ name => name
  | .field name => name

/-- What a projected item reads. -/
def ProjItem.value (rid : RecordId) (o : Object) : ProjItem → SurValue
  | .key r _ => refValue rid o r
  | .field name => refValue rid o (.field name)

/-- The projected fields of a record, in order. -/
def projectFields (rid : RecordId) (o : Object) : List ProjItem → Object → Object
  | [], out => out
  | item :: items, out =>
      projectFields rid o items (AssocMap.insert item.name (item.value rid o) out)

/-- A record projected: no item at all means every field. -/
def projectRow (items : List ProjItem) (rid : RecordId) (o : Object) : Object :=
  if items.isEmpty then recordRow rid o else projectFields rid o items []

/-! ## What SurrealQL computes -/

class Surql where
  /-- The order of values. -/
  le : SurValue → SurValue → Bool
  le_total : ∀ v w, le v w = true ∨ le w v = true
  le_trans : ∀ u v w, le u v = true → le v w = true → le u w = true
  /-- Whether a predicate holds of a record, its parameters substituted. -/
  holds : List (Tok Operand Op Bracket Closer) → RecordId → Object → Bool
  /-- `>` on a column reference follows the order. -/
  holds_gt : ∀ r v rid o, holds [.atom (.ref r []), .op .gt, .atom (.value v)] rid o =
    !le (refValue rid o r) v
  /-- Sort rows by a key; nothing is said about the order of ties. -/
  sortBy : (RecordId × Object → SurValue) → Records → Records
  sortBy_perm : ∀ key records, (sortBy key records).Perm records
  sortBy_sorted : ∀ key records,
    (sortBy key records).Pairwise fun a b => le (key a) (key b) = true
  add : SurValue → SurValue → Except DbError SurValue
  sub : SurValue → SurValue → Except DbError SurValue
  concat : SurValue → SurValue → Except DbError SurValue

/-- `a ?? b` is `b` exactly when `a` is `NONE` or `NULL`. -/
def coalesce (a b : SurValue) : SurValue :=
  match a with
  | .none | .null => b
  | a => a

section Surql

variable [Surql]

/-! ## Assignments -/

/-- The value a clause assigns, given the field's present value. -/
def SetRhs.value (q : Query) (present : SurValue) : SetRhs → Except DbError SurValue
  | .none => .ok .none
  | .param p => .ok (q.param p)
  | .plus p => Surql.add present (q.param p)
  | .minus p => Surql.sub present (q.param p)
  | .append p => Surql.add present (q.param p)
  | .orParam p => .ok (coalesce present (q.param p))
  | .orPlus d p => Surql.add (coalesce present (q.param d)) (q.param p)
  | .orMinus d p => Surql.sub (coalesce present (q.param d)) (q.param p)
  | .orConcat d p => Surql.concat (coalesce present (q.param d)) (q.param p)

/-- Assignments run from left to right on the record. -/
def applySets (q : Query) (rid : RecordId) : List SetClause → Object → Except DbError Object
  | [], o => .ok o
  | clause :: clauses, o => do
      let v ← clause.rhs.value q (Object.field (recordRow rid o) clause.name)
      applySets q rid clauses (Object.set o clause.name v)

/-- `MERGE` of an object: its fields are assigned. -/
def mergeObject (o : Object) : List (String × SurValue) → Object
  | [] => o
  | (name, v) :: fields => mergeObject (Object.set o name v) fields

/-- What an `UPSERT` makes of the record, or of an empty one. -/
def applyBody (q : Query) (rid : RecordId) (o : Object) : UpsertBody → Except DbError Object
  | .set sets => applySets q rid sets o
  | .merge p =>
      match q.param p with
      | .object fields => .ok (mergeObject o fields)
      | _ => .error ⟨"Can not use a value that is not an object in a MERGE clause", false⟩

/-! ## Statements -/

/-- Every `WHERE` clause holds of the record. -/
def clausesHold (q : Query) (clauses : List (List Token)) (rid : RecordId) (o : Object) : Bool :=
  clauses.all fun toks => Surql.holds (toks.map (Tok.map (resolve ⟨q.binds⟩))) rid o

/-- The record id bound to a parameter. -/
def Query.recordId (q : Query) (p : String) : Option RecordId :=
  match q.param p with
  | .recordId table key => some ⟨table, key⟩
  | _ => none

/-- The rows a `SELECT` from record ids returns. -/
def selectKeysRows (s : Records) (q : Query) (projection : List ProjItem) (targets : List String) :
    List SurValue :=
  targets.filterMap fun p => do
    let rid ← q.recordId p
    let o ← AssocMap.lookup rid s
    return .object (projectRow projection rid o)

/-- The records a `SELECT` from a table returns, after `LIMIT` and `START`. -/
def selectRecords (s : Records) (q : Query) (sort : Option (ColumnRef × Direction)) (table : String)
    (clauses : List (List Token)) (limit : Option (Nat × Option Nat)) : Records :=
  let found := s.filter fun r => r.1.table == table && clausesHold q clauses r.1 r.2
  let sorted := match sort with
    | none => found
    | some (r, .asc) => Surql.sortBy (fun rec => refValue rec.1 rec.2 r) found
    | some (r, .desc) => (Surql.sortBy (fun rec => refValue rec.1 rec.2 r) found).reverse
  match limit with
  | none => sorted
  | some (n, start) => (sorted.drop (start.getD 0)).take n

/-- A selected row: the projection, and the sort key under its alias. -/
def selectRow (projection : List ProjItem) (sort : Option (ColumnRef × Direction))
    (rec : RecordId × Object) : SurValue :=
  let row := projectRow projection rec.1 rec.2
  .object (match sort with
    | none => row
    | some (r, _) => AssocMap.insert sortAlias (refValue rec.1 rec.2 r) row)

/-- A write that is rejected. -/
def Rejected (s : Records) (r : Reply) (s' : Records) : Prop := (∃ err, r = .error err) ∧ s' = s

/-- A write that put a record in place and returned it. -/
def Wrote (s : Records) (rid : RecordId) (o : Object) (r : Reply) (s' : Records) : Prop :=
  s' = AssocMap.insert rid o s ∧ r = .ok (.array [.object (recordRow rid o)])

/-- What a statement replies and does. -/
def Records.exec (s : Records) (q : Query) (r : Reply) (s' : Records) : Prop :=
  match q.sql with
  | .create _ => Rejected s r s' ∨ ∃ rid o, q.recordId "rid" = some rid ∧
      q.param "data" = .object o ∧ AssocMap.lookup rid s = none ∧ Wrote s rid o r s'
  | .selectKeys projection targets =>
      s' = s ∧ r = .ok (.array (selectKeysRows s q projection targets))
  | .select projection sort table clauses limit => s' = s ∧ r = .ok (.array
      ((selectRecords s q sort table clauses limit).map (selectRow projection sort)))
  | .update sets clauses _ => Rejected s r s' ∨ ∃ rid, q.recordId "rid" = some rid ∧
      ((∃ o o', AssocMap.lookup rid s = some o ∧ clausesHold q clauses rid o = true ∧
          applySets q rid sets o = .ok o' ∧ Wrote s rid o' r s') ∨
        ((∀ o, AssocMap.lookup rid s = some o → clausesHold q clauses rid o = false) ∧
          s' = s ∧ r = .ok (.array [])))
  | .upsert body _ => Rejected s r s' ∨ ∃ rid o', q.recordId "rid" = some rid ∧
      applyBody q rid ((AssocMap.lookup rid s).getD []) body = .ok o' ∧ Wrote s rid o' r s'
  | .delete clauses => Rejected s r s' ∨ ∃ rid, q.recordId "rid" = some rid ∧
      ((∃ o, AssocMap.lookup rid s = some o ∧ clausesHold q clauses rid o = true ∧
          s' = AssocMap.erase rid s ∧ r = .ok (.array [.object (recordRow rid o)])) ∨
        ((∀ o, AssocMap.lookup rid s = some o → clausesHold q clauses rid o = false) ∧
          s' = s ∧ r = .ok (.array [])))
  -- definitions, tracking records and scripts are not about these records
  | .schema _ | .createMigration | .script _ => Rejected s r s'

omit [Surql] in
theorem Rejected.eq {s s' : Records} {r : Reply} (h : Rejected s r s') : s' = s := h.2

omit [Surql] in
theorem Wrote.ne_error {s s' : Records} {rid : RecordId} {o : Object} {err : DbError}
    (h : Wrote s rid o (.error err) s') : False := absurd h.2 (by simp)

/-- The object a statement makes of the record it names. -/
inductive Puts (s : Records) (q : Query) (rid : RecordId) : Object → Prop where
  | create {returnAfter : Bool} {o : Object} (hsql : q.sql = .create returnAfter)
      (ho : q.param "data" = .object o) (hnone : AssocMap.lookup rid s = none) : Puts s q rid o
  | update {sets : List SetClause} {clauses : List (List Token)} {returnAfter : Bool}
      {o o' : Object}
      (hsql : q.sql = .update sets clauses returnAfter) (ho : AssocMap.lookup rid s = some o)
      (hholds : clausesHold q clauses rid o = true) (happly : applySets q rid sets o = .ok o') :
      Puts s q rid o'
  | upsert {body : UpsertBody} {returnAfter : Bool} {o' : Object}
      (hsql : q.sql = .upsert body returnAfter)
      (happly : applyBody q rid ((AssocMap.lookup rid s).getD []) body = .ok o') : Puts s q rid o'

/-- **What a statement can do to the records**: nothing, erase one, or put one in place. -/
theorem Records.exec_changes {s s' : Records} {q : Query} {r : Reply} (h : Records.exec s q r s') :
    s' = s ∨ (∃ rid, s' = AssocMap.erase rid s) ∨
      ∃ rid o, q.recordId "rid" = some rid ∧ Puts s q rid o ∧ s' = AssocMap.insert rid o s := by
  cases hsql : q.sql with
  | create returnAfter =>
      simp only [Records.exec, hsql] at h
      rcases h with h | ⟨rid, o, hrid, ho, hnone, h⟩
      · exact .inl h.eq
      · exact .inr (.inr ⟨rid, o, hrid, .create hsql ho hnone, h.1⟩)
  | upsert body returnAfter =>
      simp only [Records.exec, hsql] at h
      rcases h with h | ⟨rid, o', hrid, happly, h⟩
      · exact .inl h.eq
      · exact .inr (.inr ⟨rid, o', hrid, .upsert hsql happly, h.1⟩)
  | update sets clauses returnAfter =>
      simp only [Records.exec, hsql] at h
      rcases h with h | ⟨rid, hrid, ⟨o, o', ho, hholds, happly, h⟩ | ⟨_, h, _⟩⟩
      · exact .inl h.eq
      · exact .inr (.inr ⟨rid, o', hrid, .update hsql ho hholds happly, h.1⟩)
      · exact .inl h
  | delete clauses =>
      simp only [Records.exec, hsql] at h
      rcases h with h | ⟨rid, _, ⟨o, _, _, h, _⟩ | ⟨_, h, _⟩⟩
      · exact .inl h.eq
      · exact .inr (.inl ⟨rid, h⟩)
      · exact .inl h
  | selectKeys projection targets =>
      simp only [Records.exec, hsql] at h
      exact .inl h.1
  | select projection sort name clauses limit =>
      simp only [Records.exec, hsql] at h
      exact .inl h.1
  | schema statement | createMigration | script text =>
      simp only [Records.exec, hsql] at h
      exact .inl h.eq

/-- **What every record is keeps being so** if it is of the records that are put in place. -/
theorem Records.exec_keeps {P : RecordId × Object → Prop} {s s' : Records} {q : Query} {r : Reply}
    (hs : ∀ rec ∈ s, P rec)
    (hputs : ∀ rid o, q.recordId "rid" = some rid → Puts s q rid o → P (rid, o))
    (h : Records.exec s q r s') : ∀ rec ∈ s', P rec := by
  rcases Records.exec_changes h with rfl | ⟨rid, rfl⟩ | ⟨rid, o, hrid, hput, rfl⟩
  · exact hs
  · intro rec hrec
    exact hs rec (List.mem_filter.mp hrec).1
  · intro rec hrec
    rcases AssocMap.mem_insert hrec with rfl | hrec
    · exact hputs rid o hrid hput
    · exact hs rec hrec

/-- A statement on the records that fails changes nothing. -/
theorem Records.exec_error {s s' : Records} {q : Query} {err : DbError}
    (h : Records.exec s q (.error err) s') : s' = s := by
  unfold Records.exec at h
  split at h
  · rcases h with h | ⟨rid, o, _, _, _, h⟩
    · exact h.eq
    · exact h.ne_error.elim
  · exact h.1
  · exact h.1
  · rcases h with h | ⟨rid, _, ⟨o, o', _, _, _, h⟩ | h⟩
    · exact h.eq
    · exact h.ne_error.elim
    · exact h.2.1
  · rcases h with h | ⟨rid, o', _, _, h⟩
    · exact h.eq
    · exact h.ne_error.elim
  · rcases h with h | ⟨rid, _, ⟨o, _, _, _, hr⟩ | h⟩
    · exact h.eq
    · exact absurd hr (by simp)
    · exact h.2.1
  · exact h.eq
  · exact h.eq
  · exact h.eq

/-- An update or deletion that returns no row changes nothing. -/
theorem Records.exec_unmatched {s s' : Records} {q : Query} {v : SurValue}
    (hq : q.sql.isConditional = true) (h : Records.exec s q (.ok v) s') (hv : takeRows v = []) :
    s' = s := by
  cases hsql : q.sql with
  | update sets clauses returnAfter =>
      simp only [Records.exec, hsql] at h
      rcases h with h | ⟨rid, _, ⟨o, o', _, _, _, h⟩ | h⟩
      · exact h.eq
      · obtain ⟨_, hr⟩ := h
        injection hr with hr; subst hr
        exact absurd hv (by simp [takeRows])
      · exact h.2.1
  | delete clauses =>
      simp only [Records.exec, hsql] at h
      rcases h with h | ⟨rid, _, ⟨o, _, _, _, hr⟩ | h⟩
      · exact h.eq
      · injection hr with hr; subst hr
        exact absurd hv (by simp [takeRows])
      · exact h.2.1
  | _ => rw [hsql] at hq; exact absurd hq (by simp [Sql.isConditional])

/-- The records as a database. -/
def recordStore : Database where
  State := Records
  exec := Records.exec
  atomic _ := Records.exec_error
  reads := by
    intro d q r d' hq h
    cases hsql : q.sql with
    | selectKeys projection targets => simp only [Records.exec, hsql] at h; exact h.1
    | select projection sort table clauses limit => simp only [Records.exec, hsql] at h; exact h.1
    | _ => rw [hsql] at hq; exact absurd hq (by simp [Sql.isRead])
  unmatched := Records.exec_unmatched

/-! ## Snapshots -/

omit [Surql] in
/-- **Snapshot isolation**: a transaction that worked from `start` to `working` commits the
records it changed, where nobody else has changed one of them in between. What it only read
may have changed. Records of any kind that it left alone stay as they are. -/
structure Records.Commits (start working s s' : Records) : Prop where
  still : ∀ kind, AssocMap.part kind working = AssocMap.part kind start →
    AssocMap.part kind s' = AssocMap.part kind s
  unique : ∀ kind, ((AssocMap.part kind s).map Prod.fst).Nodup →
    ((AssocMap.part kind s').map Prod.fst).Nodup
  kept : ∀ rid, AssocMap.lookup rid working = AssocMap.lookup rid start →
    AssocMap.lookup rid s' = AssocMap.lookup rid s
  changed : ∀ rid, AssocMap.lookup rid working ≠ AssocMap.lookup rid start →
    AssocMap.lookup rid s = AssocMap.lookup rid start ∧ AssocMap.lookup rid s' =
    AssocMap.lookup rid working

omit [Surql] in
/-- Ids stay unique. -/
theorem Records.Commits.nodup {start working s s' : Records}
    (h : Records.Commits start working s s')
    (hs : (s.map Prod.fst).Nodup) : (s'.map Prod.fst).Nodup := by
  have hall := h.unique fun _ => true
  rw [AssocMap.part_true, AssocMap.part_true] at hall
  exact hall hs

/-- The rule of snapshot isolation, on a store that may refuse any query. -/
def bySnapshot (t : recordStore.refusing.Tx) (s s' : Records) : Prop :=
  Records.Commits t.start t.working s s'

end Surql

end ToastySurreal
