import ToastySurreal.Proof.Grouping
import ToastySurreal.Proof.Routing
import ToastySurreal.Proof.WriteRead

/-!
# What a failed write leaves

A write other than an insert is one statement, and a statement is atomic. So an error
leaves a trace in two ways only: an insert creates its rows one statement at a time,
and keeps those before the one that failed; and a statement that succeeded stays when
the rows it returned turn out not to decode. `failed_write` says that there is no
third.
-/

namespace ToastySurreal

open Results Prog

section Failures

variable (D : Database) [Sdk]

/-! ## The failures -/

/-- The statement succeeded and what it returned does not decode. -/
def Undecoded (q : Query) (select : List Column) (err : Error) (d d' : D.State) : Prop :=
  ∃ v, D.exec d q (.ok v) d' ∧ rowsToRecords select (takeRows v) = .error err

/-- The rows were created, one `CREATE` after the other. -/
def Created (table : Table) (columns : List ColumnId) (want : Bool) :
    List Row → D.State → D.State → Prop
  | [], d, d' => d' = d
  | row :: rows, d, d' =>
      ∃ rid content v d₁, buildRow "insert" table columns row = .ok (rid, content) ∧
      D.exec d (createQuery rid content want) (.ok v) d₁ ∧ Created table columns want rows d₁ d'

/-- A row failed: it was not created, or what its `CREATE` returned does not decode. -/
inductive RowFailed (table : Table) (columns : List ColumnId) (want : Bool)
    (returning : Option (List Column)) (row : Row) (err : Error) (d : D.State) :
    D.State → Prop where
  | build (h : buildRow "insert" table columns row = .error err) :
      RowFailed table columns want returning row err d d
  | create {rid : RecordId} {content : Object} {e : DbError}
      (hb : buildRow "insert" table columns row = .ok (rid, content))
      (h : D.exec d (createQuery rid content want) (.error e) d) (herr : err = classifyError e) :
      RowFailed table columns want returning row err d d
  | decode {rid : RecordId} {content : Object} {select : List Column} {d' : D.State}
      (hb : buildRow "insert" table columns row = .ok (rid, content)) (hr : returning = some select)
      (h : Undecoded D (createQuery rid content want) select err d d') :
      RowFailed table columns want returning row err d d'

/-- The rows before the one that failed were created; those after it were not tried. -/
def RowsFailed (table : Table) (columns : List ColumnId) (want : Bool)
    (returning : Option (List Column)) (rows : List Row) (err : Error) (d d' : D.State) : Prop :=
  ∃ created row rest d₁, rows = created ++ row :: rest ∧ Created D table columns want created d d₁ ∧
    RowFailed D table columns want returning row err d₁ d'

def InsertFailed (table : Table) (insert : Insert) (ret : Bool) (err : Error) (d d' : D.State) :
    Prop :=
  d' = d ∨ ∃ rows returning, insert.values = some rows ∧
    returningColumns "insert" table insert.returning = .ok returning ∧
    RowsFailed D table insert.columns (returning.isSome || ret) returning rows err d d'

def UpdateFailed (table : Table) (op : UpdateByKey) (err : Error) (d d' : D.State) : Prop :=
  d' = d ∨ ∃ key q columns, op.keys = [key] ∧ updateQuery table op key = .ok q ∧
    op.returning = some columns ∧ Undecoded D q (columns.map table.column) err d d'

/-- The statement an upsert sends, and the columns it returns. -/
def UpsertSends (table : Table) (op : Upsert) (q : Query) (select : List Column) : Prop :=
  ∃ clause row rid content, upsertSource table op = .ok (clause, row) ∧
    buildRow "upsert" table op.insert.columns row = .ok (rid, content) ∧
    returningColumns "upsert" table op.insert.returning = .ok (some select) ∧
    match clause.action with
    | .update => upsertQuery table op.insert clause row rid content true = .ok q
    | .ignore => q = createQuery rid content true

def UpsertFailed (table : Table) (op : Upsert) (err : Error) (d d' : D.State) : Prop :=
  d' = d ∨ ∃ q select, UpsertSends table op q select ∧ Undecoded D q select err d d'

/-- What an operation that failed did to the database. -/
def FailedAs (err : Error) (d d' : D.State) : Operation → Prop
  | .insert (some (table, insert)) ret => InsertFailed D table insert ret err d d'
  | .querySql (.ok (table, insert)) ret => InsertFailed D table insert ret err d d'
  | .updateByKey table op => UpdateFailed D table op err d d'
  | .upsert table op => UpsertFailed D table op err d d'
  | _ => d' = d

/-! ## One operation on its handle -/

variable {D} {conn : Connection} {table : Table} {d d' : D.State} {err : Error}

/-- Decoding what a statement returned. -/
theorem undecoded_or {q : Query} {select : List Column} {v : SurValue} {α : Type}
    {f : List Value → Action α} (hq : D.exec d q (.ok v) d')
    {d'' : D.State} {out : Except Error α}
    (h : (Prog.lift (rowsToRecords select (takeRows v)) >>= f).Runs D.Handle d' d'' out) :
    (∃ e, Undecoded D q select e d d'' ∧ out = .error e) ∨ ∃ records,
    (f records).Runs D.Handle d' d'' out := by
  rcases runs_lift_bind.mp h with ⟨e, he, rfl, rfl⟩ | ⟨records, _, hrest⟩
  · exact .inl ⟨e, ⟨v, hq, he⟩, rfl⟩
  · exact .inr ⟨records, hrest⟩

/-- **An insert that failed** stopped at one of its rows. -/
theorem insertRows_error {columns : List ColumnId} {want : Bool}
    {returning : Option (List Column)} :
    ∀ {rows : List Row} {count : Nat} {records : List Value} {d d' : D.State},
    (insertRows conn table columns want returning rows count records).Runs D.Handle d d'
    (.error err) → RowsFailed D table columns want returning rows err d d'
  | [], _, _, _, _, h => absurd h.2 (by simp)
  | row :: rows, count, records, d, d', h => by
      rw [insertRows] at h
      rcases runs_lift_bind.mp h with ⟨e, hbuild, rfl, he⟩ | ⟨⟨rid, content⟩, hbuild, hrest⟩
      · injection he with he; subst he
        exact ⟨[], row, rows, _, rfl, rfl, .build hbuild⟩
      · rcases Database.runs_runQuery_bind.mp hrest with ⟨e, hq, he⟩ | ⟨v, d₁, hq, hdecode⟩
        · injection he with he
          have hd := D.atomic rfl hq; subst hd
          exact ⟨[], row, rows, _, rfl, rfl, .create hbuild hq he⟩
        · -- the row is there; its decoding fails, or a later row does
          have hlater : ∀ {count records}, (insertRows conn table columns want returning rows count
              records).Runs D.Handle d₁ d' (.error err) →
              RowsFailed D table columns want returning (row :: rows) err d d' := by
            intro count records hrows
            obtain ⟨created, row', rest, d₂, hsplit, hcreated, hfailed⟩ := insertRows_error hrows
            exact ⟨row :: created, row', rest, d₂, by rw [hsplit]; rfl,
              ⟨rid, content, v, d₁, hbuild, hq, hcreated⟩, hfailed⟩
          cases hret : returning with
          | none =>
              rw [hret] at hdecode hlater
              exact hlater hdecode
          | some select =>
              rw [hret] at hdecode hlater
              rcases undecoded_or hq hdecode with ⟨e, hund, he⟩ | ⟨decoded, hrows⟩
              · injection he with he; subst he
                exact ⟨[], row, rows, d, rfl, rfl, .decode hbuild rfl hund⟩
              · exact hlater hrows

theorem execInsert_error {insert : Insert} {ret : Bool}
    (h : (execInsert conn table insert ret).Runs D.Handle d d' (.error err)) :
    InsertFailed D table insert ret err d d' := by
  unfold execInsert at h
  split at h
  · exact .inl h.1
  · rename_i rows hvalues
    rcases runs_lift_bind.mp h with ⟨e, _, rfl, _⟩ | ⟨returning, hret, hrest⟩
    · exact .inl rfl
    · rcases runs_bind.mp hrest with ⟨e, hins, he⟩ | ⟨out, d₁, _, hdone⟩
      · injection he with he; subst he
        exact .inr ⟨rows, returning, hvalues, hret, insertRows_error hins⟩
      · exact absurd hdone.2 (by simp)

/-- **An update that failed** did nothing, or could not decode what it updated. A
condition that does not match is an update of nothing. -/
theorem execUpdateByKey_error {op : UpdateByKey}
    (h : (execUpdateByKey conn table op).Runs D.Handle d d' (.error err)) :
    UpdateFailed D table op err d d' := by
  unfold execUpdateByKey at h
  rcases runs_lift_bind.mp h with ⟨e, _, rfl, _⟩ | ⟨key, hkey, h₁⟩
  · exact .inl rfl
  rcases runs_lift_bind.mp h₁ with ⟨e, _, rfl, _⟩ | ⟨q, hq, h₂⟩
  · exact .inl rfl
  rcases Database.runs_runQuery_bind.mp h₂ with ⟨e, hexec, _⟩ | ⟨v, d₁, hexec, h₃⟩
  · exact .inl (D.atomic (Sql.isScript_of_conditional (updateQuery_conditional hq)) hexec)
  dsimp only at h₃
  split at h₃
  · rename_i hempty
    rw [Bool.and_eq_true, List.isEmpty_iff] at hempty
    obtain ⟨rfl, _⟩ := h₃
    exact .inl (D.unmatched (updateQuery_conditional hq) hexec hempty.1)
  · split at h₃
    · rename_i columns hret
      rcases undecoded_or hexec h₃ with ⟨e, hund, he⟩ | ⟨records, hdone⟩
      · injection he with he; subst he
        exact .inr ⟨key, q, columns, singleKey_ok hkey, hq, hret, hund⟩
      · exact absurd hdone.2 (by simp)
    · exact absurd h₃.2 (by simp)

theorem execDeleteByKey_error {op : DeleteByKey}
    (h : (execDeleteByKey conn table op).Runs D.Handle d d' (.error err)) : d' = d := by
  unfold execDeleteByKey at h
  rcases runs_lift_bind.mp h with ⟨e, _, rfl, _⟩ | ⟨key, hkey, h₁⟩
  · rfl
  rcases runs_lift_bind.mp h₁ with ⟨e, _, rfl, _⟩ | ⟨q, hq, h₂⟩
  · rfl
  rcases Database.runs_runQuery_bind.mp h₂ with ⟨e, hexec, _⟩ | ⟨v, d₁, hexec, h₃⟩
  · exact D.atomic (Sql.isScript_of_conditional (deleteQuery_conditional hq)) hexec
  dsimp only at h₃
  split at h₃
  · rename_i hempty
    rw [Bool.and_eq_true, List.isEmpty_iff] at hempty
    obtain ⟨rfl, _⟩ := h₃
    exact D.unmatched (deleteQuery_conditional hq) hexec hempty.1
  · exact absurd h₃.2 (by simp)

theorem upsertQuery_isScript {insert : Insert} {clause : UpsertClause} {row : Row} {rid : RecordId}
    {content : Object} {returning : Bool} {q : Query}
    (h : upsertQuery table insert clause row rid content returning = .ok q) :
    q.sql.isScript = false := by
  unfold upsertQuery at h
  obtain ⟨⟨created, binds⟩, _, h₁⟩ := bind_eq_ok h
  obtain ⟨⟨shared, binds'⟩, _, h₂⟩ := bind_eq_ok h₁
  dsimp only at h₂
  split at h₂
  all_goals injection h₂ with h₂; subst h₂; rfl

/-- An answer that cannot be finished is one that does not decode. -/
theorem finish_error {returning : Option (List Column)} {rows : List SurValue}
    (h : finish returning rows = .error err) :
    ∃ select, returning = some select ∧ rowsToRecords select rows = .error err := by
  cases returning with
  | none => exact absurd h (by simp [finish])
  | some select =>
      rcases bind_eq_error h with hrows | ⟨records, _, hok⟩
      · exact ⟨select, rfl, hrows⟩
      · exact absurd hok (by simp)

/-- **An upsert that failed** did nothing, or could not decode what it wrote. -/
theorem execUpsert_error {op : Upsert}
    (h : (execUpsert conn table op).Runs D.Handle d d' (.error err)) :
    UpsertFailed D table op err d d' := by
  unfold execUpsert at h
  rcases runs_lift_bind.mp h with ⟨e, _, rfl, _⟩ | ⟨⟨clause, row⟩, hsource, h₁⟩
  · exact .inl rfl
  rcases runs_lift_bind.mp h₁ with ⟨e, _, rfl, _⟩ | ⟨⟨rid, content⟩, hbuild, h₂⟩
  · exact .inl rfl
  rcases runs_lift_bind.mp h₂ with ⟨e, _, rfl, _⟩ | ⟨returning, hret, h₃⟩
  · exact .inl rfl
  cases haction : clause.action with
  | update =>
      rw [haction] at h₃
      rcases runs_lift_bind.mp h₃ with ⟨e, _, rfl, _⟩ | ⟨q, hq, h₄⟩
      · exact .inl rfl
      rcases Database.runs_runQuery_bind.mp h₄ with ⟨e, hexec, _⟩ | ⟨v, d₁, hexec, h₅⟩
      · exact .inl (D.atomic (upsertQuery_isScript hq) hexec)
      obtain ⟨rfl, hfin⟩ := runs_lift.mp h₅
      obtain ⟨select, rfl, hrows⟩ := finish_error hfin.symm
      refine .inr ⟨q, select, ⟨clause, row, rid, content, hsource, hbuild, hret, ?_⟩, v, hexec,
        hrows⟩
      rw [haction]
      exact hq
  | ignore =>
      rw [haction] at h₃
      rcases runs_bind.mp h₃ with ⟨e, hfail, _⟩ | ⟨result, d₁, hcaught, h₄⟩
      · obtain ⟨r, _, hr⟩ := runs_attempt.mp hfail
        exact absurd hr (by simp)
      obtain ⟨result', hattempt, hr⟩ := runs_attempt.mp hcaught
      obtain rfl := Except.ok.inj hr
      cases result with
      | ok v =>
          obtain ⟨rfl, hfin⟩ := runs_lift.mp h₄
          obtain ⟨select, rfl, hrows⟩ := finish_error hfin.symm
          refine .inr ⟨_, select, ⟨clause, row, rid, content, hsource, hbuild, hret, ?_⟩, v,
            Database.runs_runQuery_ok.mp hattempt, hrows⟩
          rw [haction]
          rfl
      | error e =>
          -- the create failed, whether the error is passed on or not
          have hd := Database.runs_runQuery_error rfl hattempt
          subst hd
          dsimp only at h₄
          split at h₄
          · exact absurd h₄.2 (by simp)
          · exact .inl h₄.1

/-! ## On a server -/

variable {ι : Type} [DecidableEq ι] {i : ι} {s s' : D.Server ι} {conn' : Connection}

omit [Sdk] in
/-- A failed method on the plain handle, on what is committed. -/
theorem failed_plain {α : Type} {R : Query → Prop} {p : Action α} (hconn : conn.transaction = false)
    (hp : p.Asks (Routed conn R))
    (h : (conn.keep p).Runs (Database.Step i) s s' (.ok (conn', .error err))) :
    conn' = conn ∧ p.Runs D.Handle s.committed s'.committed (.error err) := by
  obtain ⟨result, hrun, hout⟩ := runs_keep.mp h
  obtain ⟨rfl, rfl⟩ : conn' = conn ∧ result = .error err := by
    injection hout with hout
    exact ⟨congrArg Prod.fst hout, (congrArg Prod.snd hout).symm⟩
  exact ⟨rfl, (Database.runs_server (hp.mono (Routed.plain hconn)) hrun).1⟩

omit [Sdk] in
/-- Outside a transaction, a transaction operation commits nothing. -/
theorem execTransaction_committed {op : Transaction} {out : Except Error (Outcome ExecResponse)}
    (hconn : conn.transaction = false)
    (h : (execTransaction conn op).Runs (Database.Step i) s s' out) :
    s'.committed = s.committed := by
  refine Runs.invariant (I := fun x => x.committed = s.committed) ?_ asks_execTransaction rfl h
  intro x call r x' hcall hx hstep
  unfold Ends at hcall
  rw [hconn] at hcall
  subst hcall
  cases hstep with
  | begin v => exact hx
  | beginFail e => exact hx

/-- **What a failed operation leaves**, outside a transaction: nothing, but for the
created rows of an insert and the statement whose rows do not decode. -/
theorem failed_write {op : Operation} (hconn : conn.transaction = false)
    (h : (exec conn op).Runs (Database.Step i) s s' (.ok (conn', .error err))) :
    FailedAs D err s.committed s'.committed op := by
  -- outside a transaction every query is one of its own: what failed is the guard or the operation
  have hguard : ∀ {R : Query → Prop} {name : String} {p : Action ExecResponse}
      {F : D.State → D.State → Prop}, p.Asks (Routed conn R) → (∀ d, F d d) →
      (p.Runs D.Handle s.committed s'.committed (.error err) → F s.committed s'.committed) →
      (conn.keep (guarded conn name p)).Runs (Database.Step i) s s' (.ok (conn', .error err)) →
      F s.committed s'.committed := by
    intro R name p F hask hrefl hp hrun
    rcases guarded_error (failed_plain hconn (asks_guarded hask) hrun).2 with hd | hd
    · rw [hd]; exact hrefl _
    · exact hp hd
  have hread : ∀ {p : Action ExecResponse}, p.Asks (Routed conn ReadOnly) →
      (conn.keep p).Runs (Database.Step i) s s' (.ok (conn', .error err)) →
      s'.committed = s.committed :=
    fun hask hrun => reads_keep hask (failed_plain hconn hask hrun).2
  cases op with
  | querySql stmt ret =>
      cases stmt with
      | ok stmt => exact hguard (asks_execInsert _ _) (fun d => .inl rfl) execInsert_error h
      | error name => exact hread (p := .fail _) trivial h
  | insert stmt ret =>
      cases stmt with
      | some stmt => exact hguard (asks_execInsert _ _) (fun d => .inl rfl) execInsert_error h
      | none =>
          exact hguard (R := ReadOnly) (p := .fail _) (F := fun d d' => d' = d) trivial
            (fun _ => rfl) And.left h
  | getByKey table op => exact hread (reads_execGetByKey op) h
  | queryPk table op => exact hread (asks_execQueryPk op) h
  | findPkByIndex table op => exact hread (asks_execFindPkByIndex op) h
  | scan table op => exact hread (asks_execScan op) h
  | updateByKey table op =>
      exact hguard (asks_execUpdateByKey op) (fun d => .inl rfl) execUpdateByKey_error h
  | deleteByKey table op =>
      exact hguard (F := fun d d' => d' = d) (asks_execDeleteByKey op) (fun d => rfl)
        execDeleteByKey_error h
  | upsert table op => exact hguard (asks_execUpsert op) (fun d => .inl rfl) execUpsert_error h
  | rawSql => exact hread (p := .fail _) trivial h
  | transaction op => exact execTransaction_committed hconn h

/-- Whenever the operation fails outside a transaction, what is committed stays. -/
def LeavesNoTrace (D : Database) (op : Operation) : Prop :=
  ∀ (conn conn' : Connection) (s s' : D.Server Unit) (err : Error), conn.transaction = false →
    (exec conn op).Runs (Database.Step ()) s s' (.ok (conn', .error err)) →
    s'.committed = s.committed

end Failures

/-! ## Two failures that leave a trace -/

/-- A batch of two rows with one key. -/
def twice : Operation :=
  .insert (some (todos, ⟨[⟨0, 0⟩, ⟨0, 1⟩],
    some [[some (.i64 1), some (.bool true)], [some (.i64 1), some (.bool false)]], none⟩)) false

/-- The update of a name that returns the profile. -/
def rename : Operation :=
  .updateByKey people ⟨[.i64 1], [(⟨0, 1⟩, .set (.string "Ada"))], none, none, some [⟨0, 2⟩]⟩

/-- The first of the two rows. -/
def firstTodo : RecordId × Object := (⟨"todos", .number 1⟩, [("done", .bool true)])

/-- The database's error for a duplicate. -/
def duplicate : DbError := ⟨"Database record already exists", false⟩

/-- The second row of the batch is a duplicate, and the first one stays. -/
theorem twice_fails : let := plain
    let := plainSurql
    (exec .new twice).Runs (Database.Step (D := recordStore) ()) ⟨[], fun _ => none⟩
      ⟨[firstTodo], fun _ => none⟩ (.ok (.new, .error (classifyError duplicate))) := by
  let := plain
  let := plainSurql
  have hrow : ∀ flag, buildRow "insert" todos [⟨0, 0⟩, ⟨0, 1⟩] [some (.i64 1), some (.bool flag)] =
      .ok (firstTodo.1, [("done", .bool flag)]) := fun _ => rfl
  have hsecond : (insertRows .new todos [⟨0, 0⟩, ⟨0, 1⟩] false none
      [[some (.i64 1), some (.bool false)]] 1 []).Runs (Database.Step (D := recordStore) ())
      ⟨[firstTodo], fun _ => none⟩ ⟨[firstTodo], fun _ => none⟩
      (.error (classifyError duplicate)) := by
    rw [insertRows, hrow]
    exact ⟨.error duplicate, _, .plain (.inl ⟨⟨_, rfl⟩, rfl⟩), rfl, rfl⟩
  have hrows : (insertRows .new todos [⟨0, 0⟩, ⟨0, 1⟩] false none
      [[some (.i64 1), some (.bool true)],
      [some (.i64 1), some (.bool false)]] 0 []).Runs (Database.Step (D := recordStore) ())
      ⟨[], fun _ => none⟩ ⟨[firstTodo], fun _ => none⟩ (.error (classifyError duplicate)) := by
    rw [insertRows, hrow]
    exact ⟨.ok (.array [.object (recordRow firstTodo.1 firstTodo.2)]), ⟨[firstTodo], fun _ => none⟩,
      .plain (.inr ⟨_, _, rfl, rfl, rfl, rfl, rfl⟩), hsecond⟩
  refine runs_keep.mpr ⟨_, ?_, rfl⟩
  refine Prog.runs_lift_bind.mpr (.inr ⟨(), rfl, ?_⟩)
  refine Prog.runs_lift_bind.mpr (.inr ⟨none, rfl, ?_⟩)
  exact Prog.runs_bind.mpr (.inl ⟨_, hrows, rfl⟩)

/-- A person whose profile is no JSON document. -/
def person (name : String) : RecordId × Object :=
  (⟨"people", .number 1⟩, [("name", .string name), ("profile", .other 0)])

/-- The name is changed before the profile turns out not to decode. -/
theorem rename_fails : let := plain
    let := plainSurql
    (exec .new rename).Runs (Database.Step (D := recordStore) ())
      ⟨[person "ada"], fun _ => none⟩ ⟨[person "Ada"], fun _ => none⟩ (.ok (.new, .error
        (.serializationFailure "SurrealDB native JSON column contained a non-JSON value"))) := by
  let := plain
  let := plainSurql
  refine runs_keep.mpr ⟨_, ?_, rfl⟩
  refine Prog.runs_lift_bind.mpr (.inr ⟨(), rfl, ?_⟩)
  refine Prog.runs_lift_bind.mpr (.inr ⟨.i64 1, rfl, ?_⟩)
  refine Prog.runs_lift_bind.mpr (.inr ⟨_, rfl, ?_⟩)
  refine ⟨.ok (.array [.object (recordRow (person "Ada").1 (person "Ada").2)]),
    ⟨[person "Ada"], fun _ => none⟩, .plain ?_, rfl, rfl⟩
  exact .inr ⟨_, rfl, .inl ⟨_, _, rfl, rfl, rfl, rfl, rfl⟩⟩

/-- **A failed write may leave a trace**: a batch of rows, and a row that does not decode. -/
theorem failed_write_leaves_trace :
    ¬ @LeavesNoTrace plain (@recordStore plainSurql) twice ∧
      ¬ @LeavesNoTrace plain (@recordStore plainSurql) rename := by
  constructor
  · intro h
    have hs := h _ _ _ _ _ rfl twice_fails
    exact absurd (congrArg List.length hs) (by decide)
  · intro h
    have hs := h _ _ _ _ _ rfl rename_fails
    injection hs with hs _
    injection hs with _ hs
    injection hs with hs _
    injection hs with _ hs
    injection hs with hs
    exact absurd hs (by decide)

/-- What the failed batch left is what `failed_write` says. -/
theorem twice_failed_as : @FailedAs (@recordStore plainSurql) plain (classifyError duplicate) []
    [firstTodo] twice :=
  @failed_write (@recordStore plainSurql) plain _ _ _ _ _ _ _ _ _ rfl twice_fails

end ToastySurreal
