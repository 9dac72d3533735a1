import ToastySurreal.Database
import ToastySurreal.Driver
import ToastySurreal.Lib.Results

/-!
# Where an operation's queries go

Every operation sends its queries through one handle, the active transaction's when
there is one, and the reading operations send only `SELECT`s. Each lemma reads this
off an operation once; what a handle does with its queries is the database's affair.
-/

namespace ToastySurreal

open Prog Results

/-- A query of the connection's handle that satisfies `R`. -/
def Routed (conn : Connection) (R : Query → Prop) (call : Call) : Prop :=
  ∃ q, call = (if conn.transaction then .tx q else .plain q) ∧ R q

theorem Routed.mono {conn : Connection} {R R' : Query → Prop} (h : ∀ q, R q → R' q) (call : Call)
    (hc : Routed conn R call) : Routed conn R' call := by
  obtain ⟨q, hq, hr⟩ := hc
  exact ⟨q, hq, h q hr⟩

/-- Without a transaction the handle is the plain one. -/
theorem Routed.plain {conn : Connection} (hconn : conn.transaction = false) {R : Query → Prop}
    (call : Call) (hc : Routed conn R call) : ∃ q, call = .plain q := by
  obtain ⟨q, hq, _⟩ := hc
  exact ⟨q, by rw [hq, hconn]; rfl⟩

def ReadOnly (q : Query) : Prop := q.sql.isRead = true

def Conditional (q : Query) : Prop := q.sql.isConditional = true

theorem asks_runQuery {conn : Connection} {R : Query → Prop} {q : Query} (h : R q) :
    (runQuery conn q).Asks (Routed conn R) := by
  refine ⟨⟨q, rfl, h⟩, fun r => ?_⟩
  cases r <;> trivial

/-- What a transaction operation asks for: an end of the active transaction, or a new one. -/
def Ends (conn : Connection) (call : Call) : Prop :=
  if conn.transaction then call = .commit ∨ call = .cancel else call = .begin

variable {conn : Connection} {table : Table}

theorem asks_execTransaction {op : Transaction} : (execTransaction conn op).Asks (Ends conn) := by
  have hend : ∀ {call : Call}, Ends conn call →
      ((callWith classifyError call).attempt : Action (Except Error SurValue)).Asks (Ends conn) :=
    fun hcall => Asks.attempt ⟨hcall, fun r => by cases r <;> trivial⟩
  cases op with
  | start isolation readOnly mode =>
      cases isolation with
      | true => trivial
      | false =>
          cases mode with
          | other debug => trivial
          | default =>
              rw [execTransaction, if_neg Bool.false_ne_true]
              split
              · trivial
              · rename_i hconn
                refine (hend (by rw [Ends, if_neg hconn])).bind fun r => ?_
                cases r <;> trivial
  | commit =>
      rw [execTransaction]
      split
      · rename_i hconn
        exact (hend (by rw [Ends, if_pos hconn]; exact .inl rfl)).bind fun _ => trivial
      · trivial
  | rollback =>
      rw [execTransaction]
      split
      · rename_i hconn
        exact (hend (by rw [Ends, if_pos hconn]; exact .inr rfl)).bind fun _ => trivial
      · trivial
  | savepoint | releaseSavepoint | rollbackToSavepoint => trivial

/-- The operation ends the active transaction. -/
def Transaction.Finalizes : Transaction → Prop
  | .commit | .rollback => True
  | _ => False

/-- **In a transaction**, an operation that does not end it is refused. -/
theorem execTransaction_inside {op : Transaction} (hconn : conn.transaction = true)
    (hop : ¬ op.Finalizes) : ∃ err, execTransaction conn op = .done (conn, .error err) := by
  cases op with
  | start isolation readOnly mode =>
      cases isolation with
      | true => exact ⟨_, rfl⟩
      | false =>
          cases mode with
          | other debug => exact ⟨_, rfl⟩
          | default =>
              rw [execTransaction, if_neg Bool.false_ne_true, if_pos hconn]
              exact ⟨_, rfl⟩
  | commit => exact absurd trivial hop
  | rollback => exact absurd trivial hop
  | savepoint | releaseSavepoint | rollbackToSavepoint => exact ⟨_, rfl⟩

/-- Without a transaction there is none to end. -/
theorem execTransaction_outside {op : Transaction} (hconn : conn.transaction = false)
    (hop : op.Finalizes) : ∃ err, execTransaction conn op = .done (conn, .error err) := by
  cases op with
  | commit | rollback =>
      rw [execTransaction, hconn, if_neg Bool.false_ne_true]
      exact ⟨_, rfl⟩
  | start | savepoint | releaseSavepoint | rollbackToSavepoint => exact hop.elim

/-- The end of an active transaction is one call. -/
theorem execTransaction_finish {op : Transaction} (hconn : conn.transaction = true)
    (hop : op.Finalizes) : ∃ call, execTransaction conn op = finishTransaction call := by
  cases op with
  | commit | rollback =>
      rw [execTransaction, if_pos hconn]
      exact ⟨_, rfl⟩
  | start | savepoint | releaseSavepoint | rollbackToSavepoint => exact hop.elim

/-- **After its end** the handle of a transaction is gone, whatever the SDK replied. -/
theorem runs_finishTransaction {S : Type} {step : S → Call → Reply → S → Prop} {call : Call}
    {s s' : S} {out : Except Error (Outcome ExecResponse)}
    (h : (finishTransaction call).Runs step s s' out) :
    ∃ r result, step s call r s' ∧ out = .ok (.new, result) := by
  rw [finishTransaction, runs_bind] at h
  rcases h with ⟨e, hcall, _⟩ | ⟨result, s₁, hcall, rfl, rfl⟩
  · obtain ⟨r, _, hr⟩ := runs_attempt.mp hcall
    exact absurd hr (by simp)
  · obtain ⟨out, hout, _⟩ := runs_attempt.mp hcall
    obtain ⟨r, hstep, _⟩ := Database.runs_callWith.mp hout
    exact ⟨r, _, hstep, rfl⟩

/-- A default start without an active transaction begins one, or fails with the SDK's error. -/
theorem runs_start {S : Type} {step : S → Call → Reply → S → Prop} {readOnly : Bool}
    {s s' : S} {out : Except Error (Outcome ExecResponse)} (hconn : conn.transaction = false)
    (h : (execTransaction conn (.start false readOnly .default)).Runs step s s' out) :
    ∃ r, step s .begin r s' ∧
      ((∃ v, r = .ok v ∧ out = .ok (⟨true, readOnly⟩, .ok (.count 0))) ∨
        ∃ err, r = .error err ∧ out = .ok (conn, .error (classifyError err))) := by
  rw [execTransaction, if_neg Bool.false_ne_true, hconn, if_neg Bool.false_ne_true, runs_bind] at h
  rcases h with ⟨e, hcall, _⟩ | ⟨result, s₁, hcall, hdone⟩
  · obtain ⟨r, _, hr⟩ := runs_attempt.mp hcall
    exact absurd hr (by simp)
  · obtain ⟨r, hrun, hr⟩ := runs_attempt.mp hcall
    injection hr with hr; subst hr
    obtain ⟨reply, hstep, rfl⟩ := Database.runs_callWith.mp hrun
    cases reply with
    | ok v =>
        obtain ⟨rfl, hout⟩ := hdone
        exact ⟨_, hstep, .inl ⟨v, rfl, hout⟩⟩
    | error err =>
        obtain ⟨rfl, hout⟩ := hdone
        exact ⟨_, hstep, .inr ⟨err, rfl, hout⟩⟩

variable [Sdk]

/-! ## The reading operations -/

theorem asks_execGetByKey (op : GetByKey) :
    (execGetByKey conn table op).Asks (Routed conn fun q => getQuery table op = .ok q) := by
  unfold execGetByKey
  split
  · trivial
  · exact Asks.lift_bind fun q hq => (asks_runQuery hq).bind fun _ =>
      (Asks.lift _).bind fun _ => trivial

theorem getQuery_reads {op : GetByKey} {q : Query} (h : getQuery table op = .ok q) :
    ReadOnly q := by
  unfold getQuery at h
  obtain ⟨binds, _, h⟩ := bind_eq_ok h
  injection h with h; subst h
  rfl

theorem reads_execGetByKey (op : GetByKey) :
    (execGetByKey conn table op).Asks (Routed conn ReadOnly) :=
  (asks_execGetByKey op).mono (Routed.mono fun _ => getQuery_reads)

theorem asks_runKeysetSelect (input : KeysetSelect) :
    (runKeysetSelect conn input).Asks (Routed conn ReadOnly) := by
  unfold runKeysetSelect
  cases hq : keysetQuery input with
  | error e => trivial
  | ok q =>
      have hread : ReadOnly q := by
        unfold keysetQuery at hq
        obtain ⟨⟨resume, binds⟩, _, hq⟩ := bind_eq_ok hq
        injection hq with hq; subst hq; rfl
      exact (asks_runQuery hread).bind fun _ =>
        (Asks.lift _).bind fun _ => (Asks.lift _).bind fun _ => trivial

theorem asks_execQueryPk (op : QueryPk) : (execQueryPk conn table op).Asks (Routed conn ReadOnly) :=
  (Asks.lift _).bind fun _ => asks_runKeysetSelect _

theorem asks_execScan (op : Scan) : (execScan conn table op).Asks (Routed conn ReadOnly) :=
  (Asks.lift _).bind fun _ => asks_runKeysetSelect _

theorem asks_execFindPkByIndex (op : FindPkByIndex) :
    (execFindPkByIndex conn table op).Asks (Routed conn ReadOnly) :=
  (Asks.lift _).bind fun _ => (asks_runQuery (R := ReadOnly) (by rfl)).bind fun _ =>
    (Asks.lift _).bind fun _ => trivial

/-! ## The writing operations -/

/-- What an insert sends: the `CREATE` of a row. -/
def Insert.Sends (table : Table) (insert : Insert) (q : Query) : Prop :=
  ∃ rows row rid content want, insert.values = some rows ∧ row ∈ rows ∧
    buildRow "insert" table insert.columns row = .ok (rid, content) ∧ q =
    createQuery rid content want

/-- What an upsert sends: the `CREATE` of its row, or the `UPSERT`. -/
def Upsert.Sends (table : Table) (op : Upsert) (q : Query) : Prop :=
  ∃ clause row rid content want, upsertSource table op = .ok (clause, row) ∧
    buildRow "upsert" table op.insert.columns row = .ok (rid, content) ∧
    (q = createQuery rid content want ∨
      upsertQuery table op.insert clause row rid content want = .ok q)

theorem asks_insertRows {insert : Insert} {all : List Row} {want : Bool}
    {returning : Option (List Column)} (hvalues : insert.values = some all) :
    ∀ (rows : List Row) (count : Nat) (records : List Value), rows ⊆ all →
    (insertRows conn table insert.columns want returning rows count records).Asks
      (Routed conn (insert.Sends table))
  | [], _, _, _ => trivial
  | row :: rows, _, _, hrows => by
      rw [insertRows]
      refine Asks.lift_bind fun built hbuild => ?_
      have hsend : insert.Sends table (createQuery built.1 built.2 want) :=
        ⟨all, row, _, _, want, hvalues, hrows List.mem_cons_self, hbuild, rfl⟩
      exact (asks_runQuery hsend).bind fun _ => (Asks.lift _).bind fun _ =>
        asks_insertRows hvalues rows _ _ fun r hr => hrows (List.mem_cons_of_mem row hr)

theorem asks_execInsert (insert : Insert) (ret : Bool) :
    (execInsert conn table insert ret).Asks (Routed conn (insert.Sends table)) := by
  unfold execInsert
  split
  · trivial
  · rename_i rows hvalues
    exact (Asks.lift _).bind fun _ =>
      (asks_insertRows hvalues rows _ _ fun _ h => h).bind fun _ => trivial

omit [Sdk] in
theorem singleKey_ok {op : String} {keys : List Value} {key : Value}
    (h : singleKey op keys = .ok key) : keys = [key] := by
  unfold singleKey at h
  split at h
  · injection h with h; subst h; rfl
  · exact absurd h (by simp)

theorem updateQuery_conditional {op : UpdateByKey} {key : Value} {q : Query}
    (h : updateQuery table op key = .ok q) : Conditional q := by
  unfold updateQuery at h
  obtain ⟨⟨sets, binds⟩, _, h₁⟩ := bind_eq_ok h
  obtain ⟨⟨clauses, binds'⟩, _, h₂⟩ := bind_eq_ok h₁
  obtain ⟨rid, _, h₃⟩ := bind_eq_ok h₂
  injection h₃ with h₃; subst h₃
  rfl

theorem deleteQuery_conditional {op : DeleteByKey} {key : Value} {q : Query}
    (h : deleteQuery table op key = .ok q) : Conditional q := by
  unfold deleteQuery at h
  obtain ⟨⟨clauses, binds⟩, _, h₁⟩ := bind_eq_ok h
  obtain ⟨rid, _, h₂⟩ := bind_eq_ok h₁
  injection h₂ with h₂; subst h₂
  rfl

/-- What an update sends: the `UPDATE` of its key. -/
def UpdateByKey.Sends (table : Table) (op : UpdateByKey) (q : Query) : Prop :=
  ∃ key, op.keys = [key] ∧ updateQuery table op key = .ok q

/-- What a deletion sends: the `DELETE` of its key. -/
def DeleteByKey.Sends (table : Table) (op : DeleteByKey) (q : Query) : Prop :=
  ∃ key, op.keys = [key] ∧ deleteQuery table op key = .ok q

theorem asks_execUpdateByKey (op : UpdateByKey) :
    (execUpdateByKey conn table op).Asks (Routed conn (op.Sends table)) := by
  rw [execUpdateByKey]
  refine Asks.lift_bind fun key hkey => Asks.lift_bind fun q hq => ?_
  have hsend : op.Sends table q := ⟨key, singleKey_ok hkey, hq⟩
  refine (asks_runQuery hsend).bind fun value => ?_
  dsimp only
  split
  · trivial
  · split
    · exact (Asks.lift _).bind fun _ => trivial
    · trivial

theorem asks_execDeleteByKey (op : DeleteByKey) :
    (execDeleteByKey conn table op).Asks (Routed conn (op.Sends table)) := by
  rw [execDeleteByKey]
  refine Asks.lift_bind fun key hkey => Asks.lift_bind fun q hq => ?_
  have hsend : op.Sends table q := ⟨key, singleKey_ok hkey, hq⟩
  refine (asks_runQuery hsend).bind fun value => ?_
  dsimp only
  split <;> trivial

/-- What an upsert sends, by its action. -/
def Upsert.SendsBy (table : Table) (op : Upsert) (q : Query) : Prop :=
  ∃ clause row rid content want, upsertSource table op = .ok (clause, row) ∧
    buildRow "upsert" table op.insert.columns row = .ok (rid, content) ∧
    (clause.action = .ignore ∧ q = createQuery rid content want ∨
      clause.action = .update ∧ upsertQuery table op.insert clause row rid content want = .ok q)

theorem asks_upsert_action (op : Upsert) :
    (execUpsert conn table op).Asks (Routed conn (op.SendsBy table)) := by
  rw [execUpsert]
  refine Asks.lift_bind fun source hsource => Asks.lift_bind fun built hbuild =>
    (Asks.lift _).bind fun returning => ?_
  split
  · rename_i haction
    refine Asks.lift_bind fun q hq => (asks_runQuery ?_).bind fun _ => Asks.lift _
    exact ⟨_, _, _, _, _, hsource, hbuild, .inr ⟨haction, hq⟩⟩
  · rename_i haction
    refine (asks_runQuery ?_).attempt.bind fun result => ?_
    · exact ⟨_, _, _, _, _, hsource, hbuild, .inl ⟨haction, rfl⟩⟩
    · cases result with
      | ok value => exact Asks.lift _
      | error err =>
          dsimp only
          split <;> trivial

theorem asks_execUpsert (op : Upsert) :
    (execUpsert conn table op).Asks (Routed conn (op.Sends table)) := by
  refine (asks_upsert_action op).mono (Routed.mono fun q hsend => ?_)
  obtain ⟨clause, row, rid, content, want, hsource, hbuild, hq⟩ := hsend
  exact ⟨clause, row, rid, content, want, hsource, hbuild, hq.imp And.right And.right⟩

/-! ## Methods of a connection -/

omit [Sdk] in
/-- What a method that keeps the connection does. -/
theorem runs_keep {S α : Type} {step : S → Call → Reply → S → Prop} {p : Action α} {s s' : S}
    {out : Except Error (Outcome α)} :
    (conn.keep p).Runs step s s' out ↔ ∃ result, p.Runs step s s' result ∧ out =
    .ok (conn, result) := by
  rw [Connection.keep, runs_bind]
  constructor
  · intro h
    rcases h with ⟨e, hp, _⟩ | ⟨result, s₁, hp, rfl, hout⟩
    · obtain ⟨r, _, hr⟩ := runs_attempt.mp hp
      exact absurd hr (by simp)
    · obtain ⟨r, hr, he⟩ := runs_attempt.mp hp
      injection he with he; subst he
      exact ⟨_, hr, hout⟩
  · intro h
    obtain ⟨result, hp, hout⟩ := h
    exact .inr ⟨result, s', runs_attempt.mpr ⟨result, hp, rfl⟩, rfl, hout⟩

omit [Sdk] in
theorem asks_guarded {α : Type} {operation : String} {p : Action α} {P : Call → Prop}
    (h : p.Asks P) : (guarded conn operation p).Asks P :=
  (Asks.lift _).bind fun _ => h

omit [Sdk] in
/-- A guarded write that failed was refused, or failed itself. -/
theorem guarded_error {S α : Type} {step : S → Call → Reply → S → Prop} {operation : String}
    {p : Action α} {s s' : S} {err : Error}
    (h : (guarded conn operation p).Runs step s s' (.error err)) :
    s' = s ∨ p.Runs step s s' (.error err) := by
  rcases runs_lift_bind.mp h with ⟨e, _, hs, _⟩ | ⟨_, _, hp⟩
  · exact .inl hs
  · exact .inr hp

omit [Sdk] in
/-- **What every query keeps, a run of them keeps.** -/
theorem routed_keeps {D : Database} {I : D.State → Prop} {R : Query → Prop} {d d' : D.State}
    {α : Type} {p : Action α} {out : Except Error α}
    (hstep : ∀ d q r d', I d → R q → D.exec d q r d' → I d') (hp : p.Asks (Routed conn R))
    (hd : I d) (h : p.Runs D.Handle d d' out) : I d' := by
  refine Runs.invariant (I := I) ?_ hp hd h
  intro x call r x' hcall hx hhandle
  obtain ⟨q, rfl, hq⟩ := hcall
  refine hstep x q r x' hx hq ?_
  split at hhandle <;> exact hhandle

omit [Sdk] in
/-- Queries that only read change nothing. -/
theorem reads_keep {D : Database} {d d' : D.State} {α : Type} {p : Action α} {out : Except Error α}
    (hp : p.Asks (Routed conn ReadOnly)) (h : p.Runs D.Handle d d' out) : d' = d := by
  refine routed_keeps (I := fun x => x = d) ?_ hp rfl h
  intro x q r x' hx hq hexec
  rw [← hx]
  exact D.reads hq hexec

omit [Sdk] in
/-- A transaction operation sends nothing through a handle. -/
theorem transaction_keeps {D : Database} {d d' : D.State} {op : Transaction}
    {out : Except Error (Outcome ExecResponse)}
    (h : (execTransaction conn op).Runs D.Handle d d' out) : d' = d := by
  refine Runs.invariant (I := fun x => x = d) ?_ asks_execTransaction rfl h
  intro x call r x' hcall _ hhandle
  unfold Ends at hcall
  split at hcall
  · rcases hcall with rfl | rfl <;> exact hhandle.elim
  · subst hcall; exact hhandle.elim

/-- The queries an operation can send. -/
def Operation.Sends (op : Operation) (q : Query) : Prop :=
  match op with
  | .querySql (.ok (table, stmt)) _ | .insert (some (table, stmt)) _ => stmt.Sends table q
  | .getByKey table op => getQuery table op = .ok q
  | .queryPk _ _ | .findPkByIndex _ _ | .scan _ _ => ReadOnly q
  | .updateByKey table op => op.Sends table q
  | .deleteByKey table op => op.Sends table q
  | .upsert table op => op.Sends table q
  | .querySql (.error _) _ | .insert none _ | .rawSql | .transaction _ => False

/-- **An operation on data** keeps the connection and sends its queries through its handle. -/
theorem exec_data {op : Operation} (hop : ∀ t, op ≠ .transaction t) :
    ∃ p, exec conn op = conn.keep p ∧ p.Asks (Routed conn op.Sends) := by
  cases op with
  | querySql stmt ret =>
      cases stmt with
      | ok stmt => exact ⟨_, rfl, asks_guarded (asks_execInsert _ _)⟩
      | error name => exact ⟨_, rfl, trivial⟩
  | insert stmt ret =>
      cases stmt with
      | some stmt => exact ⟨_, rfl, asks_guarded (asks_execInsert _ _)⟩
      | none => exact ⟨_, rfl, asks_guarded trivial⟩
  | getByKey table op => exact ⟨_, rfl, asks_execGetByKey op⟩
  | queryPk table op => exact ⟨_, rfl, asks_execQueryPk op⟩
  | findPkByIndex table op => exact ⟨_, rfl, asks_execFindPkByIndex op⟩
  | scan table op => exact ⟨_, rfl, asks_execScan op⟩
  | updateByKey table op => exact ⟨_, rfl, asks_guarded (asks_execUpdateByKey op)⟩
  | deleteByKey table op => exact ⟨_, rfl, asks_guarded (asks_execDeleteByKey op)⟩
  | upsert table op => exact ⟨_, rfl, asks_guarded (asks_execUpsert op)⟩
  | rawSql => exact ⟨_, rfl, trivial⟩
  | transaction op => exact absurd rfl (hop op)

end ToastySurreal
