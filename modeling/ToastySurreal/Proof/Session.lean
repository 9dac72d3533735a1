import ToastySurreal.Plain
import ToastySurreal.Proof.Routing

/-!
# A connection and its transaction

A connection is idle or holds a transaction, read-only or not. A session is any sequence
of operations on one connection against an SDK that answers anything: each call may
succeed or fail. `exec_leaves` says once what an operation can do to the connection;
`session_disciplined` says what holds in every state a session reaches.
-/

namespace ToastySurreal

open Prog

/-! ## Sessions -/

/-- The calls so far, each with its reply. -/
abbrev CallLog := List (Call × Reply)

/-- The SDK answers anything. -/
def Replies (log : CallLog) (call : Call) (reply : Reply) (log' : CallLog) : Prop :=
  log' = log ++ [(call, reply)]

/-- The operation commits or rolls back. -/
def Operation.Finalizes : Operation → Prop
  | .transaction op => op.Finalizes
  | _ => False

/-- An insert, plain or wrapped, an update, a deletion or an upsert, whatever it carries. -/
def Operation.Writes : Operation → Prop
  | .querySql (.ok _) _ | .insert .. | .updateByKey .. | .deleteByKey .. | .upsert .. => True
  | _ => False

/-- The default start of a transaction. -/
def startDefault (readOnly : Bool) : Operation := .transaction (.start false readOnly .default)

/-- What a start is told while a transaction is active. -/
def alreadyActive : Error :=
  .invalidStatement "SurrealDB connection already has an active transaction"

section

variable [Sdk] {conn conn' : Connection} {op : Operation} {log log' : CallLog}
variable {result : Except Error ExecResponse}

/-- A sequence of operations on one connection, each taken to its end. -/
def Execs : Connection → CallLog → List Operation → Connection → CallLog → Prop
  | conn, log, [], conn', log' => conn' = conn ∧ log' = log
  | conn, log, op :: ops, conn', log' => ∃ conn₁ log₁ result,
      (exec conn op).Runs Replies log log₁ (.ok (conn₁, result)) ∧ Execs conn₁ log₁ ops conn' log'

/-- What a connection keeps to, whatever happened before and whatever the SDK answers. -/
structure Disciplined (conn : Connection) (log : CallLog) : Prop where
  /-- Read-only goes with an active transaction. -/
  active : conn.readOnly = true → conn.transaction = true
  /-- An operation that failed leaves the connection as it was, unless it was to end an
  active transaction. -/
  kept : ∀ op log' conn' err, (exec conn op).Runs Replies log log' (.ok (conn', .error err)) →
    ¬ (op.Finalizes ∧ conn.transaction = true) → conn' = conn
  /-- The end of an active transaction leaves an idle and writable connection. -/
  ended : ∀ op log' conn' result, op.Finalizes → conn.transaction = true →
    (exec conn op).Runs Replies log log' (.ok (conn', result)) → conn' = .new
  /-- A read-only transaction refuses every write and sends nothing. -/
  refused : ∀ op log' conn' result, conn.readOnly = true → op.Writes →
    (exec conn op).Runs Replies log log' (.ok (conn', result)) →
    log' = log ∧ conn' = conn ∧ ∃ message, result = .error (.readOnlyTransaction message)
  /-- After a commit or a rollback no transaction is in the way of another. -/
  restarts : ∀ op log₁ conn₁ result₁, op.Finalizes →
    (exec conn op).Runs Replies log log₁ (.ok (conn₁, result₁)) → ∀ readOnly log₂ conn₂ result₂,
    (exec conn₁ (startDefault readOnly)).Runs Replies log₁ log₂ (.ok (conn₂, result₂)) →
    result₂ ≠ .error alreadyActive
  /-- From a start to the commit or rollback, everything goes through the transaction. -/
  routed : ∀ isolation readOnly mode log₁ conn₁ resp,
    (exec conn (.transaction (.start isolation readOnly mode))).Runs Replies log log₁
      (.ok (conn₁, .ok resp)) →
    ∀ ops conn₂ log₂, (∀ op ∈ ops, ¬ op.Finalizes) → Execs conn₁ log₁ ops conn₂ log₂ →
    ∃ sent, log₂ = log₁ ++ sent ∧ ∀ call ∈ sent, ∃ q, call.1 = .tx q

/-! ## One operation -/

omit [Sdk] in
/-- A program's calls are added to the log. -/
theorem runs_replies {α : Type} {P : Call → Prop} {p : Action α} {out : Except Error α}
    (hp : p.Asks P) (h : p.Runs Replies log log' out) :
    ∃ sent, log' = log ++ sent ∧ ∀ call ∈ sent, P call.1 := by
  refine Runs.invariant (I := fun l => ∃ sent, l = log ++ sent ∧ ∀ call ∈ sent, P call.1) ?_ hp
    ⟨[], by simp, by simp⟩ h
  intro l call r l' hcall hl hstep
  obtain ⟨sent, rfl, hsent⟩ := hl
  obtain rfl := hstep
  refine ⟨sent ++ [(call, r)], by simp, ?_⟩
  intro c hc
  rcases List.mem_append.mp hc with hc | hc
  · exact hsent c hc
  · rw [List.mem_singleton.mp hc]; exact hcall

/-- **What an operation leaves**: the connection as it was, an idle one after the end of a
transaction, or a new transaction after a start that succeeded. -/
theorem exec_leaves {S : Type} {step : S → Call → Reply → S → Prop} {s s' : S}
    {out : Except Error (Outcome ExecResponse)} (h : (exec conn op).Runs step s s' out) :
    ∃ conn' result, out = .ok (conn', result) ∧
      ((conn' = conn ∧ ¬ (op.Finalizes ∧ conn.transaction = true) ∧
          ((∃ t, op = .transaction t) → ∃ err, result = .error err)) ∨
        (op.Finalizes ∧ conn.transaction = true ∧ conn' = .new) ∨
        ∃ readOnly resp, op = startDefault readOnly ∧ conn.transaction = false ∧
          conn' = ⟨true, readOnly⟩ ∧ result = .ok resp) := by
  by_cases hop : ∃ t, op = .transaction t
  · obtain ⟨t, rfl⟩ := hop
    rw [exec] at h
    -- an end of a transaction that is active clears the handle, whatever is answered
    by_cases hfin : t.Finalizes
    · by_cases hconn : conn.transaction = true
      · obtain ⟨call, hcall⟩ := execTransaction_finish hconn hfin
        rw [hcall] at h
        obtain ⟨_, result, _, rfl⟩ := runs_finishTransaction h
        exact ⟨_, _, rfl, .inr (.inl ⟨hfin, hconn, rfl⟩)⟩
      · obtain ⟨err, hout⟩ := execTransaction_outside (by simpa using hconn) hfin
        rw [hout] at h
        exact ⟨_, _, h.2, .inl ⟨rfl, fun hc => hconn hc.2, fun _ => ⟨_, rfl⟩⟩⟩
    · have hno : ¬ ((Operation.transaction t).Finalizes ∧ conn.transaction = true) :=
        fun hc => hfin hc.1
      by_cases hconn : conn.transaction = true
      · obtain ⟨err, hin⟩ := execTransaction_inside hconn hfin
        rw [hin] at h
        exact ⟨_, _, h.2, .inl ⟨rfl, hno, fun _ => ⟨_, rfl⟩⟩⟩
      · have hidle : conn.transaction = false := by simpa using hconn
        cases t with
        | commit | rollback => exact absurd trivial hfin
        | savepoint | releaseSavepoint | rollbackToSavepoint =>
            exact ⟨_, _, h.2, .inl ⟨rfl, hno, fun _ => ⟨_, rfl⟩⟩⟩
        | start isolation readOnly mode =>
            -- a start is refused unless it is plain
            cases isolation with
            | true => exact ⟨_, _, h.2, .inl ⟨rfl, hno, fun _ => ⟨_, rfl⟩⟩⟩
            | false =>
                cases mode with
                | other debug => exact ⟨_, _, h.2, .inl ⟨rfl, hno, fun _ => ⟨_, rfl⟩⟩⟩
                | default =>
                    obtain ⟨r, _, ⟨v, _, rfl⟩ | ⟨err, _, rfl⟩⟩ := runs_start hidle h
                    · exact ⟨_, _, rfl, .inr (.inr ⟨readOnly, _, rfl, hidle, rfl, rfl⟩)⟩
                    · exact ⟨_, _, rfl, .inl ⟨rfl, hno, fun _ => ⟨_, rfl⟩⟩⟩
  -- any other operation hands the connection back as it was
  · obtain ⟨p, hp, _⟩ := @exec_data conn _ op fun t ht => hop ⟨t, ht⟩
    rw [hp] at h
    obtain ⟨result, _, rfl⟩ := runs_keep.mp h
    refine ⟨_, _, rfl, .inl ⟨rfl, fun hc => ?_, fun ht => absurd ht hop⟩⟩
    cases op with
    | transaction t => exact hop ⟨t, rfl⟩
    | _ => exact hc.1

/-- A write is behind the guard. -/
theorem exec_guarded (hop : op.Writes) :
    ∃ name p, exec conn op = conn.keep (guarded conn name p) := by
  cases op with
  | querySql stmt ret =>
      cases stmt with
      | ok stmt => exact ⟨_, _, rfl⟩
      | error name => exact hop.elim
  | insert stmt ret => exact ⟨_, _, rfl⟩
  | updateByKey table op => exact ⟨_, _, rfl⟩
  | deleteByKey table op => exact ⟨_, _, rfl⟩
  | upsert table op => exact ⟨_, _, rfl⟩
  | getByKey | queryPk | findPkByIndex | scan | rawSql | transaction => exact hop.elim

/-- **A write in a read-only transaction** is refused before anything is sent. -/
theorem exec_refused {S : Type} {step : S → Call → Reply → S → Prop} {s s' : S}
    (hread : conn.readOnly = true) (hop : op.Writes)
    (h : (exec conn op).Runs step s s' (.ok (conn', result))) :
    s' = s ∧ conn' = conn ∧ ∃ message, result = .error (.readOnlyTransaction message) := by
  obtain ⟨name, p, hp⟩ := @exec_guarded _ conn op hop
  rw [hp] at h
  obtain ⟨result', hrun, hout⟩ := runs_keep.mp h
  injection hout with hout; injection hout with hconn hresult; subst hconn hresult
  rw [guarded, ensureWritable, if_pos hread] at hrun
  obtain ⟨rfl, rfl⟩ := hrun
  exact ⟨rfl, rfl, _, rfl⟩

/-- **An operation in a transaction** that does not end it keeps it and sends everything
through it. -/
theorem exec_inside (hconn : conn.transaction = true) (hop : ¬ op.Finalizes)
    (h : (exec conn op).Runs Replies log log' (.ok (conn', result))) :
    conn' = conn ∧ ∃ sent, log' = log ++ sent ∧ ∀ call ∈ sent, ∃ q, call.1 = .tx q := by
  by_cases hdata : ∃ t, op = .transaction t
  · obtain ⟨t, rfl⟩ := hdata
    obtain ⟨err, hin⟩ := execTransaction_inside hconn hop
    rw [exec, hin] at h
    obtain ⟨rfl, hout⟩ := h
    injection hout with hout; injection hout with hc _
    exact ⟨hc, [], by simp, by simp⟩
  · obtain ⟨p, hp, hasks⟩ := @exec_data conn _ op fun t ht => hdata ⟨t, ht⟩
    rw [hp] at h
    obtain ⟨result', hrun, hout⟩ := runs_keep.mp h
    injection hout with hout; injection hout with hc _
    have htx : p.Asks fun call => ∃ q, call = .tx q := hasks.mono fun call hcall => by
      obtain ⟨q, rfl, _⟩ := hcall
      exact ⟨q, if_pos hconn⟩
    exact ⟨hc, runs_replies htx hrun⟩

/-- Everything a sequence of operations inside a transaction sends goes through it. -/
theorem execs_inside : ∀ {ops : List Operation} {conn conn' : Connection} {log log' : CallLog},
    conn.transaction = true → (∀ op ∈ ops, ¬ op.Finalizes) → Execs conn log ops conn' log' →
    ∃ sent, log' = log ++ sent ∧ ∀ call ∈ sent, ∃ q, call.1 = .tx q
  | [], _, _, _, _, _, _, h => ⟨[], by simp [h.2], by simp⟩
  | op :: ops, conn, conn', log, log', hconn, hops, h => by
      obtain ⟨conn₁, log₁, result, hrun, hrest⟩ := h
      obtain ⟨rfl, sent, rfl, hsent⟩ := exec_inside hconn (hops op List.mem_cons_self) hrun
      obtain ⟨sent', rfl, hsent'⟩ :=
        execs_inside hconn (fun o ho => hops o (List.mem_cons_of_mem op ho)) hrest
      refine ⟨sent ++ sent', by simp, ?_⟩
      intro call hcall
      rcases List.mem_append.mp hcall with hc | hc
      · exact hsent call hc
      · exact hsent' call hc

/-! ## Sessions -/

/-- **Read-only goes with a transaction** after every operation. -/
theorem active_step (hi : conn.readOnly = true → conn.transaction = true)
    (h : (exec conn op).Runs Replies log log' (.ok (conn', result))) :
    conn'.readOnly = true → conn'.transaction = true := by
  obtain ⟨_, _, hout, hleaves⟩ := exec_leaves h
  injection hout with hout; injection hout with hc hr; subst hc hr
  rcases hleaves with ⟨rfl, _⟩ | ⟨_, _, rfl⟩ | ⟨readOnly, resp, _, _, rfl, _⟩
  · exact hi
  · exact fun hread => absurd hread (by simp [Connection.new])
  · exact fun _ => rfl

theorem active_execs : ∀ {ops : List Operation} {conn conn' : Connection} {log log' : CallLog},
    (conn.readOnly = true → conn.transaction = true) → Execs conn log ops conn' log' →
    conn'.readOnly = true → conn'.transaction = true
  | [], _, _, _, _, hi, h => h.1 ▸ hi
  | op :: ops, _, _, _, _, hi, h => by
      obtain ⟨conn₁, log₁, result, hrun, hrest⟩ := h
      exact active_execs (active_step hi hrun) hrest

omit [Sdk] in
/-- An SDK's error is never taken for an active transaction. -/
theorem classifyError_ne_active (err : DbError) : classifyError err ≠ alreadyActive := by
  intro h
  have hkind := congrArg Error.kind h
  unfold classifyError at hkind
  split at hkind
  · exact ErrorKind.noConfusion hkind
  · split at hkind
    · exact ErrorKind.noConfusion hkind
    · exact ErrorKind.noConfusion hkind

/-- A default start on an idle connection is not told that a transaction is active. -/
theorem restart {readOnly : Bool} (hconn : conn.transaction = false)
    (h : (exec conn (startDefault readOnly)).Runs Replies log log' (.ok (conn', result))) :
    result ≠ .error alreadyActive := by
  obtain ⟨r, _, ⟨v, _, hout⟩ | ⟨err, _, hout⟩⟩ := runs_start hconn h
  · injection hout with hout; injection hout with _ hr; subst hr
    simp
  · injection hout with hout; injection hout with _ hr; subst hr
    intro hc
    injection hc with hc
    exact classifyError_ne_active err hc

/-- **The states of a session**: whatever operations came before and whatever the SDK
answered to them. -/
theorem session_disciplined {ops : List Operation} (h : Execs .new [] ops conn log) :
    Disciplined conn log where
  active := active_execs (fun hread => absurd hread (by simp [Connection.new])) h
  kept op log' conn' err hrun hno := by
    obtain ⟨_, _, hout, hleaves⟩ := exec_leaves hrun
    injection hout with hout; injection hout with hc hr; subst hc hr
    rcases hleaves with ⟨rfl, _⟩ | ⟨hfin, hconn, _⟩ | ⟨_, _, _, _, _, hok⟩
    · rfl
    · exact absurd ⟨hfin, hconn⟩ hno
    · exact absurd hok (by simp)
  ended op log' conn' result hfin hconn hrun := by
    obtain ⟨_, _, hout, hleaves⟩ := exec_leaves hrun
    injection hout with hout; injection hout with hc hr; subst hc hr
    rcases hleaves with ⟨_, hno, _⟩ | ⟨_, _, hnew⟩ | ⟨_, _, rfl, _⟩
    · exact absurd ⟨hfin, hconn⟩ hno
    · exact hnew
    · exact hfin.elim
  refused _ _ _ _ hread hop hrun := exec_refused hread hop hrun
  restarts op log₁ conn₁ result₁ hfin hrun readOnly log₂ conn₂ result₂ hstart := by
    refine restart ?_ hstart
    obtain ⟨_, _, hout, hleaves⟩ := exec_leaves hrun
    injection hout with hout; injection hout with hc hr; subst hc hr
    rcases hleaves with ⟨rfl, hno, _⟩ | ⟨_, _, rfl⟩ | ⟨_, _, rfl, _⟩
    · simpa using fun hconn => hno ⟨hfin, hconn⟩
    · rfl
    · exact hfin.elim
  routed isolation readOnly mode log₁ conn₁ resp hstart ops conn₂ log₂ hops hexecs := by
    refine execs_inside ?_ hops hexecs
    obtain ⟨_, _, hout, hleaves⟩ := exec_leaves hstart
    injection hout with hout; injection hout with hc hr; subst hc hr
    rcases hleaves with ⟨_, _, hfail⟩ | ⟨hfin, _⟩ | ⟨_, _, _, _, rfl, _⟩
    · obtain ⟨err, herr⟩ := hfail ⟨_, rfl⟩
      exact absurd herr (by simp)
    · exact hfin.elim
    · rfl

end

/-- A read-only transaction whose commit fails leaves a state the session may go on from. -/
theorem failed_commit_disciplined : @Disciplined plain .new
    [(.begin, .ok .none), (.commit, .error ⟨"The connection was lost", false⟩)] :=
  @session_disciplined plain _ _ [startDefault true, .transaction .commit]
    ⟨⟨true, true⟩, _, _, ⟨.ok .none, _, rfl, rfl, rfl⟩,
      .new, _, _, ⟨.error ⟨"The connection was lost", false⟩, _, rfl, rfl, rfl⟩, rfl, rfl⟩

end ToastySurreal
