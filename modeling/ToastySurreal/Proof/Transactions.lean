import ToastySurreal.Plain
import ToastySurreal.Proof.Grouping
import ToastySurreal.Proof.Routing

/-!
# What happens inside a transaction stays inside

Between the start of a transaction and its end, the calls of a connection change the
transaction's working copy and nothing else of the server, so that cancelling it
restores the state at the start; and when it is read-only, not even the working copy
changes. One call breaks this: `push_schema` defines its tables through the plain
handle, without asking whether a transaction is active. `transaction_contained` is
about every other sequence of calls.
-/

namespace ToastySurreal

open Results Prog

/-! ## Calls of a connection -/

/-- A call of the `Connection` trait. -/
inductive Method where
  | exec (op : Operation)
  | pushSchema (tables : List Table)
  | appliedMigrations
  | applyMigration (id : UInt64) (name : String) (statements : List String)

/-- The call ends the active transaction. -/
def Method.Finalizes : Method → Prop
  | .exec (.transaction .commit) | .exec (.transaction .rollback) => True
  | _ => False

/-- The call pushes no table. -/
def Method.PushesNothing : Method → Prop
  | .pushSchema tables => tables = []
  | _ => True

section Contained

variable [Sdk]

/-- A call, and the connection it leaves. -/
def Method.call (conn : Connection) : Method → Action Connection
  | .exec op => do
      let out ← ToastySurreal.exec conn op
      .done out.1
  | .pushSchema tables => do
      let out ← ToastySurreal.pushSchema conn tables
      .done out.1
  | .appliedMigrations => do
      let out ← conn.keep (ToastySurreal.appliedMigrations conn)
      .done out.1
  | .applyMigration id name statements => do
      let out ← conn.keep (ToastySurreal.applyMigration conn id name statements)
      .done out.1

variable {D : Database} {ι : Type} [DecidableEq ι] {i : ι}

/-- A sequence of calls on one connection, each taken to its end. -/
def Session (i : ι) : Connection → D.Server ι → List Method → Connection → D.Server ι → Prop
  | conn, s, [], conn', s' => conn' = conn ∧ s' = s
  | conn, s, m :: ms, conn', s' =>
      ∃ conn₁ s₁, (m.call conn).Runs (Database.Step i) s s₁ (.ok conn₁) ∧
      Session i conn₁ s₁ ms conn' s'

variable (D) in
/-- However a transaction is started and these calls are made in it, only the
connection's own transaction differs from the state at the start; a read-only one still
works on what was committed then; and a rollback leaves the state at the start. -/
def StaysInside (methods : List Method) : Prop :=
  ∀ (ι : Type) [DecidableEq ι] (i : ι) (isolation readOnly : Bool) (mode : TransactionMode)
    (conn conn₁ conn₂ : Connection) (s s₁ s₂ : D.Server ι) (resp : ExecResponse),
    (ToastySurreal.exec conn (.transaction (.start isolation readOnly mode))).Runs (Database.Step i)
      s s₁ (.ok (conn₁, .ok resp)) →
    (∀ m ∈ methods, ¬ m.Finalizes) → Session i conn₁ s₁ methods conn₂ s₂ →
    ∃ t, s₂ = s.setTx i (some t) ∧ (readOnly = true → t.working = s.committed) ∧
      ∀ conn₃ s₃ result, (ToastySurreal.exec conn₂ (.transaction .rollback)).Runs (Database.Step i)
        s₂ s₃ (.ok (conn₃, result)) → conn₃ = .new ∧ s₃ = s.setTx i none

/-! ## One call -/

variable {conn conn' : Connection} {s s' s₀ : D.Server ι}

omit [Sdk] in
@[simp] theorem setTx_setTx (s : D.Server ι) (t t' : Option D.Tx) :
    (s.setTx i t).setTx i t' = s.setTx i t' := by
  simp [Database.Server.setTx]

omit [Sdk] in
@[simp] theorem setTx_txs (s : D.Server ι) (t : Option D.Tx) : (s.setTx i t).txs i = t := by
  simp [Database.Server.setTx]

/-- The server differs from `s₀` in one transaction, whose working copy satisfies `W`. -/
def Within (i : ι) (s₀ : D.Server ι) (W : D.State → Prop) (s : D.Server ι) : Prop :=
  ∃ t, s = s₀.setTx i (some t) ∧ W t.working

omit [Sdk] in
/-- **Queries of the active transaction stay inside.** -/
theorem within_routed {α : Type} {R : Query → Prop} {W : D.State → Prop} {p : Action α}
    {out : Except Error α} (hconn : conn.transaction = true) (hp : p.Asks (Routed conn R))
    (hW : ∀ q d r d', R q → W d → D.exec d q r d' → W d') (hs : Within i s₀ W s)
    (h : p.Runs (Database.Step i) s s' out) : Within i s₀ W s' := by
  refine Runs.invariant (I := Within i s₀ W) ?_ hp hs h
  intro x call r x' hcall hx hstep
  obtain ⟨q, rfl, hq⟩ := hcall
  rw [if_pos hconn] at hstep
  obtain ⟨t, rfl, ht⟩ := hx
  cases hstep with
  | tx ht' hexec =>
      rw [setTx_txs] at ht'
      injection ht' with ht'; subst ht'
      exact ⟨_, setTx_setTx _ _ _, hW _ _ _ _ hq ht hexec⟩

omit [Sdk] in
theorem call_keep {α : Type} {p : Action α}
    (h : (do let out ← conn.keep p; .done out.1 : Action Connection).Runs (Database.Step i) s s'
      (.ok conn')) : conn' = conn ∧ ∃ result, p.Runs (Database.Step i) s s' result := by
  obtain ⟨out, s₁, hkeep, hdone⟩ := runs_bind_ok.mp h
  obtain ⟨rfl, hout⟩ := hdone
  obtain ⟨result, hp, ho⟩ := runs_keep.mp hkeep
  injection ho with ho; subst ho
  injection hout with hout
  exact ⟨hout, result, hp⟩

omit [Sdk] in
theorem guarded_runs {α : Type} {operation : String} {p : Action α} {out : Except Error α}
    (h : (guarded conn operation p).Runs (Database.Step i) s s' out) :
    s' = s ∨ conn.readOnly = false ∧ p.Runs (Database.Step i) s s' out := by
  rcases runs_lift_bind.mp h with ⟨e, _, hs, _⟩ | ⟨_, hw, hp⟩
  · exact .inl hs
  · refine .inr ⟨?_, hp⟩
    unfold ensureWritable at hw
    split at hw
    · exact absurd hw (by simp)
    · rename_i hro; simpa using hro

/-- What a transaction of the connection may have changed: nothing, when it is read-only. -/
def Unwritten (conn : Connection) (s₀ : D.Server ι) (d : D.State) : Prop :=
  conn.readOnly = true → d = s₀.committed

omit [Sdk] in
/-- A guarded write stays inside the transaction, and changes nothing of a read-only one. -/
theorem within_guarded {α : Type} {R : Query → Prop} {operation : String} {p : Action α}
    (hconn : conn.transaction = true) (hp : p.Asks (Routed conn R))
    (hs : Within i s₀ (Unwritten conn s₀) s)
    (h : (do let out ← conn.keep (guarded conn operation p); .done out.1 : Action Connection).Runs
      (Database.Step i) s s' (.ok conn')) : conn' = conn ∧ Within i s₀ (Unwritten conn s₀) s' := by
  obtain ⟨hc, result, hrun⟩ := call_keep h
  refine ⟨hc, ?_⟩
  rcases guarded_runs hrun with rfl | ⟨hro, hrun⟩
  · exact hs
  · refine within_routed hconn hp (fun _ _ _ _ _ _ _ hread => ?_) hs hrun
    rw [hro] at hread
    exact absurd hread (by simp)

omit [Sdk] in
/-- A read stays inside the transaction and changes nothing. -/
theorem within_read {α : Type} {p : Action α} (hconn : conn.transaction = true)
    (hp : p.Asks (Routed conn ReadOnly)) (hs : Within i s₀ (Unwritten conn s₀) s)
    (h : (do let out ← conn.keep p; .done out.1 : Action Connection).Runs (Database.Step i) s s'
      (.ok conn')) : conn' = conn ∧ Within i s₀ (Unwritten conn s₀) s' := by
  obtain ⟨hc, result, hrun⟩ := call_keep h
  refine ⟨hc, within_routed hconn hp (fun q d r d' hq hd hexec hread => ?_) hs hrun⟩
  exact (D.reads hq hexec).trans (hd hread)

omit [Sdk] in
/-- A call that is refused at its start. -/
theorem within_refused {α : Type} {x : Except Error Unit} {f : Unit → Action α} {e : Error}
    (hx : x = .error e) (hs : Within i s₀ (Unwritten conn s₀) s)
    (h : (do let out ← conn.keep (do Prog.lift x >>= f); .done out.1 : Action Connection).Runs
      (Database.Step i) s s' (.ok conn')) : conn' = conn ∧ Within i s₀ (Unwritten conn s₀) s' := by
  obtain ⟨hc, result, hrun⟩ := call_keep h
  rcases runs_lift_bind.mp hrun with ⟨_, _, rfl, _⟩ | ⟨_, ha, _⟩
  · exact ⟨hc, hs⟩
  · rw [hx] at ha; exact absurd ha (by simp)

omit [Sdk] in
/-- In a transaction, a transaction operation that does not end it is refused. -/
theorem within_transaction {op : Transaction} (hconn : conn.transaction = true)
    (hm : ¬ (Method.exec (.transaction op)).Finalizes) (hs : Within i s₀ (Unwritten conn s₀) s)
    (h : (do let out ← execTransaction conn op; .done out.1 : Action Connection).Runs
      (Database.Step i) s s' (.ok conn')) : conn' = conn ∧ Within i s₀ (Unwritten conn s₀) s' := by
  have hfin : ¬ op.Finalizes := by cases op <;> exact hm
  obtain ⟨err, hop⟩ := execTransaction_inside hconn hfin
  rw [hop] at h
  obtain ⟨rfl, hout⟩ := h
  injection hout with hout
  exact ⟨hout, hs⟩

/-- **A call inside a transaction** that neither ends it nor pushes a table stays inside. -/
theorem within_call {m : Method} (hconn : conn.transaction = true) (hm : ¬ m.Finalizes)
    (hpush : m.PushesNothing) (hs : Within i s₀ (Unwritten conn s₀) s)
    (h : (m.call conn).Runs (Database.Step i) s s' (.ok conn')) :
    conn' = conn ∧ Within i s₀ (Unwritten conn s₀) s' := by
  cases m with
  | exec op =>
      cases op with
      | querySql stmt ret =>
          cases stmt with
          | ok stmt => exact within_guarded hconn (asks_execInsert _ _) hs h
          | error name => exact within_read (p := .fail _) hconn trivial hs h
      | insert stmt ret =>
          cases stmt with
          | some stmt => exact within_guarded hconn (asks_execInsert _ _) hs h
          | none => exact within_guarded (R := ReadOnly) (p := .fail _) hconn trivial hs h
      | getByKey table op => exact within_read hconn (reads_execGetByKey op) hs h
      | queryPk table op => exact within_read hconn (asks_execQueryPk op) hs h
      | findPkByIndex table op => exact within_read hconn (asks_execFindPkByIndex op) hs h
      | scan table op => exact within_read hconn (asks_execScan op) hs h
      | updateByKey table op => exact within_guarded hconn (asks_execUpdateByKey op) hs h
      | deleteByKey table op => exact within_guarded hconn (asks_execDeleteByKey op) hs h
      | upsert table op => exact within_guarded hconn (asks_execUpsert op) hs h
      | rawSql => exact within_read (p := .fail _) hconn trivial hs h
      | transaction op => exact within_transaction hconn hm hs h
  | pushSchema tables =>
      obtain rfl : tables = [] := hpush
      exact within_read (p := .done ()) hconn trivial hs h
  | appliedMigrations => exact within_refused (if_pos hconn) hs h
  | applyMigration id name statements => exact within_refused (if_pos hconn) hs h

/-! ## A whole transaction -/

/-- The calls keep what each of them keeps. -/
theorem within_session : ∀ {methods : List Method} {conn conn' : Connection} {s s' : D.Server ι},
    conn.transaction = true → (∀ m ∈ methods, ¬ m.Finalizes) → (∀ m ∈ methods, m.PushesNothing) →
    Within i s₀ (Unwritten conn s₀) s → Session i conn s methods conn' s' →
    conn' = conn ∧ Within i s₀ (Unwritten conn s₀) s'
  | [], _, _, _, _, _, _, _, hs, h => ⟨h.1, h.2 ▸ hs⟩
  | m :: ms, conn, conn', s, s', hconn, hm, hpush, hs, h => by
      obtain ⟨conn₁, s₁, hcall, hrest⟩ := h
      obtain ⟨rfl, hs₁⟩ := within_call hconn (hm m List.mem_cons_self) (hpush m List.mem_cons_self)
        hs hcall
      exact within_session hconn (fun m' hm' => hm m' (List.mem_cons_of_mem m hm'))
        (fun m' hm' => hpush m' (List.mem_cons_of_mem m hm')) hs₁ hrest

omit [Sdk] in
/-- A transaction that started works on what is committed. -/
theorem start_ok {isolation readOnly : Bool} {mode : TransactionMode} {resp : ExecResponse}
    (h : (execTransaction conn (.start isolation readOnly mode)).Runs (Database.Step i) s s'
      (.ok (conn', .ok resp))) :
    conn' = ⟨true, readOnly⟩ ∧ s' = s.setTx i (some ⟨s.committed, s.committed, []⟩) := by
  cases isolation with
  | true => exact absurd h.2 (by simp)
  | false =>
      cases mode with
      | other debug => exact absurd h.2 (by simp)
      | default =>
          by_cases hconn : conn.transaction = true
          · rw [execTransaction, if_neg Bool.false_ne_true, if_pos hconn] at h
            exact absurd h.2 (by simp)
          · obtain ⟨r, hstep, hr⟩ := runs_start (by simpa using hconn) h
            rcases hr with ⟨v, rfl, hout⟩ | ⟨err, _, hout⟩
            · injection hout with hout
              cases hstep with
              | begin v => exact ⟨congrArg Prod.fst hout, rfl⟩
            · exact absurd hout (by simp)

omit [Sdk] in
/-- A rollback of an active transaction drops it, whatever the database replies. -/
theorem rollback_ok {result : Except Error ExecResponse} (hconn : conn.transaction = true)
    (h : (execTransaction conn .rollback).Runs (Database.Step i) s s' (.ok (conn', result))) :
    conn' = .new ∧ s' = s.setTx i none := by
  rw [execTransaction, if_pos hconn] at h
  obtain ⟨r, result', hstep, hout⟩ := runs_finishTransaction h
  injection hout with hout
  cases hstep with
  | cancel r => exact ⟨congrArg Prod.fst hout, rfl⟩

/-- **A transaction contains its calls**, as long as none of them pushes a table. -/
theorem transaction_contained (methods : List Method) (h : ∀ m ∈ methods, m.PushesNothing) :
    StaysInside D methods := by
  intro ι _ i isolation readOnly mode conn conn₁ conn₂ s s₁ s₂ resp hstart hm hsession
  obtain ⟨rfl, rfl⟩ := start_ok hstart
  obtain ⟨rfl, t, rfl, ht⟩ :=
    @within_session _ _ _ _ i s _ _ _ _ _ rfl hm h ⟨_, rfl, fun _ => rfl⟩ hsession
  refine ⟨t, rfl, ht, fun conn₃ s₃ result hrollback => ?_⟩
  obtain ⟨hconn, hs⟩ := @rollback_ok _ _ _ i ⟨true, readOnly⟩ _ _ _ _ rfl hrollback
  exact ⟨hconn, by rw [hs, setTx_setTx]⟩

end Contained

/-- A database that is told what is defined, and holds nothing else. -/
def definitions : Database where
  State := List Statement
  exec d q r d' :=
    match q.sql with
    | .schema statement => d' = d ++ [statement] ∧ r = .ok .none
    | _ => d' = d
  atomic := by
    intro d q err d' _ h
    split at h
    · exact absurd h.2 (by simp)
    · exact h
  reads := by
    intro d q r d' hq h
    split at h
    · rename_i hsql; rw [hsql] at hq; exact absurd hq (by simp [Sql.isRead])
    · exact h
  unmatched := by
    intro d q v d' hq h _
    split at h
    · rename_i hsql; rw [hsql] at hq; exact absurd hq (by simp [Sql.isConditional])
    · exact h

/-- Pushing a schema in a read-only transaction defines the table at once, and the
rollback does not undo it. -/
theorem push_schema_escapes : ¬ @StaysInside plain definitions [.pushSchema [todos]] := by
  let := plain
  intro h
  have hpush : Session (D := definitions) () ⟨true, true⟩ ⟨[], fun _ => some ⟨[], [], []⟩⟩
      [.pushSchema [todos]] ⟨true, true⟩
      ⟨defineTableStatements todos true, fun _ => some ⟨[], [], []⟩⟩ :=
    ⟨_, _, ⟨.ok .none, _, .plain ⟨rfl, rfl⟩, rfl, rfl⟩, rfl, rfl⟩
  have hstart : (exec .new (.transaction (.start false true .default))).Runs
      (Database.Step (D := definitions) ()) ⟨[], fun _ => none⟩
      ((⟨[], fun _ => none⟩ : definitions.Server Unit).setTx () (some ⟨[], [], []⟩))
      (.ok (⟨true, true⟩, .ok (.count 0))) := ⟨.ok .none, _, .begin _ .none, rfl, rfl⟩
  obtain ⟨t, hs, _⟩ := h _ _ _ _ _ _ _ _ _ _ _ _ hstart
    (fun m hm => by rw [List.mem_singleton.mp hm]; exact id) hpush
  have hnone : defineTableStatements todos true = [] := congrArg Database.Server.committed hs
  exact absurd (congrArg List.length hnone) (by decide)

/-- Reads, writes and migrations stay inside. -/
theorem calls_stay_inside : @StaysInside plain (@recordStore plainSurql)
    [.exec (.getByKey todos ⟨[⟨0, 1⟩], [.i64 1]⟩),
      .exec (.deleteByKey todos ⟨[.i64 1], none, none⟩),
      .pushSchema [], .appliedMigrations, .applyMigration 1 "init" ["DEFINE TABLE t"]] :=
  @transaction_contained plain _ _ fun m hm => by
    simp only [List.mem_cons, List.not_mem_nil, or_false] at hm
    rcases hm with rfl | rfl | rfl | rfl | rfl <;> first | rfl | trivial

end ToastySurreal
