import ToastySurreal.Conn
import ToastySurreal.Lib.Simulation
import Mathlib.Logic.Function.Basic

/-!
# The database behind the SDK

What the driver relies on of SurrealDB, whatever a statement does: a statement that
fails changes nothing, a `SELECT` only reads, and an `UPDATE` or `DELETE` returns a
row for every record it changes. `Server` is a database shared by
several connections. Each has at most one client transaction, which works on a copy
of the state and keeps a log. What a commit makes of what is committed by then is the
database's own rule, and `StepBy` a server with any rule. `Step` assumes the strictest
one: a transaction commits where its whole log, reads included, is replayed on what is
committed by then, so that committed transactions are serial in commit order.
-/

namespace ToastySurreal

open Prog

/-- A database: what a checked statement replies and does. -/
structure Database where
  State : Type
  exec : State → Query → Reply → State → Prop
  /-- A statement the driver wrote is atomic; a migration's may be several in one. -/
  atomic : ∀ {d q err d'}, q.sql.isScript = false → exec d q (.error err) d' → d' = d
  reads : ∀ {d q r d'}, q.sql.isRead = true → exec d q r d' → d' = d
  /-- An `UPDATE` or `DELETE` returns the records it changed. -/
  unmatched : ∀ {d q v d'}, q.sql.isConditional = true → exec d q (.ok v) d' → takeRows v = [] →
    d' = d

namespace Database

variable (D : Database)

/-- The queries of one operation all go through one handle; this is what they do to
the state behind it. -/
def Handle (d : D.State) (call : Call) (r : Reply) (d' : D.State) : Prop :=
  match call with
  | .plain q | .tx q => D.exec d q r d'
  | _ => False

/-- Run logged queries again, with the same replies. -/
def Replay : D.State → List (Query × Reply) → D.State → Prop
  | d, [], d' => d' = d
  | d, (q, r) :: log, d' => ∃ d₁, D.exec d q r d₁ ∧ Replay d₁ log d'

/-- A client transaction, with what was committed when it began. -/
structure Tx where
  start : D.State
  working : D.State
  log : List (Query × Reply)

/-- A database and the open transactions of its connections. -/
structure Server (ι : Type) where
  committed : D.State
  txs : ι → Option D.Tx

variable {D} {ι : Type} [DecidableEq ι]

def Server.setTx (s : D.Server ι) (i : ι) (tx : Option D.Tx) : D.Server ι :=
  { s with txs := Function.update s.txs i tx }

/-- What a call of connection `i` does, where a transaction is committed by a rule.
Beginning, committing and cancelling may fail; a transaction is over once its end was
asked for. -/
inductive StepBy (commits : D.Tx → D.State → D.State → Prop) (i : ι) :
    D.Server ι → Call → Reply → D.Server ι → Prop where
  | plain {s : D.Server ι} {q : Query} {r : Reply} {d : D.State} (h : D.exec s.committed q r d) :
      StepBy commits i s (.plain q) r { s with committed := d }
  | tx {s : D.Server ι} {t : D.Tx} {q : Query} {r : Reply} {d : D.State} (ht : s.txs i = some t)
      (h : D.exec t.working q r d) :
      StepBy commits i s (.tx q) r (s.setTx i (some ⟨t.start, d, t.log ++ [(q, r)]⟩))
  | begin (s : D.Server ι) (v : SurValue) :
      StepBy commits i s .begin (.ok v) (s.setTx i (some ⟨s.committed, s.committed, []⟩))
  | beginFail (s : D.Server ι) (err : DbError) : StepBy commits i s .begin (.error err) s
  | commit {s : D.Server ι} {t : D.Tx} {d : D.State} (v : SurValue) (ht : s.txs i = some t)
      (h : commits t s.committed d) :
      StepBy commits i s .commit (.ok v) { (s.setTx i none) with committed := d }
  | commitFail (s : D.Server ι) (err : DbError) :
      StepBy commits i s .commit (.error err) (s.setTx i none)
  | cancel (s : D.Server ι) (r : Reply) : StepBy commits i s .cancel r (s.setTx i none)

/-- Committing runs the transaction's queries again, with the same replies. -/
def Tx.Replays (t : D.Tx) (d d' : D.State) : Prop := D.Replay d t.log d'

/-- A server whose commits are serializable. -/
abbrev Step (i : ι) : D.Server ι → Call → Reply → D.Server ι → Prop := StepBy Tx.Replays i

/-- The database, where any query may be refused for reasons of the database's own. -/
def refusing (D : Database) : Database where
  State := D.State
  exec d q r d' := ((∃ err, r = .error err) ∧ d' = d) ∨ D.exec d q r d'
  atomic hq h := h.elim And.right (D.atomic hq)
  reads hq h := h.elim And.right (D.reads hq)
  unmatched hq h hv := h.elim And.right fun h => D.unmatched hq h hv

/-! ## Operations on a handle -/

variable {d d' : D.State} {conn : Connection}

theorem runs_callWith {classify : DbError → Error} {call : Call} {S : Type}
    {step : S → Call → Reply → S → Prop} {s s' : S} {out : Except Error SurValue} :
    (callWith classify call).Runs step s s' out ↔
      ∃ r, step s call r s' ∧ out = Except.mapError classify r := by
  constructor
  · intro h
    obtain ⟨r, s₁, hs, h⟩ := h
    cases r with
    | ok v => obtain ⟨rfl, ho⟩ := h; exact ⟨_, hs, ho⟩
    | error err => obtain ⟨rfl, ho⟩ := h; exact ⟨_, hs, ho⟩
  · intro h
    obtain ⟨r, hs, ho⟩ := h
    cases r with
    | ok v => exact ⟨_, s', hs, rfl, ho⟩
    | error err => exact ⟨_, s', hs, rfl, ho⟩

/-- A query of an operation is one statement. -/
theorem runs_runQuery {q : Query} {out : Except Error SurValue} :
    (runQuery conn q).Runs D.Handle d d' out ↔
      ∃ r, D.exec d q r d' ∧ out = Except.mapError classifyError r := by
  rw [runQuery, runs_callWith]
  split <;> exact Iff.rfl

/-- A query that returned a value. -/
theorem runs_runQuery_ok {q : Query} {value : SurValue} :
    (runQuery conn q).Runs D.Handle d d' (.ok value) ↔ D.exec d q (.ok value) d' := by
  rw [runs_runQuery]
  constructor
  · intro h
    obtain ⟨r, hr, ho⟩ := h
    cases r with
    | ok v => injection ho with ho; subst ho; exact hr
    | error err => exact absurd ho (by simp [Except.mapError])
  · intro h; exact ⟨_, h, rfl⟩

/-- **A query that failed changed nothing.** -/
theorem runs_runQuery_error {q : Query} {err : Error} (hq : q.sql.isScript = false)
    (h : (runQuery conn q).Runs D.Handle d d' (.error err)) : d' = d := by
  rw [runs_runQuery] at h
  obtain ⟨r, hr, ho⟩ := h
  cases r with
  | ok v => exact absurd ho (by simp [Except.mapError])
  | error err => exact D.atomic hq hr

/-- **A query and what follows it**: it fails and changes nothing, or the rest goes on
with its value. -/
theorem runs_runQuery_bind {α : Type} {q : Query} {f : SurValue → Action α} {out : Except Error α} :
    (runQuery conn q >>= f).Runs D.Handle d d' out ↔
      (∃ err, D.exec d q (.error err) d' ∧ out = .error (classifyError err)) ∨
        ∃ v d₁, D.exec d q (.ok v) d₁ ∧ (f v).Runs D.Handle d₁ d' out := by
  rw [Prog.runs_bind]
  constructor
  · intro h
    rcases h with ⟨e, hfail, rfl⟩ | ⟨v, d₁, hq, hrest⟩
    · obtain ⟨r, hr, he⟩ := runs_runQuery.mp hfail
      cases r with
      | ok v => exact absurd he (by simp [Except.mapError])
      | error err => injection he with he; subst he; exact .inl ⟨err, hr, rfl⟩
    · exact .inr ⟨v, d₁, runs_runQuery_ok.mp hq, hrest⟩
  · intro h
    rcases h with ⟨err, hr, rfl⟩ | ⟨v, d₁, hq, hrest⟩
    · exact .inl ⟨_, runs_runQuery.mpr ⟨_, hr, rfl⟩, rfl⟩
    · exact .inr ⟨v, d₁, runs_runQuery_ok.mpr hq, hrest⟩

/-- The action asks one query at most, and where that fails it fails with its error. -/
abbrev Refusable {α : Type} (p : Action α) : Prop :=
  p.FailsOn (fun r => ∃ err, r = .error err) fun e => ∃ err, e = classifyError err

theorem refusable_call (call : Call) : Refusable (callWith classifyError call) := fun r => by
  cases r with
  | ok v => exact ⟨⟨.ok v, rfl⟩, fun ⟨_, h⟩ => nomatch h⟩
  | error err =>
      exact ⟨⟨.error (classifyError err), rfl⟩, fun _ => ⟨classifyError err, ⟨err, rfl⟩, rfl⟩⟩

/-- **One query that may be refused**: it was, and what asked it fails and changes nothing, or
it was not. -/
theorem runs_refusing {α : Type} {p : Action α} {out : Except Error α} (hp : Refusable p)
    (h : p.Runs D.refusing.Handle d d' out) :
    p.Runs D.Handle d d' out ∨ d' = d ∧ ∃ err, out = .error (classifyError err) := by
  cases p with
  | done a => exact .inl h
  | fail e => exact .inl h
  | ask call k =>
      obtain ⟨r, d₁, hr, h⟩ := h
      obtain ⟨hended, hfails⟩ := hp r
      have hhandle : (∃ err, r = .error err) ∧ d₁ = d ∨ D.Handle d call r d₁ := by
        cases call with
        | plain q | tx q => exact hr
        | begin | commit | cancel => exact hr.elim
      rcases hhandle with ⟨hrefused, rfl⟩ | hhandle
      · obtain ⟨e, ⟨err, rfl⟩, he⟩ := hfails hrefused
        rw [he] at h
        exact .inr ⟨h.1, err, h.2⟩
      · obtain ⟨x, hx⟩ := hended
        rw [hx] at h
        refine .inl ⟨r, d₁, hhandle, ?_⟩
        rw [hx]
        exact runs_lift.mpr (runs_lift.mp h)

/-- Outside a transaction, an operation on a connection of a server acts on what is
committed and on nothing else. -/
theorem runs_server {α : Type} {i : ι} : ∀ {p : Action α} {s s' : D.Server ι}
    {out : Except Error α}, p.Asks (fun call => ∃ q, call = .plain q) →
    p.Runs (Step i) s s' out → p.Runs D.Handle s.committed s'.committed out ∧ s'.txs = s.txs
  | .done _, _, _, _, _, h => by obtain ⟨rfl, ho⟩ := h; exact ⟨⟨rfl, ho⟩, rfl⟩
  | .fail _, _, _, _, _, h => by obtain ⟨rfl, ho⟩ := h; exact ⟨⟨rfl, ho⟩, rfl⟩
  | .ask call k, s, s', out, hp, h => by
      obtain ⟨⟨q, rfl⟩, hk⟩ := hp
      obtain ⟨r, s₁, hs, h⟩ := h
      cases hs with
      | plain hq =>
          obtain ⟨hrest, htx⟩ := runs_server (hk r) h
          exact ⟨⟨r, _, hq, hrest⟩, htx⟩

end Database

end ToastySurreal
