import ToastySurreal.Database
import ToastySurreal.Driver
import ToastySurreal.Lib.Scan
import ToastySurreal.Lib.Snapshots

/-!
# Clients side by side

A client runs operations on a connection of its own, one after the other; what it does
next may depend on every result so far. Any number of clients go on in any order of
their calls. What a client has got done is its `History`, and a `Span` is what a
transaction of it comprises. `InTurn` says what it all amounts to, whatever rule the
database commits transactions by.
-/

namespace ToastySurreal

open Prog

/-- A client, as a program that asks for operations and is told their results. -/
abbrev Client (α : Type) := Prog Operation (Except Error ExecResponse) Error α

/-- The operations that returned, each with its result. -/
abbrev History := List (Operation × Except Error ExecResponse)

/-- The operations of a transaction and their results, from its start to its end. -/
structure Span where
  readOnly : Bool
  ops : History

namespace Span

/-- What an operation and its result make of the transaction that is open: a commit that
succeeded completes it, any other end drops it. -/
def next (present : Option Span) (entry : Operation × Except Error ExecResponse) :
    Option Span × Option Span :=
  match present, entry with
  | none, (.transaction (.start false readOnly .default), .ok _) => (none, some ⟨readOnly, []⟩)
  | none, _ => (none, none)
  | some t, (.transaction .commit, .ok _) => (some t, none)
  | some _, (.transaction .commit, .error _) | some _, (.transaction .rollback, _) => (none, none)
  | some t, entry => (none, some ⟨t.readOnly, t.ops ++ [entry]⟩)

/-- The transactions of a history that were committed. -/
def committed (h : History) : List Span := Scan.emits next none h

/-- The transaction a history ends in. -/
def current (h : History) : Option Span := Scan.after next none h

end Span

/-! ## Turns -/

/-- What changes the committed state: a query outside of a transaction, or a transaction. -/
inductive Turn (ι : Type) where
  | alone (i : ι) (q : Query) (r : Reply)
  | whole (i : ι) (span : Span)

/-- Whose turn it is, and the query if it is one. -/
def Turn.mark : Turn ι → ι × Option (Query × Reply)
  | .alone i q r => (i, some (q, r))
  | .whole i _ => (i, none)

/-- The transaction of a turn, if it is one of this client. -/
def Turn.spanOf [DecidableEq ι] (i : ι) : Turn ι → Option Span
  | .whole j t => if j = i then some t else none
  | .alone .. => none

/-- What a call changes of what is committed: a plain query, or the end of a transaction. -/
def mark : ι × Call × Reply → Option (ι × Option (Query × Reply))
  | (i, .plain q, r) => some (i, some (q, r))
  | (i, .commit, .ok _) => some (i, none)
  | _ => none

/-! ## Clients -/

variable [Sdk]

/-- The calls of a client on a connection. -/
def drive {α : Type} (conn : Connection) : Client α → Action α
  | .done a => .done a
  | .fail e => .fail e
  | .ask op k => do
      let out ← exec conn op
      drive out.1 (k out.2)

/-- What a client got done, by the replies to its calls. -/
def history {α : Type} (conn : Connection) : Client α → List Reply → History
  | .done _, _ | .fail _, _ => []
  | .ask op k, rs =>
      match (exec conn op).feed rs with
      | (.done out, rest) => (op, out.2) :: history out.1 (k out.2) rest
      | _ => []

/-! ## What clients are to amount to -/

/-- Operations run one after another on one handle, each with the result it returned. -/
def Executes (D : Database) (conn : Connection) : D.State → History → D.State → Prop
  | d, [], d' => d' = d
  | d, (op, result) :: h, d' => ∃ d₁, (exec conn op).Runs D.Handle d d₁ (.ok (conn, result)) ∧
      Executes D conn d₁ h d'

variable {ι α : Type}

/-- What turns do where transactions are committed by a rule: a query acts on what is
committed, and a transaction ran its operations on a snapshot. A read-only one only read. -/
def Turn.rules (D : Database) (commits : D.Tx → D.State → D.State → Prop) :
    Snapshots.Rules D.State (Turn ι) D.Tx where
  act d turn d' :=
    match turn with
    | .alone _ q r => D.exec d q r d'
    | .whole .. => False
  work d turn t :=
    match turn with
    | .alone .. => False
    | .whole _ span => t.start = d ∧ Executes D ⟨true, span.readOnly⟩ d span.ops t.working ∧
        (span.readOnly = true → t.working = d ∧ ∀ e ∈ t.log, e.1.sql.isRead = true)
  merge := commits

abbrev Clients (D : Database) (ι α : Type) := Pool ι (D.Server ι) Call Reply Error α

/-- Nothing was asked yet. -/
def Clients.begin {D : Database} (clients : ι → Client α) (d₀ : D.State) : Clients D ι α :=
  ⟨⟨d₀, fun _ => none⟩, fun i => drive .new (clients i), []⟩

/-- What a client has got done by now. -/
def Clients.history {D : Database} [DecidableEq ι] (clients : ι → Client α) (p : Clients D ι α)
    (i : ι) : History :=
  ToastySurreal.history .new (clients i) ((Pool.own i p.log).map Prod.snd)

/-- The turns that amount to what the clients did, each with what was committed after it: they
come in the order of the calls, they comprise exactly the transactions whose commit returned,
and a transaction, committed or open, ran as a whole on what was committed after some earlier
turn. -/
structure InTurn {D : Database} [DecidableEq ι] (commits : D.Tx → D.State → D.State → Prop)
    (clients : ι → Client α) (d₀ : D.State) (p : Clients D ι α) (turns : List (Turn ι × D.State)) :
    Prop where
  made : Snapshots.History (Turn.rules D commits) d₀ turns
  committed : p.shared.committed = Snapshots.now d₀ turns
  order : turns.map (fun turn => turn.1.mark) = p.log.filterMap mark
  whole : ∀ i, (turns.map Prod.fst).filterMap (Turn.spanOf i) = Span.committed (p.history clients i)
  snapshot : ∀ i t, Span.current (p.history clients i) = some t →
    ∃ before, before <+: turns ∧ ∃ d', Executes D ⟨true, t.readOnly⟩
    (Snapshots.now d₀ before) t.ops d'

end ToastySurreal
