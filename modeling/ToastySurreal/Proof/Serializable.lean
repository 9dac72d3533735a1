import ToastySurreal.Proof.Session
import ToastySurreal.Proof.Tracking
import ToastySurreal.Proof.Transactions
import ToastySurreal.Proof.Updates
import ToastySurreal.Sessions

/-!
# Transactions are whole

Clients work side by side on one server. What is committed at any moment is made turn by
turn: by the single queries sent outside of transactions, and by the transactions that were
committed, each of which ran as a whole, with the results its client was given, on what was
committed at some earlier turn. What a commit then makes of what is committed is the
database's rule. Where the rule is serializable, the turns are a serial run. The proof has
two halves that meet in the log: what the calls of all clients do to the server, whatever
operations they belong to, and which operations the calls of one client belong to, whatever
the others do.
-/

namespace ToastySurreal

open Prog Pool
open Snapshots (Rules now now_snoc)

/-! ## Calls -/

/-- What a call makes of the queries of the transaction that is open. -/
def callNext (present : Option (List (Query × Reply))) :
    Call × Reply → Option (List (Query × Reply)) × Option (List (Query × Reply))
  | (.begin, .ok _) => (none, some [])
  | (.tx q, r) => (none, present.map (· ++ [(q, r)]))
  | (.commit, .ok _) => (present, none)
  | (.commit, .error _) | (.cancel, _) => (none, none)
  | (.begin, .error _) | (.plain _, _) => (none, present)

section Server

variable {D : Database} {ι : Type} [DecidableEq ι]

/-- A plain query, or the queries of a transaction. -/
abbrev CallTurn (ι : Type) := ι × ((Query × Reply) ⊕ List (Query × Reply))

def CallTurn.mark : CallTurn ι → ι × Option (Query × Reply)
  | (i, .inl e) => (i, some e)
  | (i, .inr _) => (i, none)

/-- The queries of a transaction, if that is what it is. -/
def CallTurn.whole : CallTurn ι → Option (ι × List (Query × Reply))
  | (i, .inr l) => some (i, l)
  | (_, .inl _) => none

def CallTurn.queries : CallTurn ι → List (Query × Reply)
  | (_, .inl e) => [e]
  | (_, .inr l) => l

/-- The transactions of one connection. -/
def wholeOf (i : ι) (turns : List (CallTurn ι)) : List (List (Query × Reply)) :=
  (turns.filterMap CallTurn.whole).filterMap fun m => if m.1 = i then some m.2 else none

/-- What the turns do where transactions are committed by a rule. -/
def CallTurn.rules (D : Database) (commits : D.Tx → D.State → D.State → Prop) :
    Rules D.State (CallTurn ι) D.Tx where
  act d turn d' :=
    match turn with
    | (_, .inl e) => D.exec d e.1 e.2 d'
    | (_, .inr _) => False
  work d turn t :=
    match turn with
    | (_, .inl _) => False
    | (_, .inr l) => t.start = d ∧ t.log = l ∧ D.Replay d l t.working
  merge := commits

/-- What holds of the server, whatever its clients are about: the turns so far made what is
committed, and an open transaction works on what was committed at its start. -/
structure Turning (commits : D.Tx → D.State → D.State → Prop) (d₀ : D.State) (s : D.Server ι)
    (log : List (ι × Call × Reply)) (turns : List (CallTurn ι × D.State)) : Prop where
  made : Snapshots.History (CallTurn.rules D commits) d₀ turns
  committed : s.committed = now d₀ turns
  order : turns.map (fun turn => turn.1.mark) = log.filterMap mark
  whole : ∀ i, wholeOf i (turns.map Prod.fst) = Scan.emits callNext none (own i log)
  open_log : ∀ i, (s.txs i).map Database.Tx.log = Scan.after callNext none (own i log)
  snapshot : ∀ i t, s.txs i = some t → D.Replay t.start t.log t.working ∧
    ∃ before, before <+: turns ∧ t.start = now d₀ before

theorem wholeOf_append (i : ι) (turns turns' : List (CallTurn ι)) :
    wholeOf i (turns ++ turns') = wholeOf i turns ++ wholeOf i turns' := by
  simp [wholeOf, List.filterMap_append]

/-- Only the caller's own scan goes on. -/
theorem after_own (i j : ι) (log : List (ι × Call × Reply)) (call : Call) (r : Reply) :
    Scan.after callNext none (own j (log ++ [(i, call, r)])) =
      if j = i then (callNext (Scan.after callNext none (own i log)) (call, r)).2
      else Scan.after callNext none (own j log) := by
  split
  · rename_i hj; rw [hj, own_self, Scan.after_snoc]
  · rename_i hj; rw [own_other hj]

theorem emits_own (i j : ι) (log : List (ι × Call × Reply)) (call : Call) (r : Reply) :
    Scan.emits callNext none (own j (log ++ [(i, call, r)])) =
      Scan.emits callNext none (own j log) ++
        if j = i then (callNext (Scan.after callNext none (own i log))
          (call, r)).1.toList else [] := by
  split
  · rename_i hj; rw [hj, own_self, Scan.emits_snoc]
  · rename_i hj; rw [own_other hj, List.append_nil]

variable {commits : D.Tx → D.State → D.State → Prop} {d₀ : D.State} {s s' : D.Server ι}
variable {log : List (ι × Call × Reply)} {turns : List (CallTurn ι × D.State)}

/-- A call that changes nothing that is committed. -/
theorem Turning.idle {i : ι} {call : Call} {r : Reply} (h : Turning commits d₀ s log turns)
    (hc : s'.committed = s.committed) (hm : mark (i, call, r) = none)
    (he : ∀ o, (callNext o (call, r)).1 = none) (ho : ∀ j, (s'.txs j).map Database.Tx.log =
      Scan.after callNext none (own j (log ++ [(i, call, r)])))
    (hs : ∀ j t, s'.txs j = some t → D.Replay t.start t.log t.working ∧
      ∃ before, before <+: turns ∧ t.start = now d₀ before) :
    Turning commits d₀ s' (log ++ [(i, call, r)]) turns where
  made := h.made
  committed := hc.trans h.committed
  order := by simp [h.order, List.filterMap_append, hm]
  whole j := by rw [h.whole, emits_own]; simp [he]
  open_log := ho
  snapshot := hs

/-- **A call of any client** keeps what holds of the server, with one turn more or not. -/
theorem Turning.step {i : ι} {call : Call} {r : Reply} (h : Turning commits d₀ s log turns)
    (hs : Database.StepBy commits i s call r s') :
    ∃ turns', Turning commits d₀ s' (log ++ [(i, call, r)]) turns' := by
  have hothers := fun j (hj : j ≠ i) => step_txs hj hs
  -- what is known of the other clients' transactions
  have hopen : ∀ j, j ≠ i → (s'.txs j).map Database.Tx.log =
      Scan.after callNext none (own j (log ++ [(i, call, r)])) := by
    intro j hj
    rw [hothers j hj, h.open_log, after_own, if_neg hj]
  cases hs with
  | @plain q r d hexec =>
      have hmade : Snapshots.History (CallTurn.rules D commits) d₀
          (turns ++ [((i, .inl (q, r)), d)]) :=
        .act h.made (h.committed ▸ hexec)
      refine ⟨turns ++ [((i, .inl (q, r)), d)], hmade, (now_snoc ..).symm, ?_, fun j => ?_,
        fun j => ?_, fun j t ht => ?_⟩
      · rw [List.map_append, h.order, List.filterMap_append]
        rfl
      · rw [List.map_append, wholeOf_append, h.whole, emits_own]
        simp [wholeOf, CallTurn.whole, callNext]
      · rw [h.open_log, after_own]
        split
        · rename_i hj; rw [hj]; rfl
        · rfl
      · obtain ⟨hreplay, before, hb, hstart⟩ := h.snapshot j t ht
        exact ⟨hreplay, before, hb.trans (List.prefix_append _ _), hstart⟩
  | @tx t q r d ht hexec =>
      refine ⟨turns, h.idle rfl rfl (fun _ => rfl) (fun j => ?_) fun j u hu => ?_⟩
      · by_cases hj : j = i
        · subst hj
          rw [after_own, if_pos rfl, ← h.open_log, ht]
          simp [callNext]
        · exact hopen j hj
      · by_cases hj : j = i
        · subst hj
          rw [setTx_txs] at hu
          injection hu with hu; subst hu
          obtain ⟨hreplay, hbefore⟩ := h.snapshot _ t ht
          exact ⟨replay_snoc hreplay hexec, hbefore⟩
        · rw [hothers j hj] at hu
          exact h.snapshot j u hu
  | begin v =>
      refine ⟨turns, h.idle rfl rfl (fun _ => rfl) (fun j => ?_) fun j u hu => ?_⟩
      · by_cases hj : j = i
        · subst hj
          rw [after_own, if_pos rfl, setTx_txs]
          rfl
        · exact hopen j hj
      · by_cases hj : j = i
        · subst hj
          rw [setTx_txs] at hu
          injection hu with hu; subst hu
          exact ⟨rfl, turns, List.prefix_refl _, h.committed⟩
        · rw [hothers j hj] at hu
          exact h.snapshot j u hu
  | beginFail err =>
      refine ⟨turns, h.idle rfl rfl (fun _ => rfl) (fun j => ?_) h.snapshot⟩
      by_cases hj : j = i
      · subst hj
        rw [after_own, if_pos rfl, h.open_log]
        rfl
      · exact hopen j hj
  | @commit t d v ht hcommit =>
      obtain ⟨hreplay, before, hb, hstart⟩ := h.snapshot i t ht
      have hmade : Snapshots.History (CallTurn.rules D commits) d₀
          (turns ++ [((i, .inr t.log), d)]) :=
        .merge (w := t) h.made hb ⟨hstart, rfl, hstart ▸ hreplay⟩ (h.committed ▸ hcommit)
      refine ⟨turns ++ [((i, .inr t.log), d)], hmade, (now_snoc ..).symm, ?_, fun j => ?_,
        fun j => ?_, fun j u hu => ?_⟩
      · rw [List.map_append, h.order, List.filterMap_append]
        rfl
      · rw [List.map_append, wholeOf_append, h.whole, emits_own]
        congr 1
        by_cases hj : j = i
        · subst hj
          rw [if_pos rfl, ← h.open_log, ht]
          simp [wholeOf, CallTurn.whole, callNext]
        · simp [wholeOf, CallTurn.whole, hj, Ne.symm hj]
      · by_cases hj : j = i
        · subst hj
          rw [after_own, if_pos rfl]
          show ((s.setTx _ none).txs _).map _ = _
          rw [setTx_txs]
          rfl
        · exact hopen j hj
      · by_cases hj : j = i
        · subst hj
          have hu' : (s.setTx j none).txs j = some u := hu
          rw [setTx_txs] at hu'
          exact absurd hu' (by simp)
        · rw [hothers j hj] at hu
          obtain ⟨hreplay, before, hb, hstart⟩ := h.snapshot j u hu
          exact ⟨hreplay, before, hb.trans (List.prefix_append _ _), hstart⟩
  | commitFail err | cancel =>
      refine ⟨turns, h.idle rfl rfl (fun _ => rfl) (fun j => ?_) fun j u hu => ?_⟩
      · by_cases hj : j = i
        · subst hj
          rw [after_own, if_pos rfl, setTx_txs]
          rfl
        · exact hopen j hj
      · by_cases hj : j = i
        · subst hj
          rw [setTx_txs] at hu
          exact absurd hu (by simp)
        · rw [hothers j hj] at hu
          exact h.snapshot j u hu

end Server

/-! ## Operations -/

section Operations

variable [Sdk] {conn conn' : Connection} {op : Operation} {es : List (Call × Reply)}
  {result : Except Error ExecResponse}

/-- The calls of operations inside a transaction, all of them queries of it. -/
def Played (conn : Connection) : History → List (Query × Reply) → Prop
  | [], l => l = []
  | (op, result) :: h, l => ∃ l₁ l₂, l = l₁ ++ l₂ ∧
      (exec conn op).Told (l₁.map fun e => (.tx e.1, e.2)) (.done (conn, result)) ∧ Played conn h l₂

theorem Played.snoc : ∀ {h : History} {l l' : List (Query × Reply)}, Played conn h l →
    (exec conn op).Told (l'.map fun e => (.tx e.1, e.2)) (.done (conn, result)) →
    Played conn (h ++ [(op, result)]) (l ++ l')
  | [], _, l', rfl, h' => ⟨l', [], by simp, h', rfl⟩
  | _ :: _, _, l', ⟨l₁, l₂, rfl, hop, h⟩, h' =>
      ⟨l₁, l₂ ++ l', by rw [List.append_assoc], hop, h.snoc h'⟩

omit [Sdk] in
/-- A trace that is replayed is a run. -/
theorem runs_replayed {D : Database} {α : Type} : ∀ {p : Action α} {l : List (Query × Reply)}
    {d d' : D.State} {out : Except Error α}, p.Told (l.map fun e => (.tx e.1, e.2)) (lift out) →
    D.Replay d l d' → p.Runs D.Handle d d' out
  | p, [], d, d', out, h, hd => by
      rw [← told_nil.mp h]
      exact runs_lift.mpr ⟨hd, rfl⟩
  | .ask _ _, e :: _, _, _, _, ⟨hq, h⟩, ⟨d₁, hexec, hd⟩ =>
      ⟨e.2, d₁, hq ▸ hexec, runs_replayed h hd⟩
  | .done _, _ :: _, _, _, _, h, _ => h.elim
  | .fail _, _ :: _, _, _, _, h, _ => h.elim

omit [Sdk] in
theorem replay_append {D : Database} : ∀ {l l' : List (Query × Reply)} {d d' : D.State},
    D.Replay d (l ++ l') d' → ∃ d₁, D.Replay d l d₁ ∧ D.Replay d₁ l' d'
  | [], _, d, _, h => ⟨d, rfl, h⟩
  | _ :: _, _, _, _, ⟨d₁, hexec, h⟩ => by
      obtain ⟨d₂, hl, hl'⟩ := replay_append h
      exact ⟨d₂, ⟨d₁, hexec, hl⟩, hl'⟩

/-- **Replaying the queries of a transaction runs its operations**, with the results they had. -/
theorem Played.executes {D : Database} :
    ∀ {h : History} {l : List (Query × Reply)} {d d' : D.State},
    Played conn h l → D.Replay d l d' → Executes D conn d h d'
  | [], _, _, _, rfl, hd => hd
  | _ :: _, _, _, _, ⟨_, _, rfl, hop, h⟩, hd => by
      obtain ⟨d₁, h₁, h₂⟩ := replay_append hd
      exact ⟨d₁, runs_replayed hop h₁, h.executes h₂⟩

/-- How far the calls and the operations of a connection are: no transaction is open, or one
whose operations sent what its calls were. -/
inductive Abreast : Connection → Option (List (Query × Reply)) → Option Span → Prop where
  | idle {conn : Connection} (hconn : conn.transaction = false) : Abreast conn none none
  | inside {t : Span} {l : List (Query × Reply)} (h : Played ⟨true, t.readOnly⟩ t.ops l) :
      Abreast ⟨true, t.readOnly⟩ (some l) (some t)

omit [Sdk] in
/-- Queries of a transaction only extend it. -/
theorem scan_tx : ∀ {es : List (Call × Reply)} {l : List (Query × Reply)},
    (∀ e ∈ es, ∃ q, e.1 = .tx q) → Scan.emits callNext (some l) es = [] ∧
      ∃ l', es = l'.map (fun e => (.tx e.1, e.2)) ∧ Scan.after callNext (some l) es = some (l ++ l')
  | [], l, _ => ⟨rfl, [], rfl, by simp [Scan.after]⟩
  | (call, r) :: es, l, h => by
      obtain ⟨q, rfl⟩ : ∃ q, call = .tx q := h (call, r) List.mem_cons_self
      obtain ⟨hemit, l', rfl, hafter⟩ := scan_tx (l := l ++ [(q, r)]) fun e he =>
        h e (List.mem_cons_of_mem _ he)
      refine ⟨by simp [Scan.emits, callNext, hemit], (q, r) :: l', rfl, ?_⟩
      rw [Scan.after]
      show Scan.after callNext (some (l ++ [(q, r)])) _ = _
      rw [hafter]
      simp

omit [Sdk] in
/-- Plain queries are no part of any. -/
theorem scan_plain : ∀ {es : List (Call × Reply)} {o : Option (List (Query × Reply))},
    (∀ e ∈ es, ∃ q, e.1 = .plain q) → Scan.emits callNext o es = [] ∧ Scan.after callNext o es = o
  | [], o, _ => ⟨rfl, rfl⟩
  | (call, r) :: es, o, h => by
      obtain ⟨q, rfl⟩ : ∃ q, call = .plain q := h (call, r) List.mem_cons_self
      obtain ⟨hemit, hafter⟩ := @scan_plain es o fun e he =>
        h e (List.mem_cons_of_mem _ he)
      exact ⟨by simp [Scan.emits, callNext, hemit], by simpa [Scan.after, callNext] using hafter⟩

omit [Sdk] in
/-- The end of a transaction is one call. -/
theorem told_finish {call : Call} {p' : Action (Outcome ExecResponse)}
    (h : (finishTransaction call).Told es p') : (es = [] ∧ ∃ k, p' = .ask call k) ∨
      ∃ r, es = [(call, r)] ∧ p' =
      .done (.new, (Except.mapError classifyError r).map fun _ => .count 0) := by
  cases es with
  | nil => exact .inl ⟨rfl, _, told_nil.mp h⟩
  | cons e es =>
      obtain ⟨called, r⟩ := e
      obtain ⟨rfl, hk⟩ := h
      obtain ⟨rfl, hp⟩ :=
        Told.ended (x := .ok (Connection.new, (Except.mapError classifyError r).map
        fun _ => ExecResponse.count 0)) (by cases r <;> exact hk)
      exact .inr ⟨r, rfl, hp⟩

omit [Sdk] in
/-- So is its start. -/
theorem told_start {readOnly : Bool} {p' : Action (Outcome ExecResponse)}
    (hconn : conn.transaction = false)
    (h : (execTransaction conn (.start false readOnly .default)).Told es p') :
    (es = [] ∧ ∃ k, p' = .ask .begin k) ∨
      (∃ v, es = [(.begin, .ok v)] ∧ p' = .done (⟨true, readOnly⟩, .ok (.count 0))) ∨
      ∃ err, es = [(.begin, .error err)] ∧ p' = .done (conn, .error (classifyError err)) := by
  rw [execTransaction, if_neg Bool.false_ne_true, hconn, if_neg Bool.false_ne_true] at h
  cases es with
  | nil => exact .inl ⟨rfl, _, told_nil.mp h⟩
  | cons e es =>
      obtain ⟨called, r⟩ := e
      obtain ⟨rfl, hk⟩ := h
      cases r with
      | ok v =>
          obtain ⟨rfl, hp⟩ := Told.ended (x := .ok ((⟨true, readOnly⟩ : Connection),
            (.ok (.count 0) : Except Error ExecResponse))) hk
          exact .inr (.inl ⟨v, rfl, hp⟩)
      | error err =>
          obtain ⟨rfl, hp⟩ := Told.ended (x := .ok (conn,
            (.error (classifyError err) : Except Error ExecResponse))) hk
          exact .inr (.inr ⟨err, rfl, hp⟩)

/-- **What an operation sends**: an end of the active transaction, a start without one, or
queries of the connection's handle, and then it keeps the connection. -/
theorem exec_cases (conn : Connection) (op : Operation) :
    (∃ t, op = .transaction t ∧ conn.transaction = true ∧
      (t = .commit ∧ exec conn op = finishTransaction .commit ∨
        t = .rollback ∧ exec conn op = finishTransaction .cancel)) ∨
    (∃ readOnly, op = startDefault readOnly ∧ conn.transaction = false) ∨
    ((exec conn op).Asks (Routed conn fun _ => True) ∧
      (∀ es out, (exec conn op).Told es (.done out) → out.1 = conn ∧
        (op.Finalizes → conn.transaction = false) ∧
        ((∃ t, op = .transaction t) → ∃ err, out.2 = .error err))) := by
  by_cases hdata : ∃ t, op = .transaction t
  · obtain ⟨t, rfl⟩ := hdata
    have hrefused : (∃ err, execTransaction conn t = .done (conn, .error err)) →
        (t.Finalizes → conn.transaction = false) →
        (exec conn (.transaction t)).Asks (Routed conn fun _ => True) ∧
        (∀ es out, (exec conn (.transaction t)).Told es (.done out) → out.1 = conn ∧
          ((Operation.transaction t).Finalizes → conn.transaction = false) ∧
          ((∃ t', Operation.transaction t = .transaction t') → ∃ err, out.2 = .error err)) := by
      rintro ⟨err, herr⟩ hfin
      rw [exec, herr]
      refine ⟨trivial, fun es out h => ?_⟩
      obtain ⟨_, hout⟩ := Told.ended (x := .ok (conn, (.error err : Except Error ExecResponse))) h
      injection hout with hout; subst hout
      exact ⟨rfl, hfin, fun _ => ⟨err, rfl⟩⟩
    by_cases hconn : conn.transaction = true
    · by_cases hfin : t.Finalizes
      · refine .inl ⟨t, rfl, hconn, ?_⟩
        cases t with
        | commit => exact .inl ⟨rfl, by rw [exec, execTransaction, if_pos hconn]⟩
        | rollback => exact .inr ⟨rfl, by rw [exec, execTransaction, if_pos hconn]⟩
        | start | savepoint | releaseSavepoint | rollbackToSavepoint => exact hfin.elim
      · exact .inr (.inr (hrefused (execTransaction_inside hconn hfin) fun h => absurd h hfin))
    · have hidle : conn.transaction = false := by simpa using hconn
      cases t with
      | commit | rollback =>
          exact .inr (.inr (hrefused (execTransaction_outside hidle trivial) fun _ => hidle))
      | savepoint | releaseSavepoint | rollbackToSavepoint =>
          exact .inr (.inr (hrefused ⟨_, rfl⟩ fun _ => hidle))
      | start isolation readOnly mode =>
          cases isolation with
          | true => exact .inr (.inr (hrefused ⟨_, rfl⟩ fun _ => hidle))
          | false =>
              cases mode with
              | other debug => exact .inr (.inr (hrefused ⟨_, rfl⟩ fun _ => hidle))
              | default => exact .inr (.inl ⟨readOnly, rfl, hidle⟩)
  · obtain ⟨p, hp, hasks⟩ := @exec_data conn _ op fun t ht => hdata ⟨t, ht⟩
    rw [hp]
    refine .inr (.inr ⟨(hasks.mono (Routed.mono fun _ _ => trivial)).attempt.bind fun _ => trivial,
      fun es out h => ?_⟩)
    rcases h.of_bind with ⟨q, k, _, hk⟩ | ⟨e, _, he⟩ | ⟨a, es₁, es₂, _, _, h₂⟩
    · exact absurd hk (by simp)
    · exact absurd he (by simp)
    · obtain ⟨_, hout⟩ := Told.ended (x := .ok (conn, a)) h₂
      injection hout with hout; subst hout
      refine ⟨rfl, fun hfin => ?_, fun ht => absurd ht hdata⟩
      cases op with
      | transaction t => exact absurd ⟨t, rfl⟩ hdata
      | _ => exact hfin.elim

/-- The queries of a transaction are what its operations sent. -/
def Comprises (l : List (Query × Reply)) (t : Span) : Prop := Played ⟨true, t.readOnly⟩ t.ops l

variable {o : Option (List (Query × Reply))} {u : Option Span}

omit [Sdk] in
theorem next_idle (h : ∀ readOnly, op = startDefault readOnly → ∃ err, result = .error err) :
    Span.next none (op, result) = (none, none) := by
  cases result with
  | error err => unfold Span.next; split <;> simp_all
  | ok resp =>
      unfold Span.next
      split
      · rename_i he
        injection he with hop _
        obtain ⟨err, herr⟩ := h _ hop
        exact absurd herr (by simp)
      all_goals simp_all

omit [Sdk] in
theorem next_inside {t : Span} (h : ¬ op.Finalizes) :
    Span.next (some t) (op, result) = (none, some ⟨t.readOnly, t.ops ++ [(op, result)]⟩) := by
  cases op with
  | transaction op =>
      cases op with
      | commit | rollback => exact absurd trivial h
      | start | savepoint | releaseSavepoint | rollbackToSavepoint => rfl
  | _ => rfl

/-- **An operation that has returned** leaves its calls and its transaction abreast. -/
theorem told_op (ha : Abreast conn o u) (h : (exec conn op).Told es (.done (conn', result))) :
    List.Forall₂ Comprises (Scan.emits callNext o es) (Span.next u (op, result)).1.toList ∧
      Abreast conn' (Scan.after callNext o es) (Span.next u (op, result)).2 := by
  rcases exec_cases conn op with ⟨t, rfl, hconn, ht⟩ | ⟨readOnly, rfl, hconn⟩ | ⟨hasks, hends⟩
  -- the end of a transaction
  · cases ha with
    | idle hidle => exact absurd (hconn.symm.trans hidle) (by simp)
    | @inside t' l hplayed =>
        rcases ht with ⟨rfl, hexec⟩ | ⟨rfl, hexec⟩
        · rw [hexec] at h
          rcases told_finish h with ⟨_, k, hk⟩ | ⟨r, rfl, hdone⟩
          · exact absurd hk (by simp)
          · injection hdone with hdone; injection hdone with hc hr; subst hc hr
            cases r with
            | ok v => exact ⟨.cons hplayed .nil, .idle rfl⟩
            | error err => exact ⟨.nil, .idle rfl⟩
        · rw [hexec] at h
          rcases told_finish h with ⟨_, k, hk⟩ | ⟨r, rfl, hdone⟩
          · exact absurd hk (by simp)
          · injection hdone with hdone; injection hdone with hc hr; subst hc hr
            cases r <;> exact ⟨.nil, .idle rfl⟩
  -- its start
  · cases ha with
    | inside => exact absurd hconn (by simp)
    | idle hidle =>
        rcases told_start hidle h with ⟨_, k, hk⟩ | ⟨v, rfl, hdone⟩ | ⟨err, rfl, hdone⟩
        · exact absurd hk (by simp)
        · injection hdone with hdone; injection hdone with hc hr; subst hc hr
          exact ⟨.nil, .inside (t := ⟨readOnly, []⟩) rfl⟩
        · injection hdone with hdone; injection hdone with hc hr; subst hc hr
          exact ⟨.nil, .idle hidle⟩
  -- anything else goes through the handle
  · obtain ⟨rfl, hfin, herr⟩ := hends _ _ h
    have hcalls := (h.asks hasks).1
    cases ha with
    | idle hidle =>
        obtain ⟨hemit, hafter⟩ := scan_plain (o := none) fun e he =>
          Routed.plain hidle _ (hcalls e he)
        rw [hemit, hafter, next_idle fun readOnly hop => herr ⟨_, hop⟩]
        exact ⟨.nil, .idle hidle⟩
    | @inside t l hplayed =>
        obtain ⟨hemit, l', rfl, hafter⟩ := scan_tx (l := l) fun e he => by
          obtain ⟨q, hq, _⟩ := hcalls e he
          exact ⟨q, hq⟩
        have hno : ¬ op.Finalizes := fun hop => absurd (hfin hop) (by simp)
        rw [hemit, hafter, next_inside hno]
        exact ⟨.nil, .inside (t := ⟨t.readOnly, t.ops ++ [(op, result)]⟩) (hplayed.snoc h)⟩

/-- An operation that has not returned has at most sent queries. -/
theorem told_part {q : Call} {k : Reply → Action (Outcome ExecResponse)} (ha : Abreast conn o u)
    (h : (exec conn op).Told es (.ask q k)) : Scan.emits callNext o es = [] ∧
      ∃ l', Scan.after callNext o es = o.map (· ++ l') := by
  have hnone : es = [] → Scan.emits callNext o es = [] ∧
      ∃ l', Scan.after callNext o es = o.map (· ++ l') := by
    rintro rfl
    exact ⟨rfl, [], by cases o <;> simp [Scan.after]⟩
  rcases exec_cases conn
    op with ⟨t, rfl, hconn, ⟨rfl, hexec⟩ | ⟨rfl, hexec⟩⟩ | ⟨readOnly, rfl, hconn⟩ | ⟨hasks, _⟩
  · rw [hexec] at h
    rcases told_finish h with ⟨hes, _⟩ | ⟨_, _, hdone⟩
    · exact hnone hes
    · exact absurd hdone (by simp)
  · rw [hexec] at h
    rcases told_finish h with ⟨hes, _⟩ | ⟨_, _, hdone⟩
    · exact hnone hes
    · exact absurd hdone (by simp)
  · rcases told_start hconn h with ⟨hes, _⟩ | ⟨_, _, hdone⟩ | ⟨_, _, hdone⟩
    · exact hnone hes
    · exact absurd hdone (by simp)
    · exact absurd hdone (by simp)
  · have hcalls := (h.asks hasks).1
    cases ha with
    | idle hidle =>
        obtain ⟨hemit, hafter⟩ := scan_plain (o := none) fun e he =>
          Routed.plain hidle _ (hcalls e he)
        exact ⟨hemit, [], hafter⟩
    | @inside t l _ =>
        obtain ⟨hemit, l', _, hafter⟩ := scan_tx (l := l) fun e he => by
          obtain ⟨q, hq, _⟩ := hcalls e he
          exact ⟨q, hq⟩
        exact ⟨hemit, l', hafter⟩

/-- **A client's calls and its history** tell of the same transactions. -/
theorem told_drive {α : Type} : ∀ {client : Client α} {conn : Connection} {es : List (Call × Reply)}
    {o : Option (List (Query × Reply))} {u : Option Span} {prog : Action α}, Abreast conn o u →
    (drive conn client).Told es prog →
    List.Forall₂ Comprises (Scan.emits callNext o es)
        (Scan.emits Span.next u (history conn client (es.map Prod.snd))) ∧
      ∃ conn' o', Abreast conn' o'
        (Scan.after Span.next u (history conn client (es.map Prod.snd))) ∧
        ∃ l', Scan.after callNext o es = o'.map (· ++ l')
  | .done a, conn, es, o, u, prog, ha, h => by
      obtain ⟨rfl, _⟩ := Told.ended (x := .ok a) h
      exact ⟨.nil, conn, o, ha, [], by cases o <;> simp [Scan.after]⟩
  | .fail e, conn, es, o, u, prog, ha, h => by
      obtain ⟨rfl, _⟩ := Told.ended (x := .error e) h
      exact ⟨.nil, conn, o, ha, [], by cases o <;> simp [Scan.after]⟩
  | .ask op k, conn, es, o, u, prog, ha, h => by
      rcases Told.of_bind
        (show (exec conn op >>= fun out => drive out.1 (k out.2)).Told es prog from h) with
        ⟨q, k', hpart, _⟩ | ⟨e, hfail, _⟩ | ⟨⟨conn', result⟩, es₁, es₂, rfl, hdone, hrest⟩
      -- still in this operation
      · obtain ⟨hemit, l', hafter⟩ := told_part ha hpart
        have hfeed : (exec conn op).feed (es.map Prod.snd) = (.ask q k', []) := by
          rw [← List.append_nil (es.map Prod.snd), hpart.feed]; rfl
        rw [history, hfeed, hemit]
        exact ⟨.nil, conn, o, ha, l', hafter⟩
      -- an operation returns, it does not fail
      · have hruns : (exec conn op).Runs Noted [] es (.error e) :=
          runs_noted_iff.mpr ⟨es, rfl, hfail⟩
        obtain ⟨_, _, hout, _⟩ := exec_leaves hruns
        exact absurd hout (by simp)
      -- beyond it
      · have hfeed : (exec conn op).feed ((es₁ ++ es₂).map Prod.snd) =
            (.done (conn', result), es₂.map Prod.snd) := by
          rw [List.map_append, hdone.feed]; rfl
        obtain ⟨hfirst, ha'⟩ := told_op ha hdone
        obtain ⟨hall, conn'', o', ha'', l', hafter⟩ := told_drive ha' hrest
        rw [history, hfeed, Scan.emits_append, Scan.after_append]
        exact ⟨List.rel_append hfirst hall, conn'', o', ha'', l', hafter⟩

/-! ## Read-only connections -/

/-- **A read-only transaction sends nothing but reads.** -/
theorem told_reads (h : (exec ⟨true, true⟩ op).Told es (.done (conn', result))) :
    ∀ e ∈ es, ∀ q, e.1 = .tx q → q.sql.isRead = true := by
  have hrouted : ∀ {p : Action ExecResponse}, exec ⟨true, true⟩ op =
      Connection.keep ⟨true, true⟩ p →
      p.Asks (Routed ⟨true, true⟩ ReadOnly) → ∀ e ∈ es, ∀ q, e.1 = .tx q → q.sql.isRead = true := by
    intro p hp hasks e he q hq
    have hall : (exec ⟨true, true⟩ op).Asks (Routed ⟨true, true⟩ ReadOnly) := by
      rw [hp]
      exact hasks.attempt.bind fun _ => trivial
    obtain ⟨q', hq', hread⟩ := (h.asks hall).1 e he
    rw [hq] at hq'
    injection hq' with hq'; subst hq'
    exact hread
  by_cases hw : op.Writes
  -- a write is refused before anything is sent
  · have hruns : (exec ⟨true, true⟩ op).Runs Noted [] es (.ok (conn', result)) :=
      runs_noted_iff.mpr ⟨es, rfl, h⟩
    obtain ⟨rfl, _⟩ := exec_refused rfl hw hruns
    exact fun e he => absurd he List.not_mem_nil
  · cases op with
    | querySql stmt ret =>
        cases stmt with
        | ok stmt => exact absurd trivial hw
        | error name => exact hrouted rfl trivial
    | rawSql => exact hrouted rfl trivial
    | getByKey table op => exact hrouted rfl (reads_execGetByKey op)
    | queryPk table op => exact hrouted rfl (asks_execQueryPk op)
    | findPkByIndex table op => exact hrouted rfl (asks_execFindPkByIndex op)
    | scan table op => exact hrouted rfl (asks_execScan op)
    | transaction t =>
        intro e he q hq
        have hends := (h.asks (P := Ends ⟨true, true⟩) asks_execTransaction).1 e he
        rw [hq] at hends
        exact absurd hends (by simp [Ends])
    | insert | updateByKey | deleteByKey | upsert => exact absurd trivial hw

theorem Played.reads : ∀ {h : History} {l : List (Query × Reply)}, Played ⟨true, true⟩ h l →
    ∀ e ∈ l, e.1.sql.isRead = true
  | [], _, rfl, e, he => absurd he List.not_mem_nil
  | _ :: _, _, ⟨_, _, rfl, hop, h⟩, e, he => by
      rcases List.mem_append.mp he with he | he
      · exact told_reads hop _ (List.mem_map_of_mem he) e.1 rfl
      · exact h.reads e he

omit [Sdk] in
/-- Reading changes nothing. -/
theorem replay_reads {D : Database} : ∀ {l : List (Query × Reply)} {d d' : D.State},
    (∀ e ∈ l, e.1.sql.isRead = true) → D.Replay d l d' → d' = d
  | [], _, _, _, h => h
  | e :: l, d, d', hreads, ⟨d₁, hexec, h⟩ => by
      obtain rfl := D.reads (hreads e List.mem_cons_self) hexec
      exact replay_reads (fun e' he' => hreads e' (List.mem_cons_of_mem _ he')) h

end Operations

/-! ## Any number of clients -/

section Serial

variable [Sdk] {D : Database} {ι : Type} [DecidableEq ι] {α : Type}
variable {commits : D.Tx → D.State → D.State → Prop}

omit [DecidableEq ι] [Sdk] in
/-- A turn of the calls, as a turn of the operations it belongs to. -/
def CallTurn.told : CallTurn ι × Option Span → Turn ι
  | ((i, .inl e), _) => .alone i e.1 e.2
  | ((i, .inr _), t) => .whole i (t.getD ⟨false, []⟩)

/-- A transaction's turn comes with the operations that sent its queries. -/
def Matched (y : CallTurn ι × Option Span) : Prop :=
  Option.Rel (fun m t => Comprises m.2 t) (CallTurn.whole y.1) y.2

/-- One turn of the calls and of the operations. -/
def SameTurn (call : CallTurn ι) (turn : Turn ι) : Prop :=
  ∃ t, Matched (call, t) ∧ turn = CallTurn.told (call, t)

omit [DecidableEq ι] in
/-- **The turns of the calls are turns of the operations**, under any rule for commits. -/
theorem turns_follow : Snapshots.Follows (CallTurn.rules D commits) (Turn.rules D commits) Eq
    (SameTurn (ι := ι)) Eq where
  act := by
    rintro d call d' _ turn rfl ⟨t, _, rfl⟩ h
    obtain ⟨i, e | l⟩ := call
    · exact ⟨d', h, rfl⟩
    · exact h.elim
  work := by
    rintro d call tx _ turn rfl ⟨t, hmatched, rfl⟩ h
    obtain ⟨i, e | l⟩ := call
    · exact h.elim
    · obtain ⟨hstart, hlog, hreplay⟩ := h
      cases hmatched with
      | @some _ span hplayed =>
          refine ⟨tx, ⟨hstart, Played.executes hplayed hreplay, fun hread => ?_⟩, rfl⟩
          have hreads : ∀ e ∈ l, e.1.sql.isRead = true := by
            obtain ⟨readOnly, ops⟩ := span
            obtain rfl : readOnly = true := hread
            exact Played.reads hplayed
          exact ⟨replay_reads hreads hreplay, hlog ▸ hreads⟩
  merge := by
    rintro d tx d' _ _ rfl rfl h
    exact ⟨d', h, rfl⟩

/-- The calls that were made, by turns. -/
theorem exists_turning {clients : ι → Client α} {d₀ : D.State} {p : Clients D ι α}
    (h : Pool.Steps (Database.StepBy commits) (Clients.begin clients d₀) p) :
    ∃ turns, Turning commits d₀ p.shared p.log turns := by
  have hall := Steps.invariant (I := fun s log => ∃ turns, Turning (D := D) commits d₀ s log turns)
    (L := fun _ _ _ _ => True) (fun hI _ hs => ⟨hI.elim fun _ ht => ht.step hs, trivial⟩)
    (fun _ _ _ => trivial) h
    ⟨⟨[], .nil, rfl, rfl, fun _ => rfl, fun _ => rfl, fun _ _ ht =>
      absurd ht (by simp [Clients.begin])⟩, fun _ => trivial⟩
  exact hall.shared

/-- **The turns of the calls are turns of the clients.** -/
theorem inTurn_of_turning {clients : ι → Client α} {d₀ : D.State} {p : Clients D ι α}
    {turns : List (CallTurn ι × D.State)} (hturns : Turning commits d₀ p.shared p.log turns)
    (h : Pool.Steps (Database.StepBy commits) (Clients.begin clients d₀) p) :
    ∃ turns', InTurn commits clients d₀ p turns' ∧
      List.Forall₂ SameTurn (turns.map Prod.fst) (turns'.map Prod.fst) := by
  have hclient := fun i => told_drive (.idle rfl) (h.told rfl i)
  obtain ⟨ys, rfl, hmatched, hparts⟩ :=
    exists_interleaving (fun turn => CallTurn.whole turn.1) Comprises turns
    (fun i => Span.committed (p.history clients i)) fun i => by
      have hi := (hclient i).1
      rw [← hturns.whole, wholeOf, List.filterMap_map] at hi
      exact hi
  let told : (CallTurn ι × D.State) × Option Span → Turn ι := fun y => CallTurn.told (y.1.1, y.2)
  have hsame : List.Forall₂ (fun x turn => SameTurn x.1 turn) (ys.map Prod.fst) (ys.map told) := by
    rw [List.forall₂_map_left_iff, List.forall₂_map_right_iff, List.forall₂_same]
    exact fun y hy => ⟨y.2, hmatched y hy, rfl⟩
  obtain ⟨turns', hmap, hmade, hrel⟩ := turns_follow.history rfl hturns.made hsame
  have hmarks : turns'.map (fun turn => turn.1.mark) = (ys.map told).map Turn.mark := by
    rw [← hmap, List.map_map]
    rfl
  refine ⟨turns', ⟨hmade, hturns.committed.trans (Snapshots.now_related rfl hrel), ?_, fun i => ?_,
    fun i t ht => ?_⟩, ?_⟩
  · rw [hmarks, ← hturns.order, List.map_map, List.map_map]
    refine List.map_congr_left fun y _ => ?_
    obtain ⟨⟨⟨i, e | l⟩, d⟩, t⟩ := y <;> rfl
  · rw [hmap, ← hparts i, List.filterMap_map]
    refine List.filterMap_congr fun y hy => ?_
    have hy' := hmatched y hy
    obtain ⟨⟨⟨j, e | l⟩, d⟩, t⟩ := y
    · rfl
    · cases hy' with
      | some hl => rfl
  -- the open transaction of a client is the server's
  · obtain ⟨_, conn', o', habreast, l', hafter⟩ := hclient i
    have hcurrent : Abreast conn' o' (some t) := ht ▸ habreast
    cases hcurrent with
    | @inside t l hplayed =>
        have hlog := hturns.open_log i
        rw [show Scan.after callNext none (own i p.log) = some (l ++ l') from hafter] at hlog
        obtain ⟨tx, htx, hl⟩ := Option.map_eq_some_iff.mp hlog
        obtain ⟨hreplay, before, hb, hstart⟩ := hturns.snapshot i tx htx
        obtain ⟨before', hb', hrel'⟩ := Snapshots.prefix_related hrel hb
        have hnow : now d₀ before = now d₀ before' := Snapshots.now_related rfl hrel'
        rw [hl] at hreplay
        obtain ⟨d', hfirst, _⟩ := replay_append hreplay
        exact ⟨before', hb', d', hnow ▸ hstart ▸ hplayed.executes hfirst⟩
  · rw [hmap, List.forall₂_map_left_iff]
    exact hsame

end Serial

/-- One in stock. -/
def oneLeft : Records := [(firstProduct, [("stock", .number (.int 1))])]

/-- Six in stock. -/
def restocked : Records := [(firstProduct, [("stock", .number (.int 6))])]

end ToastySurreal
