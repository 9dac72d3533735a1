import ToastySurreal.Lib.Simulation
import ToastySurreal.Proof.Serializable

/-!
# Deeds

Where every operation is one statement, what clients do is a row of deeds: an operation
outside of a transaction is done at once, when its statement is, and a transaction when it is
committed, worked out on what was committed before. `Amounts` says that the deeds make the
committed state, in the order of the calls, and are those of the clients, each in its own
order. `DoneAs` says the same of another state that follows the committed one.
-/

namespace ToastySurreal

open Prog Prog.Pool Simulation Lists
open Snapshots (Rules now)

/-! ## Deeds -/

section

variable [Sdk]

/-- The operation sends a query, when no transaction is active. -/
def Operation.asksPlain (op : Operation) : Bool :=
  match exec .new op with
  | .ask (.plain _) _ => true
  | _ => false

namespace Span

/-- An operation outside of a transaction. -/
def outside (present : Option Span) (entry : Operation × Except Error ExecResponse) :
    Option (Operation × Except Error ExecResponse) × Option Span :=
  (if present.isNone && entry.1.asksPlain then some entry else none, (next present entry).2)

/-- The operations of a history outside of its transactions that sent something. -/
def apart (h : History) : History := Scan.emits outside none h

end Span

/-- An operation that is done at once, or a transaction. -/
abbrev Deed := (Operation × Except Error ExecResponse) ⊕ Span

namespace Deed

omit [Sdk] in
/-- The operations of a deed. -/
def entries : Deed → History
  | .inl entry => [entry]
  | .inr t => t.ops

/-- What deeds do where transactions are committed by a rule: an operation runs on what is
committed, and the operations of a transaction ran on a snapshot. -/
def rules (D : Database) {ι : Type} (commits : D.Tx → D.State → D.State → Prop) :
    Rules D.State (ι × Deed) D.Tx where
  act d deed d' :=
    match deed.2 with
    | .inl entry => (exec .new entry.1).Runs D.Handle d d' (.ok (.new, entry.2))
    | .inr _ => False
  work d deed t :=
    match deed.2 with
    | .inl _ => False
    | .inr span => t.start = d ∧ Executes D ⟨true, span.readOnly⟩ d span.ops t.working
  merge := commits

omit [Sdk] in
/-- The operations of one client. -/
def aloneOf {ι : Type} [DecidableEq ι] (i : ι) :
    ι × Deed → Option (Operation × Except Error ExecResponse)
  | (j, .inl entry) => if j = i then some entry else none
  | (_, .inr _) => none

omit [Sdk] in
/-- The transactions of one client. -/
def spanOf {ι : Type} [DecidableEq ι] (i : ι) : ι × Deed → Option Span
  | (j, .inr t) => if j = i then some t else none
  | (_, .inl _) => none

end Deed

variable {ι α : Type} [DecidableEq ι]

/-- The deeds of the clients, in the order of the calls that did them, each with what was
committed after it. -/
structure Amounts {D : Database} (commits : D.Tx → D.State → D.State → Prop)
    (clients : ι → Client α) (d₀ : D.State) (p : Clients D ι α)
    (deeds : List ((ι × Deed) × D.State)) : Prop where
  made : Snapshots.History (Deed.rules D commits) d₀ deeds
  committed : p.shared.committed = now d₀ deeds
  order : deeds.map (fun deed => (deed.1.1, deed.1.2.isLeft)) =
    (p.log.filterMap mark).map fun m => (m.1, m.2.isSome)
  alone : ∀ i, (deeds.map Prod.fst).filterMap (Deed.aloneOf i) = Span.apart (p.history clients i)
  whole : ∀ i, (deeds.map Prod.fst).filterMap (Deed.spanOf i) = Span.committed (p.history clients i)
  snapshot : ∀ i t, Span.current (p.history clients i) = some t →
    ∃ before, before <+: deeds ∧ ∃ d', Executes D ⟨true, t.readOnly⟩ (now d₀ before) t.ops d'

/-! ## Operations of one statement -/

/-- The operation is one statement at most. -/
def Operation.Single (op : Operation) : Prop := ∀ conn, (exec conn op).AtMostOnce

variable {conn conn' : Connection} {op : Operation} {es : List (Call × Reply)}
  {result : Except Error ExecResponse} {o : Option (List (Query × Reply))} {u : Option Span}

omit [Sdk] [DecidableEq ι] in
/-- A query outside of a transaction. -/
def plainOf : Call × Reply → Option (Query × Reply)
  | (.plain q, r) => some (q, r)
  | _ => none

/-- The operation was done by the query. -/
def SentAlone (e : Query × Reply) (entry : Operation × Except Error ExecResponse) : Prop :=
  (exec .new entry.1).Told [(.plain e.1, e.2)] (.done (.new, entry.2))

/-- Outside of a transaction a connection is as it was made. -/
theorem told_new (hnew : conn.transaction = false → conn = .new)
    (h : (exec conn op).Told es (.done (conn', result))) : conn'.transaction = false →
    conn' = .new := by
  have hruns : (exec conn op).Runs Noted [] es (.ok (conn', result)) :=
    runs_noted_iff.mpr ⟨es, rfl, h⟩
  obtain ⟨_, _, hout, hcases⟩ := exec_leaves hruns
  injection hout with hout; injection hout with hc hr; subst hc hr
  rcases hcases with ⟨rfl, _⟩ | ⟨_, _, rfl⟩ | ⟨readOnly, resp, _, _, rfl, _⟩
  · exact hnew
  · exact fun _ => rfl
  · exact fun h => absurd h (by simp)

/-- **An operation of one statement that has returned** is told by its query. -/
theorem alone_op (hs : op.Single) (ha : Abreast conn o u)
    (hnew : conn.transaction = false → conn = .new)
    (h : (exec conn op).Told es (.done (conn', result))) :
    List.Forall₂ SentAlone (es.filterMap plainOf) (Span.outside u (op, result)).1.toList := by
  rcases exec_cases conn op with ⟨t, rfl, hconn, ht⟩ | ⟨readOnly, rfl, hconn⟩ | ⟨hasks, hends⟩
  · cases ha with
    | idle hidle => exact absurd (hconn.symm.trans hidle) (by simp)
    | inside =>
        rcases ht with ⟨_, hexec⟩ | ⟨_, hexec⟩ <;> rw [hexec] at h <;>
          rcases told_finish h with ⟨_, k, hk⟩ | ⟨r, rfl, _⟩
        · exact absurd hk (by simp)
        · exact .nil
        · exact absurd hk (by simp)
        · exact .nil
  · rcases told_start hconn h with ⟨_, k, hk⟩ | ⟨v, rfl, _⟩ | ⟨err, rfl, _⟩
    · exact absurd hk (by simp)
    · cases u <;> exact .nil
    · cases u <;> exact .nil
  · have hcalls := (h.asks hasks).1
    cases ha with
    | @inside t l _ =>
        have hnone : es.filterMap plainOf = [] := by
          rw [List.filterMap_eq_nil_iff]
          intro e he
          obtain ⟨q, hq, _⟩ := hcalls e he
          obtain ⟨call, r⟩ := e
          obtain rfl : call = .tx q := hq
          rfl
        rw [hnone]
        exact .nil
    | idle hidle =>
        obtain rfl := hnew hidle
        rcases (hs .new).told h with ⟨rfl, hdone⟩ | ⟨call, k, r, hask, rfl, _, _⟩
        · rw [Span.outside, Operation.asksPlain, ← hdone]
          exact .nil
        · obtain ⟨q, hq⟩ := Routed.plain hidle _ (hcalls _ List.mem_cons_self)
          obtain rfl : call = .plain q := hq
          rw [Span.outside, Operation.asksPlain, hask]
          obtain ⟨rfl, _⟩ := hends _ _ h
          exact .cons h .nil

/-- **A client's plain queries and its operations** outside of transactions tell of the same. -/
theorem told_apart {α : Type} : ∀ {client : Client α} {conn : Connection} {es : List (Call × Reply)}
    {o : Option (List (Query × Reply))} {u : Option Span} {prog : Action α},
    client.Asks Operation.Single →
    Abreast conn o u → (conn.transaction = false → conn = .new) → (drive conn client).Told es prog →
    List.Forall₂ SentAlone (es.filterMap plainOf)
      (Scan.emits Span.outside u (history conn client (es.map Prod.snd)))
  | .done a, conn, es, o, u, prog, _, _, _, h => by
      obtain ⟨rfl, _⟩ := Told.ended (x := .ok a) h
      exact .nil
  | .fail e, conn, es, o, u, prog, _, _, _, h => by
      obtain ⟨rfl, _⟩ := Told.ended (x := .error e) h
      exact .nil
  | .ask op k, conn, es, o, u, prog, hs, ha, hnew, h => by
      rcases Told.of_bind
        (show (exec conn op >>= fun out => drive out.1 (k out.2)).Told es prog from h) with
        ⟨q, k', hpart, _⟩ | ⟨e, hfail, _⟩ | ⟨⟨conn', result⟩, es₁, es₂, rfl, hdone, hrest⟩
      -- an operation of one statement has returned once it was told something
      · rcases (hs.1 conn).told hpart with ⟨rfl, hask⟩ | ⟨_, k₁, r, _, _, hk, x, hx⟩
        · have hfeed : (exec conn op).feed [] = (.ask q k', []) := by rw [← hask]; rfl
          show List.Forall₂ SentAlone [] (Scan.emits Span.outside u (history conn (.ask op k) []))
          rw [history, hfeed]
          exact .nil
        · rw [hx] at hk
          cases x <;> exact absurd hk (by simp [lift])
      · have hruns : (exec conn op).Runs Noted [] es (.error e) :=
          runs_noted_iff.mpr ⟨es, rfl, hfail⟩
        obtain ⟨_, _, hout, _⟩ := exec_leaves hruns
        exact absurd hout (by simp)
      · have hfeed : (exec conn op).feed ((es₁ ++ es₂).map Prod.snd) =
            (.done (conn', result), es₂.map Prod.snd) := by
          rw [List.map_append, hdone.feed]; rfl
        obtain ⟨_, ha'⟩ := told_op ha hdone
        have hrest' := told_apart (hs.2 result) ha' (told_new hnew hdone) hrest
        rw [history, hfeed, List.filterMap_append]
        exact List.rel_append (alone_op hs.1 ha hnew hdone) hrest'

/-! ## Any number of clients -/

variable {D : Database} {commits : D.Tx → D.State → D.State → Prop} {clients : ι → Client α}
  {d₀ : D.State}
variable {p : Clients D ι α}

omit [Sdk] [DecidableEq ι] in
/-- A turn that is a query. -/
def Turn.aloneOf : Turn ι → Option (ι × Query × Reply)
  | .alone i q r => some (i, q, r)
  | .whole .. => none

omit [Sdk] [DecidableEq ι] in
/-- A turn, as the deed it did. -/
def Turn.deed : Turn ι × Option (Operation × Except Error ExecResponse) → Option (ι × Deed)
  | (.alone i _ _, entry) => entry.map fun entry => (i, .inl entry)
  | (.whole i t, _) => some (i, .inr t)

/-- The query of a turn did its operation. -/
def TurnDone (y : Turn ι × Option (Operation × Except Error ExecResponse)) : Prop :=
  Option.Rel (fun m entry => SentAlone m.2 entry) (Turn.aloneOf y.1) y.2

/-- The turn did the deed. -/
def DidDeed (turn : Turn ι) (deed : ι × Deed) : Prop := ∃ entry, TurnDone (turn, entry) ∧
  Turn.deed (turn, entry) = some deed

omit [DecidableEq ι] in
/-- A query that did an operation is a run of it. -/
theorem SentAlone.does {e : Query × Reply} {entry : Operation × Except Error ExecResponse}
    {d d' : D.State} (h : SentAlone e entry) (hexec : D.exec d e.1 e.2 d') :
    (exec .new entry.1).Runs D.Handle d d' (.ok (.new, entry.2)) := by
  rw [SentAlone] at h
  cases hp : exec .new entry.1 with
  | done a => rw [hp] at h; exact h.elim
  | fail e => rw [hp] at h; exact h.elim
  | ask call k =>
      rw [hp] at h
      obtain ⟨hcall, hk⟩ := h
      obtain rfl : Call.plain e.1 = call := hcall
      refine ⟨e.2, d', hexec, ?_⟩
      rw [← told_nil.mp hk]
      exact ⟨rfl, rfl⟩

omit [DecidableEq ι] in
/-- **The turns are deeds**, under any rule for commits. -/
theorem deeds_follow : Snapshots.Follows (Turn.rules D commits) (Deed.rules D commits) Eq
    (DidDeed (ι := ι)) Eq where
  act := by
    rintro d turn d' _ deed rfl ⟨entry, hdone, hdeed⟩ h
    cases turn with
    | whole i t => exact h.elim
    | alone i q r =>
        cases hdone with
        | some hsent =>
            injection hdeed with hdeed; subst hdeed
            exact ⟨d', hsent.does h, rfl⟩
  work := by
    rintro d turn tx _ deed rfl ⟨entry, hdone, hdeed⟩ h
    cases turn with
    | alone i q r => exact h.elim
    | whole i t =>
        injection hdeed with hdeed; subst hdeed
        exact ⟨tx, ⟨h.1, h.2.1⟩, rfl⟩
  merge := by
    rintro d tx d' _ _ rfl rfl h
    exact ⟨d', h, rfl⟩

/-- **What clients do is a row of deeds**, where every operation is one statement. -/
theorem exists_deeds (hclients : ∀ i, (clients i).Asks Operation.Single)
    (h : Pool.Steps (Database.StepBy commits) (Clients.begin clients d₀) p) :
    ∃ deeds, Amounts commits clients d₀ p deeds := by
  obtain ⟨calls, hcalls⟩ := exists_turning h
  obtain ⟨turns, hturns, _⟩ := inTurn_of_turning hcalls h
  obtain ⟨ys, hys, hdone, hparts⟩ := exists_interleaving Turn.aloneOf SentAlone (turns.map Prod.fst)
    (fun i => Span.apart (p.history clients i)) fun i => by
      have hi := told_apart (hclients i) (.idle rfl) (fun _ => rfl) (h.told rfl i)
      have hown : ((turns.map Prod.fst).filterMap Turn.aloneOf).filterMap
          (fun m => if m.1 = i then some m.2 else none) = (own i p.log).filterMap plainOf := by
        have hmarks : (turns.map Prod.fst).filterMap Turn.aloneOf =
            (turns.map fun turn => turn.1.mark).filterMap fun m => m.2.map fun e => (m.1, e) := by
          rw [List.filterMap_map, List.filterMap_map]
          exact List.filterMap_congr fun turn _ => by
            obtain ⟨turn | turn, d⟩ := turn <;> rfl
        rw [hmarks, hturns.order, own, List.filterMap_filterMap, List.filterMap_filterMap,
          List.filterMap_filterMap]
        refine List.filterMap_congr fun entry _ => ?_
        obtain ⟨j, call, r⟩ := entry
        by_cases hj : j = i
        · cases call with
          | commit => cases r <;> simp [mark, plainOf, hj]
          | plain | tx | begin | cancel => simp [mark, plainOf, hj]
        · cases call with
          | commit => cases r <;> simp [mark, hj]
          | plain | tx | begin | cancel => simp [mark, hj]
      rw [hown]
      exact hi
  -- every turn did one deed
  have hdeeds : ∃ es, List.Forall₂ (fun y deed => Turn.deed y = some deed) ys es := by
    refine exists_forall₂ fun y hy => ?_
    have hy' := hdone y hy
    obtain ⟨turn | turn, entry⟩ := y
    · cases hy' with
      | some _ => exact ⟨_, rfl⟩
    · exact ⟨_, rfl⟩
  obtain ⟨es, hes⟩ := hdeeds
  have hdid : List.Forall₂ (fun x deed => DidDeed x.1 deed) turns es := by
    have hdid : List.Forall₂ DidDeed (ys.map Prod.fst) es := by
      rw [List.forall₂_map_left_iff]
      exact forall₂_imp_mem hes fun y hy deed _ hdeed => ⟨y.2, hdone y hy, hdeed⟩
    rw [hys, List.forall₂_map_left_iff] at hdid
    exact hdid
  obtain ⟨deeds, rfl, hmade, hrel⟩ := deeds_follow.history rfl hturns.made hdid
  refine ⟨deeds, hmade, hturns.committed.trans (Snapshots.now_related rfl hrel), ?_, fun i => ?_,
    fun i => ?_, fun i t ht => ?_⟩
  · rw [← hturns.order, List.map_map]
    refine map_eq_of_forall₂ hrel fun turn _ deed hboth => ?_
    obtain ⟨⟨entry, hdone, hdeed⟩, _⟩ := hboth
    obtain ⟨turn | turn, d⟩ := turn
    · cases hdone with
      | some _ => injection hdeed with hdeed; rw [← hdeed]; rfl
    · injection hdeed with hdeed; rw [← hdeed]; rfl
  · rw [← hparts i]
    refine filterMap_eq_of_forall₂ hes fun y hy deed hdeed => ?_
    have hy' := hdone y hy
    obtain ⟨turn | turn, entry⟩ := y
    · cases hy' with
      | some _ => injection hdeed with hdeed; rw [← hdeed]; rfl
    · injection hdeed with hdeed; rw [← hdeed]; rfl
  · have hspans : (turns.map Prod.fst).filterMap (Turn.spanOf i) = ys.filterMap fun y =>
      Turn.spanOf i y.1 := by
      rw [← hys, List.filterMap_map]
      rfl
    rw [← hturns.whole i, hspans]
    refine filterMap_eq_of_forall₂ hes fun y hy deed hdeed => ?_
    have hy' := hdone y hy
    obtain ⟨turn | turn, entry⟩ := y
    · cases hy' with
      | some _ => injection hdeed with hdeed; rw [← hdeed]; rfl
    · injection hdeed with hdeed; rw [← hdeed]; rfl
  · obtain ⟨before, hb, d', hexec⟩ := hturns.snapshot i t ht
    obtain ⟨before', hb', hrel'⟩ := Snapshots.prefix_related hrel hb
    have hnow : now d₀ before = now d₀ before' := Snapshots.now_related rfl hrel'
    exact ⟨before', hb', d', hnow ▸ hexec⟩

/-! ## Whose operations they are -/

section Ops

variable {Q : Operation × Except Error ExecResponse → Prop}

omit [Sdk] [DecidableEq ι] in
theorem Span.next_ops {u : Option Span} {entry : Operation × Except Error ExecResponse}
    (hu : ∀ t, u = some t → ∀ e ∈ t.ops, Q e) (he : Q entry) :
    (∀ t, (Span.next u entry).1 = some t → ∀ e ∈ t.ops, Q e) ∧
      ∀ t, (Span.next u entry).2 = some t → ∀ e ∈ t.ops, Q e := by
  unfold Span.next
  split
  · exact ⟨by simp, fun t ht => by injection ht with ht; subst ht; simp⟩
  · simp
  · exact ⟨fun t ht => by injection ht with ht; subst ht; exact hu _ rfl, by simp⟩
  · simp
  · simp
  · refine ⟨by simp, fun t ht e hmem => ?_⟩
    injection ht with ht; subst ht
    rcases List.mem_append.mp hmem with hmem | hmem
    · exact hu _ rfl e hmem
    · rw [List.mem_singleton.mp hmem]
      exact he

omit [Sdk] [DecidableEq ι] in
/-- The operations of transactions are those of the history. -/
theorem Span.scan_ops : ∀ {h : History} {u : Option Span}, (∀ t, u = some t → ∀ e ∈ t.ops, Q e) →
    (∀ e ∈ h, Q e) → (∀ t ∈ Scan.emits Span.next u h, ∀ e ∈ t.ops, Q e) ∧
      ∀ t, Scan.after Span.next u h = some t → ∀ e ∈ t.ops, Q e
  | [], u, hu, _ => ⟨by simp [Scan.emits], hu⟩
  | entry :: h, u, hu, hh => by
      obtain ⟨hfirst, hnext⟩ := Span.next_ops hu (hh entry List.mem_cons_self)
      obtain ⟨hall, hlast⟩ := Span.scan_ops hnext fun e he => hh e (List.mem_cons_of_mem _ he)
      refine ⟨fun t ht => ?_, hlast⟩
      rcases List.mem_append.mp ht with ht | ht
      · exact hfirst t (Option.mem_toList.mp ht)
      · exact hall t ht

omit [DecidableEq ι] in
theorem Span.apart_mem : ∀ {h : History} {u : Option Span},
    ∀ e ∈ Scan.emits Span.outside u h, e ∈ h
  | [], _, e, he => absurd he List.not_mem_nil
  | entry :: h, u, e, he => by
      rcases List.mem_append.mp he with he | he
      · rw [Option.mem_toList, Span.outside] at he
        split at he
        · injection he with he
          rw [he]
          exact List.mem_cons_self
        · exact absurd he (by simp)
      · exact List.mem_cons_of_mem _ (Span.apart_mem e he)

omit [DecidableEq ι] in
/-- A client's history is of operations it asks for. -/
theorem history_asks {P : Operation → Prop} :
    ∀ {client : Client α} {conn : Connection} {rs : List Reply},
    client.Asks P → ∀ e ∈ history conn client rs, P e.1
  | .done _, _, _, _, e, he | .fail _, _, _, _, e, he => absurd he List.not_mem_nil
  | .ask op k, conn, rs, hp, e, he => by
      rw [history] at he
      split at he
      · rcases List.mem_cons.mp he with rfl | he
        · exact hp.1
        · exact history_asks (hp.2 _) e he
      · exact absurd he List.not_mem_nil

/-- **Every deed is of operations that the clients asked for.** -/
theorem Amounts.asked {P : Operation → Prop} {deeds : List ((ι × Deed) × D.State)}
    (hclients : ∀ i, (clients i).Asks P) (h : Amounts commits clients d₀ p deeds) :
    ∀ deed ∈ deeds.map Prod.fst, ∀ e ∈ deed.2.entries, P e.1 := by
  rintro ⟨i, entry | t⟩ hdeed e he
  · have hmem : entry ∈ Span.apart (p.history clients i) := by
      rw [← h.alone i, List.mem_filterMap]
      exact ⟨_, hdeed, if_pos rfl⟩
    rw [List.mem_singleton.mp he]
    exact history_asks (hclients i) _ (Span.apart_mem _ hmem)
  · have hmem : t ∈ Span.committed (p.history clients i) := by
      rw [← h.whole i, List.mem_filterMap]
      exact ⟨_, hdeed, if_pos rfl⟩
    exact (Span.scan_ops (Q := fun e => P e.1) (by simp) (history_asks (hclients i))).1 t hmem e he

/-- So is a transaction that is open. -/
theorem current_asked {P : Operation → Prop} {i : ι} {t : Span} (hclients : (clients i).Asks P)
    (h : Span.current (p.history clients i) = some t) : ∀ e ∈ t.ops, P e.1 :=
  (Span.scan_ops (Q := fun e => P e.1) (by simp) (history_asks hclients)).2 t h

end Ops

/-! ## Deeds on another state -/

section Following

variable {A : Type} {astep : A → Operation × Except Error ExecResponse → A → Prop}
variable {amerge : A → A → A → A → Prop} {R : D.State → A → Prop} {Ok : Operation → Prop}

omit [Sdk] in
/-- What deeds do on a state of another kind: an operation is a step, the operations of a
transaction are steps from a snapshot, and what they made of it is merged in. -/
def Deed.stepRules (astep : A → Operation × Except Error ExecResponse → A → Prop)
    (amerge : A → A → A → A → Prop) : Rules A (ι × Deed) (A × A) where
  act a deed a' :=
    match deed.2 with
    | .inl entry => astep a entry a'
    | .inr _ => False
  work a deed w :=
    match deed.2 with
    | .inl _ => False
    | .inr span => w.1 = a ∧ Run astep a span.ops w.2
  merge w a a' := amerge w.1 w.2 a a'

/-- The deeds of the clients, done on a state of another kind: each makes of it one that what
was committed after the deed is related to, with the results that were returned, and a
transaction that is open works on what some earlier deeds made. -/
structure DoneAs (commits : D.Tx → D.State → D.State → Prop)
    (astep : A → Operation × Except Error ExecResponse → A → Prop) (amerge : A → A → A → A → Prop)
    (R : D.State → A → Prop) (clients : ι → Client α) (d₀ : D.State) (a₀ : A) (p : Clients D ι α)
    (deeds : List ((ι × Deed) × D.State)) (adeeds : List ((ι × Deed) × A)) : Prop where
  amount : Amounts commits clients d₀ p deeds
  same : List.Forall₂ (fun x y => x.1 = y.1 ∧ R x.2 y.2) deeds adeeds
  made : Snapshots.History (Deed.stepRules astep amerge) a₀ adeeds
  ended : R p.shared.committed (now a₀ adeeds)
  snapshot : ∀ i t, Span.current (p.history clients i) = some t →
    ∃ before, before <+: adeeds ∧ ∃ a', Run astep (now a₀ before) t.ops a'

/-- The operation runs, and is of a kind. -/
def RunsAs (D : Database) (Ok : Operation → Prop) (conn : Connection) (d : D.State)
    (e : Operation × Except Error ExecResponse) (d' : D.State) : Prop :=
  Ok e.1 ∧ (exec conn e.1).Runs D.Handle d d' (.ok (conn, e.2))

omit [DecidableEq ι] in
/-- Operations in a row are followed. -/
theorem executes_followed (hf : Forward (RunsAs D Ok conn) astep R) :
    ∀ {ops : History} {d d' : D.State}
    {a : A}, (∀ e ∈ ops, Ok e.1) → R d a → Executes D conn d ops d' →
    ∃ a', Run astep a ops a' ∧ R d' a'
  | [], _, _, a, _, h, hrun => ⟨a, rfl, by rw [show _ = _ from hrun]; exact h⟩
  | e :: ops, d, d', a, hops, h, ⟨d₁, hop, hrest⟩ => by
      obtain ⟨a₁, hstep, h₁⟩ := hf d a e d₁ h ⟨hops e List.mem_cons_self, hop⟩
      obtain ⟨a', hrun, h'⟩ :=
        executes_followed hf (fun e' he' => hops e' (List.mem_cons_of_mem _ he')) h₁ hrest
      exact ⟨a', ⟨a₁, hstep, hrun⟩, h'⟩

/-- Commits are followed by merges. -/
def Merges (commits : D.Tx → D.State → D.State → Prop) (amerge : A → A → A → A → Prop)
    (R : D.State → A → Prop) : Prop :=
  ∀ {t d d' a a' b}, R t.start a → R t.working a' → R d b → commits t d d' →
    ∃ b', amerge a a' b b' ∧ R d' b'

omit [DecidableEq ι] in
/-- Deeds are followed. -/
theorem deeds_followed (hf : ∀ conn, Forward (RunsAs D Ok conn) astep R)
    (hm : Merges commits amerge R) :
    Snapshots.Follows (Deed.rules D commits) (Deed.stepRules astep amerge) R
      (fun (x y : ι × Deed) => x = y ∧ ∀ e ∈ x.2.entries, Ok e.1)
      (fun t w => R t.start w.1 ∧ R t.working w.2) where
  act := by
    rintro d ⟨i, entry | span⟩ d' a _ hr ⟨rfl, hops⟩ h
    · exact hf .new d a entry d' hr ⟨hops entry List.mem_cons_self, h⟩
    · exact h.elim
  work := by
    rintro d ⟨i, entry | span⟩ t a _ hr ⟨rfl, hops⟩ h
    · exact h.elim
    · obtain ⟨rfl, hexec⟩ := h
      obtain ⟨a', hrun, hr'⟩ := executes_followed (hf _) hops hr hexec
      exact ⟨(a, a'), ⟨rfl, hrun⟩, hr, hr'⟩
  merge := by
    rintro d t d' b ⟨a, a'⟩ hr ⟨hstart, hworking⟩ h
    exact hm hstart hworking hr h

/-- **What single statements do on another state, any clients' deeds do.** -/
theorem exists_done (hf : ∀ conn, Forward (RunsAs D Ok conn) astep R) (hm : Merges commits amerge R)
    (hsingle : ∀ op, Ok op → op.Single) (hclients : ∀ i, (clients i).Asks Ok) {a₀ : A}
    (h₀ : R d₀ a₀) (h : Pool.Steps (Database.StepBy commits) (Clients.begin clients d₀) p) :
    ∃ deeds adeeds, DoneAs commits astep amerge R clients d₀ a₀ p deeds adeeds := by
  obtain ⟨deeds, ha⟩ := exists_deeds (fun i => (hclients i).mono hsingle) h
  have hasked := ha.asked hclients
  have hes : List.Forall₂ (fun (x : (ι × Deed) × D.State) (y : ι × Deed) => x.1 = y ∧
      ∀ e ∈ x.1.2.entries, Ok e.1) deeds (deeds.map Prod.fst) := by
    rw [List.forall₂_map_right_iff, List.forall₂_same]
    exact fun x hx => ⟨rfl, hasked _ (List.mem_map_of_mem hx)⟩
  obtain ⟨adeeds, _, hmade, hrel⟩ := (deeds_followed hf hm).history h₀ ha.made hes
  have hsame : List.Forall₂ (fun x y => x.1 = y.1 ∧ R x.2 y.2) deeds adeeds :=
    hrel.imp fun _ _ h => ⟨h.1.1, h.2⟩
  refine ⟨deeds, adeeds, ha, hsame, hmade, ?_, fun i t ht => ?_⟩
  · rw [ha.committed]
    exact Snapshots.now_related h₀ hsame
  · obtain ⟨before, hb, d', hopen⟩ := ha.snapshot i t ht
    obtain ⟨before', hb', hrel'⟩ := Snapshots.prefix_related hsame hb
    obtain ⟨a', hrun, _⟩ := executes_followed (hf _) (current_asked (hclients i) ht)
      (Snapshots.now_related h₀ hrel') hopen
    exact ⟨before', hb', a', hrun⟩

end Following

end

end ToastySurreal
