import ToastySurreal.Callers
import ToastySurreal.Lib.Numerals
import ToastySurreal.Lib.Results
import Mathlib.Data.List.Perm.Basic

/-!
# Migrations are applied whole, and at most once

A call that applies a migration goes through the stages of `Stage`, and whatever other
calls ask in between leaves it where it is: they work in transactions of their own. So
the committed database changes in two ways only, by the definition of the tracking
table and by a commit, which replays a migration from its first statement to its
tracking record. That record is created, so a second one with its id is refused.
-/

namespace ToastySurreal

open Results Prog

/-! ## The programs, question by question -/

theorem callWith_bind {α : Type} {classify : DbError → Error} {call : Call}
    {f : SurValue → Action α} : (callWith classify call >>= f) = .ask call fun
      | .ok v => f v
      | .error err => .fail (classify err) := by
  refine congrArg (Prog.ask call) (funext fun r => ?_)
  cases r <;> rfl

/-- A call whose failure is caught at the end. -/
theorem callWith_attempt {α β : Type} {classify : DbError → Error} {call : Call}
    {f : SurValue → Action α} {g : Except Error α → Action β} :
    ((callWith classify call >>= f).attempt >>= g) = .ask call fun
      | .ok v => (f v).attempt >>= g
      | .error err => g (.error (classify err)) := by
  refine congrArg (Prog.ask call) (funext fun r => ?_)
  cases r <;> rfl

/-- The queries of a migration, one after another. -/
def runQueries : List Query → Action Unit
  | [] => .done ()
  | q :: qs => do
      let _ ← callWith classifyMigrationError (.tx q)
      runQueries qs

/-- Blank statements are passed over. -/
theorem applyStatements_eq {track : Query} : ∀ statements : List String,
    applyStatements track statements =
      runQueries ((statements.filter fun statement => !isBlank statement).map scriptQuery ++
        [track])
  | [] => rfl
  | statement :: statements => by
      rw [applyStatements]
      by_cases hblank : isBlank statement = true
      · rw [if_pos hblank, applyStatements_eq statements]
        simp [hblank]
      · rw [if_neg hblank, applyStatements_eq statements]
        simp [hblank, runQueries]

/-- The end of a migration: cancelled, or committed. -/
def closeMigration : Except Error Unit → Action (List UInt64)
  | .error err => do
      let _ ← callWith classifyMigrationError .cancel
      .fail err
  | .ok _ => do
      let _ ← callWith classifyMigrationError .commit
      .done []

/-- What is left of a migration inside its transaction. -/
def runRest (queries : List Query) : Action (List UInt64) := do
  let result ← (runQueries queries).attempt
  closeMigration result

def openMigration (queries : List Query) : Action (List UInt64) := do
  let _ ← callWith classifyMigrationError .begin
  runRest queries

def startMigration (queries : List Query) : Action (List UInt64) := do
  let _ ← callWith classifyError (.plain defineTracking)
  openMigration queries

/-- The `SELECT` of a listing. -/
def listTracked : Action (List UInt64) := do
  let value ← callWith classifyError (.plain trackingQuery)
  .lift (trackingIds (takeRows value))

def startListing : Action (List UInt64) := do
  let _ ← callWith classifyError (.plain defineTracking)
  listTracked

variable {conn : Connection} {id : UInt64} {name : String} {statements : List String}

theorem apply_program (hconn : conn.transaction = false) :
    (Request.apply conn id name statements).program =
      startMigration (migrationQueries id name statements) := by
  have hclose : ∀ result : Except Error Unit, ((match result with
      | .error applyError => do
          let _ ← callWith classifyMigrationError .cancel
          .fail applyError
      | .ok _ => do
          let _ ← callWith classifyMigrationError .commit
          .done () : Action Unit) >>= fun _ => .done []) = closeMigration result := by
    intro result
    cases result <;> rw [bind_bind] <;> rfl
  rw [Request.program, applyMigration, ensureNoActiveTransaction, if_neg (by simp [hconn]),
    lift_ok_bind, ensureMigrationsTable, queryPlain, bind_bind, bind_bind]
  refine congrArg (callWith classifyError (.plain defineTracking) >>= ·) (funext fun _ => ?_)
  show ((callWith classifyMigrationError .begin >>= _) >>= _) = _
  rw [bind_bind]
  refine congrArg (callWith classifyMigrationError .begin >>= ·) (funext fun _ => ?_)
  rw [bind_bind, applyStatements_eq]
  exact congrArg ((runQueries _).attempt >>= ·) (funext hclose)

theorem applied_program (hconn : conn.transaction = false) :
    (Request.applied conn).program = startListing := by
  rw [Request.program, appliedMigrations, ensureNoActiveTransaction, if_neg (by simp [hconn]),
    lift_ok_bind, ensureMigrationsTable, queryPlain, bind_bind]
  rfl

/-- A connection with an active transaction refuses both. -/
theorem program_refused {request : Request} (h : request.connection.transaction = true) :
    ∃ err, request.program = .fail err := by
  have hrefused : ∀ operation, ∃ err,
      ensureNoActiveTransaction request.connection operation = .error err := fun _ => ⟨_, if_pos h⟩
  cases request with
  | apply conn id name statements =>
      obtain ⟨err, he⟩ := hrefused "apply a migration"
      refine ⟨err, ?_⟩
      rw [Request.program, applyMigration, show ensureNoActiveTransaction conn _ = _ from he]
      rfl
  | applied conn =>
      obtain ⟨err, he⟩ := hrefused "query applied migrations"
      refine ⟨err, ?_⟩
      rw [Request.program, appliedMigrations, show ensureNoActiveTransaction conn _ = _ from he]
      rfl

theorem runRest_nil : runRest [] = .ask .commit fun
    | .ok _ => .done []
    | .error err => .fail (classifyMigrationError err) := callWith_bind

theorem runRest_cons (q : Query) (qs : List Query) : runRest (q :: qs) = .ask (.tx q) fun
    | .ok _ => runRest qs
    | .error err => closeMigration (.error (classifyMigrationError err)) := callWith_attempt

/-! ## The stages of a migration -/

variable {D : Database} {ι : Type} [DecidableEq ι]

/-- How far a call that has not committed is with its migration, given its transaction. -/
inductive Stage (queries : List Query) (tx : Option D.Tx) : Action (List UInt64) → Prop where
  | start : Stage queries tx (startMigration queries)
  | opening : Stage queries tx (openMigration queries)
  | running {t : D.Tx} {todo : List Query} (htx : tx = some t)
      (hlog : t.log.map Prod.fst ++ todo = queries)
      (hok : ∀ entry ∈ t.log, ∃ v, entry.2 = .ok v) : Stage queries tx (runRest todo)
  | cancelling {err : Error} : Stage queries tx (closeMigration (.error err))
  | failed {err : Error} : Stage queries tx (.fail err)

/-- What a query of the tracking table's definition leaves. -/
def Redefines (T : TrackingTable D) (d d' : D.State) : Prop :=
  d' = d ∨ ¬ T.Defined d ∧ ∃ v, D.exec d defineTracking (.ok v) d'

theorem redefines {T : TrackingTable D} {d d' : D.State} {r : Reply}
    (h : D.exec d defineTracking r d') : Redefines T d d' := by
  by_cases hdef : T.Defined d
  · exact .inl (T.define_defined hdef h)
  · cases r with
    | ok v => exact .inr ⟨hdef, v, h⟩
    | error err => exact .inl (D.atomic rfl h)

/-- Replaying a log of replies that are all fine runs its queries. -/
theorem ran_of_replay : ∀ {log : List (Query × Reply)} {d d' : D.State},
    (∀ entry ∈ log, ∃ v, entry.2 = .ok v) → D.Replay d log d' → Ran D d (log.map Prod.fst) d'
  | [], _, _, _, h => h
  | (q, r) :: log, d, d', hok, h => by
      obtain ⟨d₁, hexec, hrest⟩ := h
      obtain ⟨v, hv⟩ := hok (q, r) List.mem_cons_self
      obtain rfl : r = .ok v := hv
      exact ⟨v, d₁, hexec, ran_of_replay (fun entry he => hok entry (List.mem_cons_of_mem _ he))
        hrest⟩

/-- **One question of a migration**: its next stage, or its commit. -/
theorem Stage.step {T : TrackingTable D} {queries : List Query} {i : ι} {s s' : D.Server ι}
    {p : Action (List UInt64)} {call : Call} {k : Reply → Action (List UInt64)} {r : Reply}
    (h : Stage queries (s.txs i) p) (hp : p = .ask call k) (hs : Database.Step i s call r s') :
    (committer (i, call, r) = none ∧ Stage queries (s'.txs i) (k r) ∧
      Redefines T s.committed s'.committed) ∨
    (committer (i, call, r) = some i ∧ k r = .done [] ∧
      Ran D s.committed queries s'.committed) := by
  cases h with
  | start =>
      rw [startMigration, callWith_bind] at hp
      obtain ⟨rfl, rfl⟩ := Prog.ask.inj hp
      cases hs with
      | plain hexec =>
          -- the tracking table is defined outside the transaction
          refine .inl ⟨rfl, ?_, redefines hexec⟩
          cases r with
          | ok v => exact .opening
          | error err => exact .failed
  | opening =>
      rw [openMigration, callWith_bind] at hp
      obtain ⟨rfl, rfl⟩ := Prog.ask.inj hp
      cases hs with
      | begin v => exact .inl ⟨rfl, .running (Function.update_self i _ _) rfl (by simp), .inl rfl⟩
      | beginFail err => exact .inl ⟨rfl, .failed, .inl rfl⟩
  | @running t todo htx hlog hok =>
      cases todo with
      | nil =>
          rw [runRest_nil] at hp
          obtain ⟨rfl, rfl⟩ := Prog.ask.inj hp
          cases hs with
          | commit v ht hreplay =>
              -- the commit replays what the transaction ran, and so far all of it was answered
              obtain rfl := Option.some.inj (htx.symm.trans ht)
              rw [List.append_nil] at hlog
              exact .inr ⟨rfl, rfl, hlog ▸ ran_of_replay hok hreplay⟩
          | commitFail err => exact .inl ⟨rfl, .failed, .inl rfl⟩
      | cons q todo =>
          rw [runRest_cons] at hp
          obtain ⟨rfl, rfl⟩ := Prog.ask.inj hp
          cases hs with
          | tx ht hexec =>
              obtain rfl := Option.some.inj (htx.symm.trans ht)
              refine .inl ⟨rfl, ?_, .inl rfl⟩
              cases r with
              | ok v =>
                  -- an answered statement is one more in the transaction's log
                  refine .running (Function.update_self i _ _) (by simpa using hlog) ?_
                  intro entry he
                  rcases List.mem_append.mp he with he | he
                  · exact hok entry he
                  · rw [List.mem_singleton.mp he]; exact ⟨v, rfl⟩
              | error err => exact .cancelling
  | cancelling =>
      rw [closeMigration, callWith_bind] at hp
      obtain ⟨rfl, rfl⟩ := Prog.ask.inj hp
      cases hs with
      | cancel r =>
          refine .inl ⟨rfl, ?_, .inl rfl⟩
          cases r <;> exact .failed
  | failed => exact absurd hp (by simp)

/-! ## A migration that meets no failure -/

theorem replay_snoc {q : Query} {r : Reply} : ∀ {log : List (Query × Reply)} {d d₁ d' : D.State},
    D.Replay d log d₁ → D.exec d₁ q r d' → D.Replay d (log ++ [(q, r)]) d'
  | [], d, d₁, d', h, hexec => by
      obtain rfl : d₁ = d := h
      exact ⟨d', hexec, rfl⟩
  | _ :: _, _, _, _, h, hexec => by
      obtain ⟨d₂, hfirst, hrest⟩ := h
      exact ⟨d₂, hfirst, replay_snoc hrest hexec⟩

/-- What is left of a migration runs to its commit. -/
theorem runs_runRest {i : ι} {d' : D.State} : ∀ {todo : List Query} {s : D.Server ι} {t : D.Tx},
    s.txs i = some t → D.Replay s.committed t.log t.working → Ran D t.working todo d' →
    ∃ s', s'.committed = d' ∧ (runRest todo).Runs (Database.Step i) s s' (.ok [])
  | [], s, t, ht, hreplay, hran => by
      obtain rfl : d' = t.working := hran
      rw [runRest_nil]
      exact ⟨_, rfl, .ok .none, _, .commit .none ht hreplay, rfl, rfl⟩
  | q :: todo, s, t, ht, hreplay, hran => by
      obtain ⟨v, d₁, hexec, hrest⟩ := hran
      rw [runRest_cons]
      obtain ⟨s', hs', hruns⟩ :=
        runs_runRest (s := s.setTx i (some ⟨t.start, d₁, t.log ++ [(q, .ok v)]⟩))
        (Function.update_self i _ _) (replay_snoc hreplay hexec) hrest
      exact ⟨s', hs', .ok v, _, .tx ht hexec, hruns⟩

/-- **A migration whose statements succeed** can be committed. -/
theorem runs_startMigration {i : ι} {s : D.Server ι} {v : SurValue} {d d' : D.State}
    {queries : List Query} (hdef : D.exec s.committed defineTracking (.ok v) d)
    (hran : Ran D d queries d') :
    ∃ s', s'.committed = d' ∧ (startMigration queries).Runs (Database.Step i) s s' (.ok []) := by
  rw [startMigration, callWith_bind]
  obtain ⟨s', hs', hruns⟩ := runs_runRest
    (s := (⟨d, s.txs⟩ : D.Server ι).setTx i (some ⟨d, d, []⟩)) (Function.update_self i _ _) rfl hran
  refine ⟨s', hs', .ok v, ⟨d, s.txs⟩, .plain hdef, ?_⟩
  dsimp only
  rw [openMigration, callWith_bind]
  exact ⟨.ok .none, _, .begin _ .none, hruns⟩

/-! ## Any interleaving -/

variable {T : TrackingTable D} {requests : ι → Request} {d₀ : D.State} {p p' : Callers D ι}

omit [DecidableEq ι] in
theorem committer_eq_some {i j : ι} {call : Call} {r : Reply}
    (h : committer (i, call, r) = some j) : j = i := by
  unfold committer at h
  split at h
  · rename_i heq
    injection heq with hi _
    injection h with h
    exact h.symm.trans hi.symm
  · exact absurd h (by simp)

omit [DecidableEq ι] in
theorem commitsOf_snoc (log : List (ι × Call × Reply)) (entry : ι × Call × Reply) :
    commitsOf (log ++ [entry]) = commitsOf log ++ (committer entry).toList := by
  rw [commitsOf, List.filterMap_append]
  cases h : committer entry <;> simp [commitsOf, h]

omit [DecidableEq ι] in
theorem commitsOf_none {log : List (ι × Call × Reply)} {entry : ι × Call × Reply}
    (h : committer entry = none) : commitsOf (log ++ [entry]) = commitsOf log := by
  rw [commitsOf_snoc, h, Option.toList_none, List.append_nil]

omit [DecidableEq ι] in
theorem commitsOf_some {log : List (ι × Call × Reply)} {entry : ι × Call × Reply} {i : ι}
    (h : committer entry = some i) : commitsOf (log ++ [entry]) = commitsOf log ++ [i] := by
  rw [commitsOf_snoc, h, Option.toList_some]

omit [DecidableEq ι] in
/-- A question of somebody else commits nobody else. -/
theorem mem_commitsOf_snoc {log : List (ι × Call × Reply)} {i j : ι} {call : Call} {r : Reply}
    (hj : j ≠ i) : j ∈ commitsOf (log ++ [(i, call, r)]) ↔ j ∈ commitsOf log := by
  rw [commitsOf_snoc, List.mem_append]
  constructor
  · intro h
    rcases h with h | h
    · exact h
    · exact absurd (committer_eq_some (Option.mem_toList.mp h)) hj
  · exact .inl

/-- The transaction of a connection is its own. -/
theorem step_txs {commits : D.Tx → D.State → D.State → Prop} {i j : ι} {s s' : D.Server ι}
    {call : Call}
    {r : Reply} (hj : j ≠ i) (h : Database.StepBy commits i s call r s') : s'.txs j = s.txs j := by
  cases h with
  | plain | beginFail => rfl
  | tx | begin | commit | commitFail | cancel => exact Function.update_of_ne hj _ _

/-- What a call that lists migrations asks. -/
def TableCall (call : Call) : Prop := call = .plain defineTracking ∨ call = .plain trackingQuery

/-- What holds of each call: it has committed and is done, or it has not committed and is at
one of its stages. -/
def Whereabouts (requests : ι → Request) (i : ι) (prog : Action (List UInt64)) (s : D.Server ι)
    (log : List (ι × Call × Reply)) : Prop :=
  match requests i with
  | .apply _ id name statements =>
      (i ∉ commitsOf log ∧ Stage (migrationQueries id name statements) (s.txs i) prog) ∨
        (i ∈ commitsOf log ∧ prog = .done [])
  | .applied _ => i ∉ commitsOf log ∧ prog.Asks TableCall

/-- What holds of the server: it was built by the calls that have committed. -/
def Serial (T : TrackingTable D) (requests : ι → Request) (d₀ : D.State) (s : D.Server ι)
    (log : List (ι × Call × Reply)) : Prop :=
  MadeBy T requests d₀ (commitsOf log) s.committed ∧ (commitsOf log).Nodup

omit [DecidableEq ι] in
theorem MadeBy.redefines {is : List ι} {d d' : D.State} (h : MadeBy T requests d₀ is d)
    (hd : Redefines T d d') : MadeBy T requests d₀ is d' := by
  rcases hd with rfl | ⟨hundef, v, hdef⟩
  · exact h
  · exact .define h hundef hdef

omit [DecidableEq ι] in
/-- A question that commits nothing, and the table's definition at most. -/
theorem Serial.idle {s s' : D.Server ι} {log : List (ι × Call × Reply)} {entry : ι × Call × Reply}
    (h : Serial T requests d₀ s log) (hnone : committer entry = none)
    (hd : Redefines T s.committed s'.committed) : Serial T requests d₀ s' (log ++ [entry]) := by
  rw [Serial, commitsOf_none hnone]
  exact ⟨h.1.redefines hd, h.2⟩

/-- **A call's own question** keeps what holds of the server and of the call. -/
theorem own_step {i : ι} {call : Call} {k : Reply → Action (List UInt64)} {r : Reply}
    {s s' : D.Server ι} {log : List (ι × Call × Reply)} (h : Serial T requests d₀ s log)
    (hi : Whereabouts requests i (.ask call k) s log) (hs : Database.Step i s call r s') :
    Serial T requests d₀ s' (log ++ [(i, call, r)]) ∧
      Whereabouts requests i (k r) s' (log ++ [(i, call, r)]) := by
  unfold Whereabouts at hi ⊢
  cases hreq : requests i with
  | apply conn id name statements =>
      rw [hreq] at hi
      rcases hi with ⟨hfresh, hstage⟩ | ⟨_, hdone⟩
      -- a step commits the migration, or at most defines the tracking table once more
      · rcases hstage.step rfl hs with ⟨hnone, hstage', hd⟩ | ⟨hsome, hk, hran⟩
        · refine ⟨h.idle hnone hd, .inl ⟨?_, hstage'⟩⟩
          rw [commitsOf_none hnone]
          exact hfresh
        · dsimp only
          rw [Serial, commitsOf_some hsome]
          refine ⟨⟨.call h.1 hreq hran, ?_⟩, .inr ⟨by simp, hk⟩⟩
          exact List.nodup_append.mpr ⟨h.2, List.nodup_singleton i, fun a ha b hb hab => by
            rw [List.mem_singleton.mp hb] at hab
            exact hfresh (hab ▸ ha)⟩
      · exact absurd hdone (by simp)
  | applied conn =>
      rw [hreq] at hi
      obtain ⟨hfresh, hasks⟩ := hi
      -- a listing defines the table and reads; it commits nothing
      have hidle : committer (i, call, r) = none ∧ Redefines T s.committed s'.committed := by
        rcases hasks.1 with rfl | rfl
        · cases hs with
          | plain hexec => exact ⟨rfl, redefines hexec⟩
        · cases hs with
          | plain hexec => exact ⟨rfl, .inl (D.reads rfl hexec)⟩
      refine ⟨h.idle hidle.1 hidle.2, ?_, hasks.2 r⟩
      rw [commitsOf_none hidle.1]
      exact hfresh

/-- **Somebody else's question** keeps what holds of a call. -/
theorem others_step {i j : ι} {prog : Action (List UInt64)} {call : Call} {r : Reply}
    {s s' : D.Server ι} {log : List (ι × Call × Reply)} (hj : j ≠ i)
    (h : Whereabouts requests j prog s log) (hs : Database.Step i s call r s') :
    Whereabouts requests j prog s' (log ++ [(i, call, r)]) := by
  unfold Whereabouts at *
  cases hreq : requests j with
  | apply conn id name statements =>
      rw [hreq] at h
      simp only [mem_commitsOf_snoc hj, step_txs hj hs]
      exact h
  | applied conn =>
      rw [hreq] at h
      simp only [mem_commitsOf_snoc hj]
      exact h

omit [DecidableEq ι] in
theorem begin_holds : Prog.Pool.Holds (Serial T requests d₀) (Whereabouts requests)
    (Callers.begin requests d₀) := by
  refine ⟨⟨.start, List.nodup_nil⟩, fun i => ?_⟩
  unfold Whereabouts Callers.begin
  cases hreq : requests i with
  | apply conn id name statements =>
      refine .inl ⟨by simp [commitsOf], ?_⟩
      -- a connection in a transaction refuses before it asks anything
      cases hconn : conn.transaction with
      | true =>
          obtain ⟨err, he⟩ := (program_refused hconn : ∃ err,
            (Request.apply conn id name statements).program = .fail err)
          dsimp only
          rw [hreq, he]
          exact .failed
      | false =>
          dsimp only
          rw [hreq, apply_program hconn]
          exact .start
  | applied conn =>
      refine ⟨by simp [commitsOf], ?_⟩
      dsimp only
      rw [hreq]
      cases hconn : conn.transaction with
      | true =>
          obtain ⟨err, he⟩ :=
            (program_refused hconn : ∃ err, (Request.applied conn).program = .fail err)
          rw [he]
          trivial
      | false =>
          rw [applied_program hconn]
          refine ⟨.inl rfl, fun r => ?_⟩
          cases r with
          | ok v =>
              refine ⟨.inr rfl, fun r' => ?_⟩
              cases r' with
              | ok v' => exact Asks.lift _
              | error err => trivial
          | error err => trivial

/-- **The invariant of any interleaving.** -/
theorem go_holds (h : Go (Callers.begin requests d₀) p) :
    Prog.Pool.Holds (Serial T requests d₀) (Whereabouts requests) p :=
  Prog.Pool.Steps.invariant own_step others_step h begin_holds

/-! ## The tracked ids -/

theorem toString_toList (id : UInt64) : (toString id.toNat).toList = Numerals.digits id.toNat :=
  Nat.toList_repr

theorem digits_eq_some {cs : List Char} {id : UInt64} : parseU64.digits cs = some id ↔
    Numerals.Numeral cs ∧ Numerals.value cs = id.toNat := by
  rw [parseU64.digits]
  constructor
  · intro h
    split at h
    · exact absurd h (by simp)
    · rename_i hno
      simp only [Bool.or_eq_true, Bool.not_eq_true', not_or, List.isEmpty_iff, Bool.not_eq_false,
        List.all_eq_true] at hno
      split at h
      · rename_i hlt
        injection h with h; subst h
        refine ⟨⟨hno.1, hno.2⟩, ?_⟩
        rw [UInt64.toNat_ofNat_of_lt' hlt]
        rfl
      · exact absurd h (by simp)
  · intro h
    obtain ⟨⟨hne, hall⟩, hvalue⟩ := h
    have hlt : Nat.ofDigitChars 10 cs 0 < 2 ^ 64 := by
      have hid := id.toNat_lt
      unfold Numerals.value at hvalue
      omega
    have hempty : cs.isEmpty = false := List.isEmpty_eq_false_iff.mpr hne
    rw [hempty, List.all_eq_true.mpr hall, if_neg (by simp), if_pos hlt]
    unfold Numerals.value at hvalue
    rw [hvalue, UInt64.ofNat_toNat]

theorem plus_not_digit {cs : List Char} (h : Numerals.Numeral ('+' :: cs)) : False :=
  absurd (h.digits '+' List.mem_cons_self) (by decide)

/-- What is parsed is a numeral, behind a plus sign or not. -/
theorem parseU64_eq_some {s : String} {id : UInt64} : parseU64 s = some id ↔
    ∃ cs, Numerals.Numeral cs ∧ Numerals.value cs = id.toNat ∧
    (s.toList = '+' :: cs ∨ s.toList = cs) := by
  unfold parseU64
  split
  · rename_i cs hcs
    rw [digits_eq_some]
    constructor
    · intro h
      exact ⟨cs, h.1, h.2, .inl hcs⟩
    · intro h
      obtain ⟨ds, hds, hvalue, hs⟩ := h
      rw [hcs] at hs
      rcases hs with hs | hs
      · injection hs with _ hs; subst hs
        exact ⟨hds, hvalue⟩
      · subst hs
        exact (plus_not_digit hds).elim
  · rename_i cs hcs
    rw [digits_eq_some]
    constructor
    · intro h
      exact ⟨_, h.1, h.2, .inr rfl⟩
    · intro h
      obtain ⟨ds, hds, hvalue, hs⟩ := h
      rcases hs with hs | hs
      · exact absurd hs (hcs ds)
      · rw [hs]
        exact ⟨hds, hvalue⟩

/-- **An id is read back as it was written.** -/
theorem parseU64_toString (id : UInt64) : parseU64 (toString id.toNat) = some id :=
  parseU64_eq_some.mpr
    ⟨Numerals.digits id.toNat, Numerals.numeral_digits _, Numerals.value_digits _,
    .inr (toString_toList id)⟩

/-- The row of a tracking record is read as its id. -/
theorem trackingId_row {row : SurValue} {id : UInt64} (h : ∃ o, row = .object o ∧
    AssocMap.lookup trackingIdAlias o = some (trackingRecord id).key.value) :
    trackingId row = .ok id := by
  obtain ⟨o, rfl, ho⟩ := h
  have hkey : (trackingRecord id).key.value = .string (toString id.toNat) := rfl
  simp only [trackingId, ho, hkey, parseU64_toString]

theorem trackingIds_rows {rows : List SurValue} {ids : List UInt64}
    (h : List.Forall₂ (fun row id => trackingId row = .ok id) rows ids) :
    trackingIds rows = .ok ids := by
  induction h with
  | nil => rfl
  | cons hrow _ ih => rw [trackingIds, hrow, ih]; rfl

omit [DecidableEq ι] in
/-- What the `SELECT` returns decodes to the tracked ids. -/
theorem select_tracked {d d' : D.State} {v : SurValue} {ids : List UInt64}
    (htracked : (T.tracked d).Perm (ids.map trackingRecord))
    (h : D.exec d trackingQuery (.ok v) d') :
    ∃ ids', trackingIds (takeRows v) = .ok ids' ∧ ids'.Perm ids := by
  obtain ⟨rids, hperm, hrows⟩ := T.select h
  have hids : Relation.Comp (· = List.map trackingRecord ·) List.Perm rids ids := by
    rw [List.eq_map_comp_perm]
    exact hperm.trans htracked
  obtain ⟨ids', rfl, hperm'⟩ := hids
  rw [List.forall₂_map_right_iff] at hrows
  exact ⟨ids', trackingIds_rows (hrows.imp fun _ _ => trackingId_row), hperm'⟩

omit [DecidableEq ι] in
theorem idsOf_append (is js : List ι) :
    idsOf requests (is ++ js) = idsOf requests is ++ idsOf requests js :=
  List.filterMap_append

omit [DecidableEq ι] in
/-- A migration that leaves the tracking table alone adds its record to it. -/
theorem ran_tracked {id : UInt64} {name : String} : ∀ {statements : List String} {d d' : D.State},
    (∀ statement ∈ statements, T.Spares statement) →
    Ran D d (statements.map scriptQuery ++ [trackQuery id name]) d' →
    trackingRecord id ∉ T.tracked d ∧ (T.tracked d').Perm (trackingRecord id :: T.tracked d)
  | [], d, d', _, h => by
      obtain ⟨v, d₁, hexec, rfl⟩ := h
      exact T.create hexec
  | statement :: statements, d, d', hspares, h => by
      obtain ⟨v, d₁, hexec, hrest⟩ := h
      have hkeep := hspares statement List.mem_cons_self _ _ _ hexec
      have hran := ran_tracked (fun other ho => hspares other (List.mem_cons_of_mem _ ho)) hrest
      rw [hkeep] at hran
      exact hran

omit [DecidableEq ι] in
/-- **What was built tracks its calls**, once each. -/
theorem MadeBy.tracked (hspares : ∀ i, ∀ statement ∈ (requests i).statements, T.Spares statement)
    (hempty : T.tracked d₀ = []) {is : List ι} {d : D.State} (h : MadeBy T requests d₀ is d) :
    (idsOf requests is).Nodup ∧ (T.tracked d).Perm ((idsOf requests is).map trackingRecord) := by
  induction h with
  | start => exact ⟨List.nodup_nil, by rw [hempty]; exact .refl _⟩
  | define _ _ hdef ih => exact ⟨ih.1, by rw [T.define_tracked hdef]; exact ih.2⟩
  | @call is d d' i conn id name statements _ hi hran ih =>
      have hid : idsOf requests (is ++ [i]) = idsOf requests is ++ [id] := by
        rw [idsOf_append]
        simp [idsOf, hi, Request.id]
      obtain ⟨hfresh, hperm⟩ := ran_tracked (fun statement hs =>
        hspares i statement (by rw [hi]; exact (List.mem_filter.mp hs).1)) hran
      rw [hid]
      constructor
      · refine List.nodup_append.mpr ⟨ih.1, List.nodup_singleton id, fun a ha b hb hab => ?_⟩
        rw [List.mem_singleton.mp hb] at hab
        exact hfresh (ih.2.mem_iff.mpr (List.mem_map_of_mem (hab ▸ ha)))
      · rw [List.map_append]
        exact (hperm.trans (ih.2.cons _)).trans (List.perm_append_singleton _ _).symm

/-! ## Listing -/

/-- How far a call that lists migrations is, if the calls in `base` had committed when it
started. -/
inductive Listing (requests : ι → Request) (base : List ι) (log : List (ι × Call × Reply)) :
    Action (List UInt64) → Prop where
  | start : Listing requests base log (startListing)
  | selecting : Listing requests base log listTracked
  | failed {err : Error} : Listing requests base log (.fail err)
  | done {ids : List UInt64} {is : List ι} (hbase : base <+: is) (his : is <+: commitsOf log)
      (hids : ids.Perm (idsOf requests is)) : Listing requests base log (.done ids)

omit [DecidableEq ι] in
theorem commitsOf_grows (log : List (ι × Call × Reply)) (entry : ι × Call × Reply) :
    commitsOf log <+: commitsOf (log ++ [entry]) := by
  rw [commitsOf_snoc]
  exact List.prefix_append _ _

omit [DecidableEq ι] in
theorem Listing.mono {base : List ι} {log : List (ι × Call × Reply)} {prog : Action (List UInt64)}
    (h : Listing requests base log prog) (entry : ι × Call × Reply) :
    Listing requests base (log ++ [entry]) prog := by
  cases h with
  | start => exact .start
  | selecting => exact .selecting
  | failed => exact .failed
  | done hbase his hids => exact .done hbase (his.trans (commitsOf_grows log entry)) hids

/-- **One question of a listing**: the `SELECT` sees the calls committed by then. -/
theorem Listing.step {base : List ι} {log : List (ι × Call × Reply)} {prog : Action (List UInt64)}
    {i : ι} {s s' : D.Server ι} {call : Call} {k : Reply → Action (List UInt64)} {r : Reply}
    (h : Listing requests base log prog) (hp : prog = .ask call k)
    (hs : Database.Step i s call r s') (hbase : base <+: commitsOf log)
    (htracked : (T.tracked s.committed).Perm
      ((idsOf requests (commitsOf log)).map trackingRecord)) :
    Listing requests base (log ++ [(i, call, r)]) (k r) := by
  cases h with
  | start =>
      rw [startListing, callWith_bind] at hp
      obtain ⟨rfl, rfl⟩ := Prog.ask.inj hp
      cases r with
      | ok v => exact .selecting
      | error err => exact .failed
  | selecting =>
      rw [listTracked, callWith_bind] at hp
      obtain ⟨rfl, rfl⟩ := Prog.ask.inj hp
      cases hs with
      | plain hexec =>
          cases r with
          | ok v =>
              obtain ⟨ids, hok, hperm⟩ := select_tracked htracked hexec
              dsimp only
              rw [hok]
              exact .done hbase (commitsOf_grows log _) hperm
          | error err => exact .failed
  | failed => exact absurd hp (by simp)
  | done => exact absurd hp (by simp)

/-- **A call that lists migrations** sees what was committed before it started. -/
theorem lists (hspares : ∀ i, ∀ statement ∈ (requests i).statements, T.Spares statement)
    (hempty : T.tracked d₀ = []) (h : Go (Callers.begin requests d₀) p) :
    ListsApplied requests p := by
  intro i conn p' ids hreq hstart hgo hdone
  have hlisting : Listing requests p.commits p'.log (p'.threads i) := by
    clear hdone
    induction hgo with
    | refl =>
        rw [hstart, hreq]
        cases hconn : conn.transaction with
        | true =>
            obtain ⟨err, he⟩ :=
              (program_refused hconn : ∃ err, (Request.applied conn).program = .fail err)
            rw [he]
            exact .failed
        | false =>
            rw [applied_program hconn]
            exact .start
    | @tail b _ hgo hstep ih =>
        cases hstep with
        | @ask j q k r s ht hs =>
            dsimp only
            by_cases hij : i = j
            · subst hij
              rw [Function.update_self]
              -- the committed state is made by the migrations that committed so far
              have hbuilt : MadeBy T requests d₀ (commitsOf b.log) b.shared.committed :=
                (go_holds (h.trans hgo)).shared.1
              have hbase : p.commits <+: commitsOf b.log :=
                (Pool.Steps.log_grows hgo).filterMap committer
              exact ih.step ht hs hbase (hbuilt.tracked hspares hempty).2
            · rw [Function.update_of_ne hij]
              exact ih.mono _
  -- a listing that is done is at its last stage
  rw [hdone] at hlisting
  generalize hprog : (Prog.done ids : Action (List UInt64)) = prog at hlisting
  cases hlisting with
  | start => exact absurd hprog (by simp [startListing, callWith_bind])
  | selecting => exact absurd hprog (by simp [listTracked, callWith_bind])
  | failed => exact absurd hprog (by simp)
  | done hbase his hids =>
      injection hprog with hprog
      subst hprog
      exact ⟨_, hbase, his, hids⟩

/-! ## At any moment -/

omit [DecidableEq ι] in
/-- A call that is done has committed. -/
theorem Stage.ne_done {queries : List Query} {tx : Option D.Tx} {ids : List UInt64}
    {prog : Action (List UInt64)} (h : Stage queries tx prog) : prog ≠ .done ids := by
  cases h with
  | start => simp [startMigration, callWith_bind]
  | opening => simp [openMigration, callWith_bind]
  | @running t todo =>
      cases todo with
      | nil => simp [runRest_nil]
      | cons q todo => simp [runRest_cons]
  | cancelling => simp [closeMigration, callWith_bind]
  | failed => simp

/-- **The committed calls are those that returned**, and they made the database. -/
theorem applied (T : TrackingTable D) (h : Go (Callers.begin requests d₀) p) :
    Applied T requests d₀ p := by
  have hp : Prog.Pool.Holds (Serial T requests d₀) (Whereabouts requests) p := go_holds h
  refine ⟨hp.shared.1, hp.shared.2, fun {i conn id name statements} hreq => ?_⟩
  have hi := hp.threads i
  unfold Whereabouts at hi
  rw [hreq] at hi
  constructor
  · intro hdone
    obtain ⟨ids, hdone⟩ := hdone
    rcases hi with ⟨_, hstage⟩ | ⟨hmem, _⟩
    · exact absurd hdone hstage.ne_done
    · exact hmem
  · intro hmem
    rcases hi with ⟨hnot, _⟩ | ⟨_, hdone⟩
    · exact absurd hmem hnot
    · exact ⟨_, hdone⟩

/-- **Migrations are applied whole, and at most once**, in any interleaving. -/
theorem migrations_tracked (T : TrackingTable D) (h : Go (Callers.begin requests d₀) p) :
    Applied T requests d₀ p ∧
      ((∀ i, ∀ statement ∈ (requests i).statements, T.Spares statement) → T.tracked d₀ = [] →
        Tracked T requests p ∧ ListsApplied requests p) := by
  have happlied := applied T h
  refine ⟨happlied, fun hspares hempty => ⟨?_, lists hspares hempty h⟩⟩
  obtain ⟨hdistinct, hrecords⟩ := happlied.built.tracked hspares hempty
  exact ⟨hdistinct, hrecords⟩

/-! ## A ledger of migrations -/

/-- A database that keeps the tracking table and the scripts that were run. -/
structure Ledger where
  defined : Bool
  tracked : List RecordId
  scripts : List String

/-- What a statement replies and leaves. -/
def Ledger.run (d : Ledger) (q : Query) : Reply × Ledger :=
  match q.sql with
  | .schema _ => (.ok .none, { d with defined := true })
  | .createMigration =>
      match q.recordId "migration_record" with
      | some rid =>
          if rid ∈ d.tracked then (.error ⟨"Database record already exists", false⟩, d)
          else (.ok (.array []), { d with tracked := rid :: d.tracked })
      | none => (.error ⟨"Can not create a value that is not a record", false⟩, d)
  | .select .. =>
      (.ok (.array (d.tracked.map fun rid => .object [(trackingIdAlias, rid.key.value)])), d)
  | .script text =>
      (.ok .none, if text = "DELETE __toasty_migrations" then { d with tracked := [] }
        else { d with scripts := d.scripts ++ [text] })
  | _ => (.error ⟨"Parse error", false⟩, d)

def ledger : Database where
  State := Ledger
  exec d q r d' := d.run q = (r, d')
  atomic := by
    intro d q err d' _ h
    unfold Ledger.run at h
    repeat' split at h
    all_goals first
      | exact (congrArg Prod.snd h).symm
      | exact absurd (congrArg Prod.fst h) (by simp)
  reads := by
    intro d q r d' hq h
    unfold Ledger.run at h
    split at h
    all_goals first
      | exact (congrArg Prod.snd h).symm
      | (rename_i hsql; rw [hsql] at hq; exact absurd hq (by simp [Sql.isRead]))
  unmatched := by
    intro d q v d' hq h _
    unfold Ledger.run at h
    split at h
    all_goals first
      | exact (congrArg Prod.snd h).symm
      | (rename_i hsql; rw [hsql] at hq; exact absurd hq (by simp [Sql.isConditional]))

def ledgerTable : TrackingTable ledger where
  Defined d := d.defined = true
  tracked d := d.tracked
  define_defined := by
    intro d r d' hdef h
    obtain ⟨defined, tracked, scripts⟩ := d
    obtain rfl : defined = true := hdef
    exact (congrArg Prod.snd h).symm
  define_tracked := by
    intro d r d' h
    rw [← show _ = d' from congrArg Prod.snd h]
    rfl
  create := by
    intro d id name v d' h
    change (if trackingRecord id ∈ d.tracked then _ else _) = _ at h
    split at h
    · exact absurd (congrArg Prod.fst h) (by simp)
    · rename_i hfresh
      rw [← show _ = d' from congrArg Prod.snd h]
      exact ⟨hfresh, .refl _⟩
  select := by
    intro d v d' h
    have hv : SurValue.array (d.tracked.map fun rid => .object [(trackingIdAlias, rid.key.value)]) =
        v :=
      Except.ok.inj (congrArg Prod.fst h)
    subst hv
    refine ⟨d.tracked, .refl _, ?_⟩
    rw [takeRows, List.forall₂_map_left_iff]
    exact List.forall₂_same.mpr fun rid _ => ⟨_, rfl, rfl⟩

/-- A call of the ledger whose statements succeed, on its own. -/
theorem go_ledger {i : Bool} {d d' : Ledger} {queries : List Query} {p : Callers ledger Bool}
    (hp : p.threads i = startMigration queries) (hd : p.shared.committed = d)
    (hran : Ran ledger { d with defined := true } queries d') :
    ∃ p', Go p p' ∧ p'.shared.committed = d' ∧ p'.threads i = .done [] ∧
      ∀ j, j ≠ i → p'.threads j = p.threads j := by
  have hdef : ledger.exec p.shared.committed defineTracking (.ok .none)
      { d with defined := true } := by
    rw [hd]
    rfl
  obtain ⟨s', hs', hruns⟩ := runs_startMigration (i := i) hdef hran
  obtain ⟨log, hgo⟩ := Pool.Steps.of_runs hp hruns
  exact ⟨_, hgo, hs', Function.update_self i _ _, fun j hj => Function.update_of_ne hj _ _⟩

/-- The second migration empties the tracking table, and the first is no longer listed. -/
theorem first_migration_forgotten : ¬ ∀ (requests : Bool → Request) (p : Callers ledger Bool),
    Go (Callers.begin requests (⟨false, [], []⟩ : Ledger)) p →
    Applied ledgerTable requests (⟨false, [], []⟩ : Ledger) p ∧ Tracked ledgerTable requests p ∧
      ListsApplied requests p := by
  intro h
  let requests : Bool → Request := fun second =>
    if second then .apply .new 2 "second" ["DELETE __toasty_migrations"] else .apply .new 1 "first"
      []
  obtain ⟨p₁, hgo₁, hd₁, hdone₁, hother₁⟩ := @go_ledger false _ ⟨true, [trackingRecord 1], []⟩ _
    (Callers.begin requests (⟨false, [], []⟩ : Ledger)) (apply_program rfl) rfl
    ⟨.array [], _, rfl, rfl⟩
  obtain ⟨p₂, hgo₂, hd₂, hdone₂, hother₂⟩ := @go_ledger true _ ⟨true, [trackingRecord 2], []⟩ _ p₁
    ((hother₁ true (by decide)).trans (apply_program rfl)) hd₁
    ⟨.none, _, rfl, .array [], _, rfl, rfl⟩
  obtain ⟨happlied, htracked, _⟩ := h requests p₂ (hgo₁.trans hgo₂)
  have hmem : false ∈ p₂.commits :=
    (happlied.ok_iff rfl).mp ⟨[], (hother₂ false (by decide)).trans hdone₁⟩
  have hid : (1 : UInt64) ∈ idsOf requests p₂.commits := List.mem_filterMap.mpr ⟨false, hmem, rfl⟩
  have hrecord := htracked.records.mem_iff.mpr (List.mem_map_of_mem hid)
  rw [hd₂] at hrecord
  exact absurd hrecord (by decide)

/-- Two calls with one id; the first has committed. -/
theorem init_applied_once : ∃ p : Callers ledger Bool,
    Applied ledgerTable (fun _ => .apply .new 7 "init" ["DEFINE TABLE todos", " "])
      (⟨false, [], []⟩ : Ledger) p ∧
    Tracked ledgerTable (fun _ => .apply .new 7 "init" ["DEFINE TABLE todos", " "]) p ∧
    ListsApplied (fun _ => .apply .new 7 "init" ["DEFINE TABLE todos", " "]) p ∧ false ∈
      p.commits := by
  let requests : Bool → Request := fun _ => .apply .new 7 "init" ["DEFINE TABLE todos", " "]
  obtain ⟨p, hgo, _, hdone, _⟩ := @go_ledger false _
    ⟨true, [trackingRecord 7], ["DEFINE TABLE todos"]⟩ _
    (Callers.begin requests (⟨false, [], []⟩ : Ledger)) (apply_program rfl) rfl
    ⟨.none, _, rfl, .array [], _, rfl, rfl⟩
  obtain ⟨happlied, hspared⟩ := migrations_tracked ledgerTable hgo
  have hspares : ∀ i, ∀ statement ∈ (requests i).statements, ledgerTable.Spares statement := by
    intro i statement hs d v d' hexec
    rw [← show _ = d' from congrArg Prod.snd hexec]
    show (if statement = _ then _ else _ : Ledger).tracked = _
    rw [if_neg (by rintro rfl; exact absurd hs (by decide))]
    rfl
  obtain ⟨htracked, hlists⟩ := hspared hspares rfl
  exact ⟨p, happlied, htracked, hlists, (happlied.ok_iff rfl).mp ⟨[], hdone⟩⟩

end ToastySurreal
