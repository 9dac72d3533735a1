import ToastySurreal.Lib.Pool
import ToastySurreal.Numbers
import ToastySurreal.Plain
import ToastySurreal.Proof.Atomicity
import ToastySurreal.Proof.Codec
import ToastySurreal.Proof.UpsertFrame

/-!
# Updates of one record

An update by key is one statement: its condition, its arithmetic and its write happen
at once, on whatever the record is by then. So any interleaving of updates is the ones
that wrote, one after another. `updates_accounted` says so for any number of clients,
and reads off it that no two updates take the same version and that sums add up.
-/

namespace ToastySurreal

open Results Prog
open Precedence (Tok)

section

variable [Sdk] [Surql] {table : Table} {q : Query} {rid : RecordId} {c : Column}

/-! ## One column -/

theorem Evolves.append {bs : List Assignment} : ∀ {as : List Assignment} {x y z : SurValue},
    Evolves c as x y → Evolves c bs y z → Evolves c (as ++ bs) x z
  | [], _, _, _, h, h' => h ▸ h'
  | _ :: _, _, _, _, ⟨w, hw, h⟩, h' => ⟨w, hw, h.append h'⟩

omit [Surql] in
/-- A value of an integer type is stored as the same number. -/
theorem toSurreal_whole {v : Value} {n : Int} (h : v.whole = some n) :
    ∃ s, toSurreal v = .ok s ∧ s.whole = some n := by
  cases v with
  | i8 v | i16 v | i32 v =>
      injection h with h; subst h
      exact ⟨_, rfl, by simp [SurValue.whole]⟩
  | i64 v => exact ⟨_, rfl, h⟩
  | u8 v | u16 v | u32 v =>
      injection h with h; subst h
      refine ⟨_, rfl, congrArg some ((toInt64_toInt ?_).trans (by simp))⟩
      have := v.toNat_lt
      simp; omega
  | u64 v =>
      injection h with h; subst h
      by_cases hlt : v.toNat < 2 ^ 63
      · refine ⟨.number (.int v.toInt64), by rw [toSurreal, if_pos hlt], ?_⟩
        exact congrArg some (toInt64_toInt hlt)
      · exact ⟨.number (.decimal (.ofU64 v)), by rw [toSurreal, if_neg hlt], rfl⟩
  | null | bool | f32 | f64 | string | bytes | uuid | list | record | object | text =>
      exact absurd h (by simp [Value.whole])

omit [Surql] in
theorem toSurrealForColumn_whole {v : Value} {n : Int} (hc : c.storageTy ≠ .json)
    (h : v.whole = some n) {s : SurValue} (hs : toSurrealForColumn v c = .ok s) : s.whole =
    some n := by
  rw [toSurrealForColumn, toSurrealWithStorage, if_neg (by simpa using hc)] at hs
  obtain ⟨s', hs', hn⟩ := toSurreal_whole h
  rw [hs] at hs'
  injection hs' with hs'
  rw [hs', hn]

/-- An addition or subtraction of a whole number. -/
theorem assigns_whole [SqlArith] {x z : SurValue} {a : Assignment} {n k : Int}
    (hc : c.storageTy ≠ .json) (hk : a.delta = some k) (hx : x.whole = some n)
    (h : Assigns c x z a) : z.whole = some (n + k) := by
  cases a with
  | add v =>
      obtain ⟨w, hw, hadd⟩ := h
      exact SqlArith.add_whole hx (toSurrealForColumn_whole hc hk hw) hadd
  | subtract v =>
      obtain ⟨w, hw, hsub⟩ := h
      obtain ⟨m, hm, rfl⟩ := Option.map_eq_some_iff.mp hk
      rw [SqlArith.sub_whole hx (toSurrealForColumn_whole hc hm hw) hsub]
      congr 1
  | set v | append v | other debug => exact absurd hk (by simp [Assignment.delta])

/-- **Additions and subtractions add up.** -/
theorem evolves_whole [SqlArith] (hc : c.storageTy ≠ .json) :
    ∀ {as : List Assignment} {x z : SurValue}
    {n : Int}, (∀ a ∈ as, a.delta ≠ none) → x.whole = some n → Evolves c as x z →
    z.whole = some (n + deltaSum as)
  | [], x, z, n, _, hx, h => by
      obtain rfl := h
      rw [hx]
      simp [deltaSum]
  | a :: as, x, z, n, has, hx, h => by
      obtain ⟨y, hy, hrest⟩ := h
      obtain ⟨k, hk⟩ := Option.ne_none_iff_exists'.mp (has a List.mem_cons_self)
      have hsum : deltaSum (a :: as) = k + deltaSum as := by simp [deltaSum, hk]
      rw [evolves_whole hc (fun b hb => has b (List.mem_cons_of_mem a hb))
        (assigns_whole hc hk hx hy) hrest, hsum, Int.add_assoc]

/-! ## One statement -/

omit [Sdk] [Surql] in
theorem Binding.mono {b b' : Binds} (h : Binding q b') (hg : Grows b b') : Binding q b :=
  fun p v hp => h p v (hg.grows.subset hp)

omit [Sdk] [Surql] in
theorem Binding.push {b : Binds} {s : SurValue} (h : Binding q (b.push s).2) :
    q.param b.nextName = s :=
  h _ _ (by simp [Binds.push])

/-- A rendered assignment does what the assignment says. -/
theorem renderAssignment_assigns {a : Assignment} {b b' : Binds} {clause : SetClause}
    (h : renderAssignment c b a = .ok (clause, b')) (hq : Binding q b') :
    clause.name = c.name ∧ ∀ x z, clause.rhs.value q x = .ok z → Assigns c x z a := by
  cases a with
  | set v =>
      rw [renderAssignment] at h
      split at h <;> rename_i hnull
      · injection h with h; injection h with h1 h2; subst h1 h2
        refine ⟨rfl, fun x z hz => ?_⟩
        injection hz with hz
        rw [Assigns, if_pos hnull, hz]
      · obtain ⟨s, hs, hok⟩ := bind_eq_ok h
        injection hok with hok; injection hok with h1 h2; subst h1 h2
        refine ⟨rfl, fun x z hz => ?_⟩
        injection hz with hz
        have hs' : q.param b.nextName = s := hq.push
        rw [Assigns, if_neg hnull, hs, ← hz, hs']
  | add v | subtract v | append v =>
      rw [renderAssignment] at h
      obtain ⟨s, hs, hok⟩ := bind_eq_ok h
      injection hok with hok; injection hok with h1 h2; subst h1 h2
      have hs' : q.param b.nextName = s := hq.push
      refine ⟨rfl, fun x z hz => ⟨s, hs, ?_⟩⟩
      rw [SetRhs.value, hs'] at hz
      exact hz
  | other debug => exact absurd h (by simp [renderAssignment])

/-- **What rendered assignments make of a column** is what the assignments to it make. -/
theorem applySets_evolves (hc : c ∈ table.columns) (hid : c.name ≠ "id") :
    ∀ {as : List (ColumnId × Assignment)} {b b' : Binds} {sets : List SetClause} {o o' : Object},
    (∀ a ∈ as, a.1 ∈ table.columns.map Column.id) → renderAssignments table b as = .ok (sets, b') →
    Binding q b' → applySets q rid sets o = .ok o' →
    Evolves c (assignmentsOn c as) (Object.field (recordRow rid o) c.name)
      (Object.field (recordRow rid o') c.name)
  | [], b, b', sets, o, o', _, h, _, happly => by
      injection h with h; injection h with h1 h2; subst h1
      injection happly with happly; subst happly
      rfl
  | (cid, a) :: as, b, b', sets, o, o', hids, h, hq, happly => by
      rw [renderAssignments] at h
      obtain ⟨⟨clause, b₁⟩, hclause, h₁⟩ := bind_eq_ok h
      obtain ⟨⟨clauses, b₂⟩, hclauses, hok⟩ := bind_eq_ok h₁
      injection hok with hok; injection hok with h1 h2; subst h1 h2
      obtain ⟨hname, hassigns⟩ :=
        renderAssignment_assigns hclause (hq.mono (renderAssignments_grows hclauses))
      rw [applySets] at happly
      obtain ⟨v, hv, hrest⟩ := bind_eq_ok happly
      have hevolves := applySets_evolves hc hid (fun a ha => hids a (List.mem_cons_of_mem _ ha))
        hclauses hq hrest
      obtain ⟨hcol, hcid⟩ := Table.column_mem (hids _ List.mem_cons_self)
      by_cases hsame : cid = c.id
      · -- an assignment to this column
        have hcc : table.column cid = c := by rw [hsame, Table.column_id hc]
        have hon : assignmentsOn c ((cid, a) :: as) = a :: assignmentsOn c as := by
          simp [assignmentsOn, hsame]
        rw [hon]
        rw [hcc] at hassigns hname
        rw [hname] at hv hevolves
        rw [recordRow_field hid, Object.field_set_self] at hevolves
        exact ⟨v, hassigns _ _ hv, hevolves⟩
      · have hne : c.name ≠ clause.name := by
          rw [hname]
          intro hc'
          have hcc : table.column cid = c := Table.eq_of_name hcol hc hc'.symm
          exact hsame (hcid.symm.trans (congrArg Column.id hcc))
        have hon : assignmentsOn c ((cid, a) :: as) = assignmentsOn c as := by
          simp [assignmentsOn, hsame]
        rw [hon]
        rwa [recordRow_set_ne hne] at hevolves

/-- What an update that wrote has made of its record. -/
structure Applies (table : Table) (op : UpdateByKey) (rid : RecordId) (o o' : Object) : Prop where
  columns : ∀ c ∈ table.columns, c.name ≠ "id" → Evolves c (assignmentsOn c op.assignments)
    (Object.field (recordRow rid o) c.name) (Object.field (recordRow rid o') c.name)
  /-- The condition held of what was there. -/
  condition : ∀ e, op.condition = some e →
    ∃ b b' toks, b.Numbered ∧ render table b e = .ok (toks, b') ∧
    Surql.holds (toks.map (Tok.map (resolve b'))) rid o = true

omit [Surql] in
/-- The condition is the last predicate. -/
theorem renderPredicates_condition {filter : Option Expr} {e : Expr} {b b' : Binds}
    {clauses : List (List Token)} (hb : b.Numbered)
    (h : renderPredicates table b [filter, some e] = .ok (clauses, b')) :
    ∃ b₁ toks, b₁.Numbered ∧ render table b₁ e = .ok (toks, b') ∧ toks ∈ clauses := by
  have hlast : ∀ {b : Binds} {clauses : List (List Token)}, b.Numbered →
      renderPredicates table b [some e] = .ok (clauses, b') →
      ∃ b₁ toks, b₁.Numbered ∧ render table b₁ e = .ok (toks, b') ∧ toks ∈ clauses := by
    intro b clauses hb h
    rw [renderPredicates] at h
    obtain ⟨⟨toks, b₁⟩, hrender, h₁⟩ := bind_eq_ok h
    injection h₁ with h₁; injection h₁ with h1 h2; subst h1 h2
    exact ⟨b, toks, hb, hrender, List.mem_cons_self⟩
  cases filter with
  | none =>
      rw [renderPredicates] at h
      exact hlast hb h
  | some f =>
      rw [renderPredicates] at h
      obtain ⟨⟨first, b₁⟩, hfirst, h₁⟩ := bind_eq_ok h
      obtain ⟨⟨rest, b₂⟩, hrest, hok⟩ := bind_eq_ok h₁
      injection hok with hok; injection hok with h1 h2; subst h1 h2
      obtain ⟨b', toks, hb', hrender, hmem⟩ :=
        hlast ((renderWithStorage_steady f hfirst).numbered hb) hrest
      exact ⟨b', toks, hb', hrender, List.mem_cons_of_mem _ hmem⟩

/-- An update as it is sent: its assignments and predicates, and the record it is about. -/
structure SentUpdate (table : Table) (op : UpdateByKey) (rid : RecordId) (q : Query)
    (sets : List SetClause) (clauses : List (List Token)) (b₁ b₂ : Binds) : Prop where
  assigns : renderAssignments table .empty op.assignments = .ok (sets, b₁)
  tests : renderPredicates table b₁ [op.filter, op.condition] = .ok (clauses, b₂)
  before : b₁.Numbered
  after : b₂.Numbered
  sql : q.sql = .update sets clauses op.returning.isSome
  recordId : q.recordId "rid" = some rid
  grows : b₂.values <+: q.binds
  /-- The query binds what was collected. -/
  binding : Binding q b₂

omit [Surql] in
theorem updateQuery_sent {op : UpdateByKey} {key : Value} (hkey : recordId table key = .ok rid)
    (hq : updateQuery table op key = .ok q) :
    ∃ sets clauses b₁ b₂, SentUpdate table op rid q sets clauses b₁ b₂ := by
  unfold updateQuery at hq
  obtain ⟨⟨sets, b₁⟩, hsets, hq₁⟩ := bind_eq_ok hq
  obtain ⟨⟨clauses, b₂⟩, hclauses, hq₂⟩ := bind_eq_ok hq₁
  obtain ⟨rid', hrid', hq₃⟩ := bind_eq_ok hq₂
  rw [hkey] at hrid'
  injection hrid' with hrid'; subst hrid'
  injection hq₃ with hq₃; subst hq₃
  have hnum₁ : b₁.Numbered := (renderAssignments_grows hsets).numbered Binds.numbered_empty
  have hnum₂ : b₂.Numbered := (renderPredicates_steady hclauses).numbered hnum₁
  refine ⟨sets, clauses, b₁, b₂, hsets, hclauses, hnum₁, hnum₂, rfl, recordId_pushNamed hnum₂,
    ⟨_, rfl⟩, ?_⟩
  intro p v hp
  rw [Query.param, Binds.pushNamed, AssocMap.lookup_append, AssocMap.lookup_of_mem hnum₂.nodup hp]
  rfl

/-- What the database did with an update: it wrote the record, or nothing. -/
inductive Updated (table : Table) (op : UpdateByKey) (rid : RecordId) (s : Records) :
    Reply → Records → Prop where
  | rejected (err : DbError) : Updated table op rid s (.error err) s
  | unmatched : Updated table op rid s (.ok (.array [])) s
  | wrote {o o' : Object} (ho : AssocMap.lookup rid s = some o) (ha : Applies table op rid o o') :
      Updated table op rid s (.ok (.array [.object (recordRow rid o')])) (AssocMap.insert rid o' s)

/-- **An update is one statement**: what it tests, computes and writes is of one state. -/
theorem updateQuery_updated {op : UpdateByKey} {key : Value} {s s' : Records} {r : Reply}
    (hkey : recordId table key = .ok rid)
    (hids : ∀ a ∈ op.assignments, a.1 ∈ table.columns.map Column.id)
    (hq : updateQuery table op key = .ok q) (h : Records.exec s q r s') :
    Updated table op rid s r s' := by
  obtain ⟨sets, clauses, b₁, b₂, hsent⟩ := updateQuery_sent hkey hq
  simp only [Records.exec, hsent.sql, hsent.recordId] at h
  rcases h with ⟨⟨err, rfl⟩, rfl⟩ | ⟨rid', hr, hrest⟩
  · exact .rejected err
  injection hr with hr; subst hr
  rcases hrest with ⟨o, o', ho, hhold, happly, rfl, rfl⟩ | ⟨_, rfl, rfl⟩
  · refine .wrote ho ⟨fun c hc hid => ?_, fun e he => ?_⟩
    · have hgrows := (renderPredicates_steady hsent.tests).toGrows
      exact applySets_evolves hc hid hids hsent.assigns (hsent.binding.mono hgrows) happly
    · have hclauses := hsent.tests
      rw [he] at hclauses
      obtain ⟨b, toks, hb, hrender, hmem⟩ := renderPredicates_condition hsent.before hclauses
      refine ⟨b, b₂, toks, hb, hrender, ?_⟩
      have hbound := (renderWithStorage_steady e hrender).bound
      have hclause := List.all_eq_true.mp hhold toks hmem
      have hsame := @Bound.resolve b₂ ⟨q.binds⟩ toks hbound hsent.grows
      rwa [hsame] at hclause
  · exact .unmatched

/-- **A version condition** lets an update write on its own version only. -/
theorem Applies.version [SqlArith] {op : UpdateByKey} {o o' : Object} {w : Value} {n x : Int}
    (h : Applies table op rid o o') (hc : IntegerColumn table c)
    (hcond : op.condition = some (versionIs c w)) (hw : w.whole = some n)
    (hx : (Object.field (recordRow rid o) c.name).whole = some x) : x = n := by
  obtain ⟨b, b', toks, hb, hrender, hholds⟩ := h.condition _ hcond
  have hty : c.ty ≠ .bool := by
    intro hty
    have hint := hc.integer
    rw [hty] at hint
    exact absurd hint (by decide)
  obtain ⟨s, hs, hsn⟩ := toSurreal_whole hw
  -- the expected version is a scalar, so it is bound as one parameter
  have hbinds : valueToBinds b w (some c.storageTy) =
      .ok ([.atom (.param b.nextName)], (b.push s).2) := by
    have hstored : toSurrealWithStorage w (some c.storageTy) = .ok s := by
      rw [toSurrealWithStorage, if_neg (by simpa using hc.native), hs]
    unfold valueToBinds
    split
    · exact absurd hw (by simp [Value.whole])
    · rw [hstored]; rfl
  have htoks : render table b (versionIs c w) = .ok ([.atom (.ref (columnRef table c) []), .op .eq,
      .atom (.param b.nextName)], (b.push s).2) := by
    simp only [render, versionIs, renderWithStorage, if_neg hty, expressionStorageTy]
    show (do let y ← valueToBinds b w (some c.storageTy); _) = _
    rw [hbinds]
    rfl
  rw [htoks] at hrender
  injection hrender with hrender; injection hrender with h1 h2; subst h1 h2
  -- the rendered condition compares the field with that parameter
  have hparam : resolve (b.push s).2 (.param b.nextName) = .value s :=
    resolve_push (hb.push s) (List.prefix_refl _)
  have href : columnRef table c = .field c.name := by
    rw [columnRef, if_neg (by rw [hc.data]; decide)]
  have hread : (refValue rid o (columnRef table c)).whole = some x := by rw [href]; exact hx
  have heq := SqlArith.holds_eq hread hsn
  simp only [List.map_cons, List.map_nil, Tok.map] at hholds
  rw [hparam] at hholds
  have hfold := heq.symm.trans hholds
  exact of_decide_eq_true hfold

/-! ## One operation -/

/-- What an update returns, given what its statement replied. -/
def updateAnswer (table : Table) (op : UpdateByKey) : Reply → Except Error ExecResponse
  | .error err => .error (classifyError err)
  | .ok value =>
      if (takeRows value).isEmpty && op.condition.isSome then
        .error (.conditionFailed "SurrealDB update condition did not match")
      else
        match op.returning with
        | some columns => do
            .ok (.valueStream (← rowsToRecords (columns.map table.column) (takeRows value)))
        | none => .ok (.count (takeRows value).length)

omit [Surql] in
/-- An update fails at once, or asks one question. -/
theorem execUpdateByKey_asks (conn : Connection) (op : UpdateByKey) :
    (∃ e, execUpdateByKey conn table op = .fail e) ∨
    ∃ key q, op.keys = [key] ∧ updateQuery table op key = .ok q ∧
      execUpdateByKey conn table op = .ask (if conn.transaction then .tx q else .plain q)
        fun r => lift (updateAnswer table op r) := by
  unfold execUpdateByKey
  cases hkey : singleKey "update" op.keys with
  | error e => exact .inl ⟨e, rfl⟩
  | ok key =>
      cases hq : updateQuery table op key with
      | error e => exact .inl ⟨e, by simp only [lift_ok_bind, hq]; rfl⟩
      | ok q =>
          refine .inr ⟨key, q, singleKey_ok hkey, hq, ?_⟩
          simp only [lift_ok_bind, hq]
          show Prog.ask (if conn.transaction then Call.tx q else .plain q) _ = _
          congr 1
          funext r
          cases r with
          | error err => rfl
          | ok value =>
              show (if (takeRows value).isEmpty && op.condition.isSome then _ else _) = _
              rw [updateAnswer]
              split
              · rfl
              · cases op.returning with
                | none => rfl
                | some columns =>
                    dsimp only
                    cases rowsToRecords (columns.map table.column) (takeRows value) <;> rfl

/-- **A run of an update** sends nothing and fails, or has its one statement executed. -/
theorem execUpdateByKey_runs {conn : Connection} {op : UpdateByKey} {s s' : Records}
    {out : Except Error ExecResponse}
    (h : (execUpdateByKey conn table op).Runs recordStore.Handle s s' out) :
    (s' = s ∧ ∃ e, execUpdateByKey conn table op = .fail e ∧ out = .error e) ∨
    ∃ key q r, op.keys = [key] ∧ updateQuery table op key = .ok q ∧ Records.exec s q r s' ∧
      out = updateAnswer table op r := by
  rcases execUpdateByKey_asks conn op with ⟨e, he⟩ | ⟨key, q, hkeys, hq, hask⟩
  · rw [he] at h
    obtain ⟨rfl, hout⟩ := h
    exact .inl ⟨rfl, e, he, hout⟩
  · rw [hask] at h
    obtain ⟨r, s₁, hstep, hrest⟩ := h
    obtain ⟨rfl, hout⟩ := runs_lift.mp hrest
    refine .inr ⟨key, q, r, hkeys, hq, ?_, hout⟩
    split at hstep
    · exact hstep
    · exact hstep

end

/-! ## Any number of clients -/

/-- Updates side by side, each on a connection of its own. -/
abbrev Updaters (ι : Type) := Prog.Pool ι Records Call Reply Error ExecResponse

/-- The operation whose statement wrote, if it did. -/
def winner {ι : Type} : ι × Call × Reply → Option ι
  | (i, _, .ok (.array (_ :: _))) => some i
  | _ => none

/-- The operations whose statements wrote, in order. -/
def wins {ι : Type} (log : List (ι × Call × Reply)) : List ι := log.filterMap winner

section

variable [Sdk] [Surql] {ι : Type} [DecidableEq ι] {table : Table} {ops : ι → UpdateByKey}
  {rid : RecordId}

/-- Nothing was asked yet. -/
def Updaters.begin (table : Table) (ops : ι → UpdateByKey) (s₀ : Records) : Updaters ι :=
  ⟨s₀, fun i => execUpdateByKey .new table (ops i), []⟩

/-- The updates go on, in any order; a statement is one step. -/
abbrev Updaters.Go : Updaters ι → Updaters ι → Prop := Prog.Pool.Steps fun _ => recordStore.Handle

/-- The updates of these operations, one after another. -/
inductive OneByOne (table : Table) (ops : ι → UpdateByKey) (rid : RecordId) (o : Object) :
    List ι → Object → Prop where
  | start : OneByOne table ops rid o [] o
  | write {is : List ι} {i : ι} {o₁ o₂ : Object} (h : OneByOne table ops rid o is o₁)
      (ha : Applies table (ops i) rid o₁ o₂) : OneByOne table ops rid o (is ++ [i]) o₂

/-- The operation is an update of the record, of columns of the table. -/
structure Updates (table : Table) (rid : RecordId) (op : UpdateByKey) : Prop where
  key : ∃ key, op.keys = [key] ∧ recordId table key = .ok rid
  columns : ∀ a ∈ op.assignments, a.1 ∈ table.columns.map Column.id

/-- The record is what the operations that wrote made of it, each of them once. -/
structure Serialized (table : Table) (ops : ι → UpdateByKey) (rid : RecordId) (o₀ : Object)
    (s : Records) (log : List (ι × Call × Reply)) : Prop where
  once : (log.map Prod.fst).Nodup
  serial : ∃ o, AssocMap.lookup rid s = some o ∧ OneByOne table ops rid o₀ (wins log) o

/-- An operation has asked nothing yet, or has its answer. -/
def Served (table : Table) (ops : ι → UpdateByKey) (i : ι) (prog : Action ExecResponse)
    (log : List (ι × Call × Reply)) : Prop :=
  (i ∉ log.map Prod.fst ∧ prog = execUpdateByKey .new table (ops i)) ∨
    ∃ call r, (i, call, r) ∈ log ∧ prog = lift (updateAnswer table (ops i) r) ∧
      ((∃ err, r = .error err) ∨ r = .ok (.array []) ∨ ∃ row, r = .ok (.array [row]))

omit [Sdk] [Surql] [DecidableEq ι] in
theorem wins_append {log : List (ι × Call × Reply)} {e : ι × Call × Reply} :
    wins (log ++ [e]) = wins log ++ (winner e).toList := by
  rw [wins, List.filterMap_append, wins]
  cases h : winner e <;> simp [h]

omit [Sdk] [Surql] [DecidableEq ι] in
/-- The winners are among the callers in the log, in their order. -/
theorem wins_sublist : ∀ {log : List (ι × Call × Reply)}, (wins log).Sublist (log.map Prod.fst)
  | [] => List.Sublist.refl _
  | e :: log => by
      rw [wins, List.filterMap_cons]
      split
      · exact wins_sublist.cons _
      · rename_i j hj
        have hej : e.1 = j := by
          unfold winner at hj
          split at hj
          · injection hj
          · exact absurd hj (by simp)
        rw [List.map_cons, hej]
        exact wins_sublist.cons_cons j

omit [DecidableEq ι] in
/-- All that an update of the record asks is its one statement. -/
theorem Updates.asked {op : UpdateByKey} {call : Call} {k : Reply → Action ExecResponse} {r : Reply}
    {s s' : Records} (h : Updates table rid op) (hask : execUpdateByKey .new table op = .ask call k)
    (hstep : recordStore.Handle s call r s') :
    k r = lift (updateAnswer table op r) ∧ Updated table op rid s r s' := by
  rcases @execUpdateByKey_asks _ table .new op with ⟨e, he⟩ | ⟨key, q, hkeys, hq, hsent⟩
  · rw [he] at hask; exact absurd hask (by simp)
  · rw [hsent] at hask
    injection hask with hcall hk; subst hcall hk
    obtain ⟨key', hkeys', hrid⟩ := h.key
    rw [hkeys] at hkeys'
    injection hkeys' with hkey _; subst hkey
    exact ⟨rfl, updateQuery_updated hrid h.columns hq hstep⟩

/-- **Every interleaving is serial.** -/
theorem updates_serialized {s₀ : Records} {o₀ : Object} {p : Updaters ι}
    (hops : ∀ i, Updates table rid (ops i)) (ho : AssocMap.lookup rid s₀ = some o₀)
    (h : Updaters.Go (Updaters.begin table ops s₀) p) :
    Serialized table ops rid o₀ p.shared p.log ∧ ∀ i, Served table ops i (p.threads i) p.log := by
  have hholds : Pool.Holds (Serialized table ops rid o₀)
      (fun i prog _ log => Served table ops i prog log) p := by
    -- the log is in the order of the calls, and each caller makes one: what a step adds to
    -- the log is what it did to the record
    refine Pool.Steps.invariant ?_ ?_ h
      ⟨⟨List.nodup_nil, o₀, ho, .start⟩, fun i => .inl ⟨by simp [Updaters.begin], rfl⟩⟩
    · intro i call k r s s' log hs hi hstep
      rcases hi with ⟨hnew, hprog⟩ | ⟨_, _, _, hprog, _⟩
      · obtain ⟨hk, hupdated⟩ := (hops i).asked hprog.symm hstep
        -- a caller that has asked does not ask again
        have honce : ((log ++ [(i, call, r)]).map Prod.fst).Nodup := by
          rw [List.map_append, List.nodup_append]
          refine ⟨hs.once, by simp, fun a ha b hb hab => hnew ?_⟩
          obtain rfl : b = i := by simpa using hb
          rwa [← hab]
        obtain ⟨o, hlookup, hserial⟩ := hs.serial
        have hmem : (i, call, r) ∈ log ++ [(i, call, r)] := by simp
        -- only a write that matched moves the record, and only that counts as a win
        cases hupdated with
        | rejected err =>
            refine ⟨⟨honce, o, hlookup, ?_⟩, .inr ⟨_, _, hmem, hk, .inl ⟨err, rfl⟩⟩⟩
            rw [wins_append]
            simpa [winner] using hserial
        | unmatched =>
            refine ⟨⟨honce, o, hlookup, ?_⟩, .inr ⟨_, _, hmem, hk, .inr (.inl rfl)⟩⟩
            rw [wins_append]
            simpa [winner] using hserial
        | @wrote o₁ o' ho₁ ha =>
            rw [hlookup] at ho₁
            injection ho₁ with ho₁; subst ho₁
            refine ⟨⟨honce, o', AssocMap.lookup_insert_self .., ?_⟩,
              .inr ⟨_, _, hmem, hk, .inr (.inr ⟨_, rfl⟩)⟩⟩
            rw [wins_append]
            exact hserial.write ha
      · cases hans : updateAnswer table (ops i) _ <;> rw [hans] at hprog <;> exact absurd hprog
          (by simp [lift])
    · intro i j prog call r s s' log hij hj _
      -- the other callers were served by what is still in the log
      rcases hj with ⟨hnew, hprog⟩ | ⟨call', r', hmem, hprog, hshape⟩
      · refine .inl ⟨?_, hprog⟩
        simp only [List.map_append, List.map_cons, List.map_nil, List.mem_append,
          List.mem_singleton]
        rintro (hc | hc)
        · exact hnew hc
        · exact hij hc
      · exact .inr ⟨call', r', List.mem_append_left _ hmem, hprog, hshape⟩
  exact ⟨hholds.shared, hholds.threads⟩

omit [Sdk] [Surql] [DecidableEq ι] in
theorem mem_wins {i : ι} {log : List (ι × Call × Reply)} :
    i ∈ wins log ↔ ∃ call row rows, (i, call, .ok (.array (row :: rows))) ∈ log := by
  rw [wins, List.mem_filterMap]
  constructor
  · intro h
    obtain ⟨⟨j, call, r⟩, hmem, hwin⟩ := h
    unfold winner at hwin
    split at hwin
    · rename_i heq
      injection hwin with hwin
      injection heq with hj hrest
      injection hrest with hcall hr
      rw [hwin] at hj
      rw [hj, hr] at hmem
      exact ⟨_, _, _, hmem⟩
    · exact absurd hwin (by simp)
  · intro h
    obtain ⟨call, row, rows, hmem⟩ := h
    exact ⟨_, hmem, rfl⟩

variable {s₀ : Records} {o₀ : Object} {p : Updaters ι} {i : ι}

omit [DecidableEq ι] in
/-- The answer of an operation that asked. -/
theorem served_asked {s : Records} {call : Call} {r : Reply}
    (hs : Serialized table ops rid o₀ s p.log) (hi : Served table ops i (p.threads i) p.log)
    (hmem : (i, call, r) ∈ p.log) : p.threads i = lift (updateAnswer table (ops i) r) ∧
      ((∃ err, r = .error err) ∨ r = .ok (.array []) ∨ ∃ row, r = .ok (.array [row])) := by
  rcases hi with ⟨hnew, _⟩ | ⟨call', r', hmem', hprog, hshape⟩
  · exact absurd (List.mem_map_of_mem hmem) hnew
  · have hsame := List.inj_on_of_nodup_map hs.once hmem hmem' rfl
    injection hsame with _ hsame
    injection hsame with _ hr
    rw [hr]
    exact ⟨hprog, hshape⟩

/-- What became of the operations. -/
structure Accounted (table : Table) (ops : ι → UpdateByKey) (p : Updaters ι) : Prop where
  /-- No operation wrote twice. -/
  once : (wins p.log).Nodup
  /-- Those that wrote report a count of 1, and no other does. -/
  counted : ∀ i, (ops i).returning = none → (i ∈ wins p.log ↔ p.threads i = .done (.count 1))
  /-- With a projection they return the row, as far as it decodes. -/
  returned : ∀ i columns, (ops i).returning = some columns → i ∈ wins p.log → ∃ row,
    p.threads i = lift
    ((rowsToRecords (columns.map table.column) [row]).map ExecResponse.valueStream)
  /-- The others change nothing. -/
  others : ∀ p', Pool.Step (fun _ => recordStore.Handle) p p' → wins p'.log = wins p.log →
    p'.shared = p.shared

/-- **The account of the operations.** -/
theorem updates_accounted (hops : ∀ i, Updates table rid (ops i))
    (ho : AssocMap.lookup rid s₀ = some o₀) (h : Updaters.Go (Updaters.begin table ops s₀) p) :
    Accounted table ops p := by
  obtain ⟨hs, hserved⟩ := updates_serialized hops ho h
  -- who won was answered with the row
  have hwon : ∀ {i}, i ∈ wins p.log →
      ∃ row, p.threads i = lift (updateAnswer table (ops i) (.ok (.array [row]))) := by
    intro i hi
    obtain ⟨call, row, rows, hmem⟩ := mem_wins.mp hi
    obtain ⟨hprog, hshape⟩ := served_asked hs (hserved i) hmem
    rcases hshape with ⟨err, herr⟩ | hnone | ⟨row', hrow⟩
    · exact absurd herr (by simp)
    · exact absurd hnone (by simp)
    · rw [hrow] at hprog
      exact ⟨row', hprog⟩
  refine ⟨?_, ?_, ?_, ?_⟩
  · exact hs.once.sublist wins_sublist
  · intro i hret
    constructor
    · intro hi
      obtain ⟨row, hprog⟩ := hwon hi
      rw [hprog, updateAnswer, hret]
      rfl
    · intro hdone
      -- the count of one comes from an answer with a row and from no other
      rcases hserved i with ⟨_, hprog⟩ | ⟨call, r, hmem, hprog, hshape⟩
      · rw [hdone] at hprog
        rcases @execUpdateByKey_asks _ table .new (ops i) with ⟨e, he⟩ | ⟨_, _, _, _, hask⟩
        · rw [he] at hprog; exact absurd hprog (by simp)
        · rw [hask] at hprog; exact absurd hprog (by simp)
      · rw [hdone] at hprog
        rcases hshape with ⟨err, rfl⟩ | rfl | ⟨row, rfl⟩
        · exact absurd hprog (by simp [updateAnswer, lift])
        · rw [updateAnswer, hret] at hprog
          by_cases hcond : (ops i).condition.isSome = true
          · exact absurd hprog (by simp [takeRows, hcond, lift])
          · exact absurd hprog (by simp [takeRows, hcond, lift, ExecResponse.count])
        · exact mem_wins.mpr ⟨call, row, [], hmem⟩
  · intro i columns hret hi
    obtain ⟨row, hprog⟩ := hwon hi
    refine ⟨row, ?_⟩
    rw [hprog, updateAnswer, hret]
    cases hrows : rowsToRecords (columns.map table.column) [row] <;> simp [takeRows, hrows] <;> rfl
  · intro p' hstep hsame
    cases hstep with
    | @ask j call k r s ht hs' =>
        -- a step that adds no winner was refused or matched nothing
        rcases hserved j with ⟨_, hprog⟩ | ⟨_, r', _, hprog, _⟩
        · rw [ht] at hprog
          cases ((hops j).asked hprog.symm hs').2 with
          | rejected err => rfl
          | unmatched => rfl
          | wrote _ _ =>
              rw [wins_append] at hsame
              exact absurd (congrArg List.length hsame) (by simp [winner])
        · cases hans : updateAnswer table (ops j) r' <;> rw [ht, hans] at hprog <;>
            exact absurd hprog (by simp [lift])

/-! ## Versions and sums -/

omit [Sdk] [Surql] in
/-- A field that holds a whole number is not the record id. -/
theorem name_ne_id {c : Column} {o : Object} {n : Int}
    (h : (Object.field (recordRow rid o) c.name).whole = some n) : c.name ≠ "id" := by
  intro hid
  rw [hid, recordRow_id] at h
  exact absurd h (by simp [RecordId.value, SurValue.whole])

omit [DecidableEq ι] in
/-- What a serial run makes of a column. -/
theorem OneByOne.evolves {is : List ι} {o : Object} {c : Column} (hc : c ∈ table.columns)
    (hid : c.name ≠ "id") (h : OneByOne table ops rid o₀ is o) :
    Evolves c (is.flatMap fun i => assignmentsOn c (ops i).assignments)
      (Object.field (recordRow rid o₀) c.name) (Object.field (recordRow rid o) c.name) := by
  induction h with
  | start => rfl
  | write _ ha ih =>
      rw [List.flatMap_append, List.flatMap_singleton]
      exact ih.append (ha.columns c hc hid)

omit [DecidableEq ι] in
/-- **A serial run counts its versions**: the operations that write the version column
take one version after another. -/
theorem OneByOne.versions [SqlArith] {is : List ι} {o : Object} {v : Column} {n₀ : Int}
    (hv : IntegerColumn table v) (hn : (Object.field (recordRow rid o₀) v.name).whole = some n₀)
    (hops : ∀ i, (ops i).writes v = true → ∃ n, Versioned v (ops i) n)
    (h : OneByOne table ops rid o₀ is o) :
    (Object.field (recordRow rid o) v.name).whole =
        some (n₀ + (is.filter fun i => (ops i).writes v).length) ∧
      ∀ (k : Nat) (i : ι), (is.filter fun i => (ops i).writes v)[k]? = some i →
        Versioned v (ops i) (n₀ + k) := by
  have hid := name_ne_id hn
  induction h with
  | start => exact ⟨by simpa using hn, by simp⟩
  | @write is i o₁ o₂ _ ha ih =>
      obtain ⟨hx, hks⟩ := ih
      have hevolves := ha.columns v hv.column hid
      rw [List.filter_append]
      by_cases hw : (ops i).writes v = true
      · obtain ⟨n, hver⟩ := hops i hw
        obtain ⟨w, hcond, hwn⟩ := hver.condition
        -- a write is applied only if the version it expects is the stored one
        have hnow : n₀ + (is.filter fun i => (ops i).writes v).length = n :=
          ha.version hv hcond hwn hx
        obtain ⟨w', hset, hw'⟩ := hver.next
        rw [hset] at hevolves
        obtain ⟨z, hz, hfield⟩ := hevolves
        have hnull : w'.isNull = false := by
          cases w' <;> first | rfl | exact absurd hw' (by simp [Value.whole])
        rw [Assigns, if_neg (by rw [hnull]; decide)] at hz
        rw [hfield, toSurrealForColumn_whole hv.native hw' hz]
        simp only [List.filter_cons, hw, if_true, List.filter_nil]
        refine ⟨by rw [List.length_append, List.length_singleton]; congr 1; omega, fun k j hk => ?_⟩
        -- an earlier write keeps its place; the new one is the last
        by_cases hlt : k < (is.filter fun i => (ops i).writes v).length
        · rw [List.getElem?_append_left hlt] at hk
          exact hks k j hk
        · rw [List.getElem?_append_right (by omega), List.getElem?_singleton] at hk
          split at hk
          · injection hk with hk; subst hk
            have hkn : n₀ + (k : Int) = n := by omega
            rw [hkn]
            exact hver
          · exact absurd hk (by simp)
      -- a write without the column leaves the version alone
      · have hnone : assignmentsOn v (ops i).assignments = [] := by
          simpa [UpdateByKey.writes] using hw
        rw [hnone] at hevolves
        have hfield : Object.field (recordRow rid o₂) v.name =
            Object.field (recordRow rid o₁) v.name := hevolves
        rw [hfield]
        simpa [hw] using ⟨hx, hks⟩

omit [Sdk] [Surql] in
/-- An update is from one version only. -/
theorem Versioned.unique {v : Column} {op : UpdateByKey} {n m : Int} (h : Versioned v op n)
    (h' : Versioned v op m) : n = m := by
  obtain ⟨w, hcond, hw⟩ := h.condition
  obtain ⟨w', hcond', hw'⟩ := h'.condition
  rw [hcond] at hcond'
  injection hcond' with hcond'
  injection hcond' with _ _ hval
  injection hval with hval
  rw [hval, hw'] at hw
  injection hw with hw
  exact hw.symm

/-- What became of a version column. -/
structure VersionsKept (ops : ι → UpdateByKey) (rid : RecordId) (v : Column) (n₀ : Int)
    (p : Updaters ι) : Prop where
  /-- At most one update is from each version. -/
  one : ∀ i j n, i ∈ wins p.log → j ∈ wins p.log → Versioned v (ops i) n → Versioned v (ops j) n →
    i = j
  /-- The version has grown with each update of it. -/
  final : ∃ o, AssocMap.lookup rid p.shared = some o ∧
    (Object.field (recordRow rid o) v.name).whole =
      some (n₀ + ((wins p.log).filter fun i => (ops i).writes v).length)
  /-- Any other whose statement was executed is told that its condition failed. -/
  refused : ∀ i n, Versioned v (ops i) n → i ∉ wins p.log → ∀ call value,
    (i, call, .ok value) ∈ p.log →
    p.threads i = .fail (.conditionFailed "SurrealDB update condition did not match")

/-- **No update is lost.** However the updates of a record are interleaved, those that
wrote did so one after another, on what the record was by then: versions are taken once
each, and additions and subtractions add up. -/
theorem no_update_lost [SqlArith] (hops : ∀ i, Updates table rid (ops i))
    (ho : AssocMap.lookup rid s₀ = some o₀) (h : Updaters.Go (Updaters.begin table ops s₀) p) :
    Accounted table ops p ∧
    (∀ v n₀, IntegerColumn table v → (Object.field (recordRow rid o₀) v.name).whole = some n₀ →
      (∀ i, (ops i).writes v = true → ∃ n, Versioned v (ops i) n) → VersionsKept ops rid v n₀ p) ∧
    ∃ o, AssocMap.lookup rid p.shared = some o ∧
      (∀ c ∈ table.columns, c.name ≠ "id" →
        Evolves c ((wins p.log).flatMap fun i => assignmentsOn c (ops i).assignments)
          (Object.field (recordRow rid o₀) c.name) (Object.field (recordRow rid o) c.name)) ∧
      ∀ c x₀, IntegerColumn table c → (Object.field (recordRow rid o₀) c.name).whole = some x₀ →
        (∀ i, ∀ a ∈ assignmentsOn c (ops i).assignments, a.delta ≠ none) →
        (Object.field (recordRow rid o) c.name).whole =
          some (x₀ + ((wins p.log).map fun i => deltaSum
            (assignmentsOn c (ops i).assignments)).sum) := by
  have hacc := updates_accounted hops ho h
  obtain ⟨hs, hserved⟩ := updates_serialized hops ho h
  obtain ⟨o, hlookup, hserial⟩ := hs.serial
  refine ⟨hacc, fun v n₀ hv hn hver => ?_, o, hlookup, fun c hc hid => hserial.evolves hc hid, ?_⟩
  · obtain ⟨hfinal, hks⟩ := hserial.versions hv hn hver
    refine ⟨?_, ⟨o, hlookup, hfinal⟩, ?_⟩
    · intro i j n hi hj hvi hvj
      -- both are writers, so each is at the place of its version
      have hplace : ∀ {i}, i ∈ wins p.log → Versioned v (ops i) n → ∃ k : Nat,
          ((wins p.log).filter fun i => (ops i).writes v)[k]? = some i ∧ n₀ + (k : Int) = n := by
        intro i hi hvi
        obtain ⟨w, hset, _⟩ := hvi.next
        have hmem : i ∈ (wins p.log).filter fun i => (ops i).writes v :=
          List.mem_filter.mpr ⟨hi, by simp [UpdateByKey.writes, hset]⟩
        obtain ⟨k, hk⟩ := List.mem_iff_getElem?.mp hmem
        exact ⟨k, hk, (hks k i hk).unique hvi⟩
      obtain ⟨k, hk, hkn⟩ := hplace hi hvi
      obtain ⟨l, hl, hln⟩ := hplace hj hvj
      have hkl : k = l := by omega
      rw [hkl, hl] at hk
      injection hk with hk
      exact hk.symm
    · intro i n hvi hlost call value hmem
      obtain ⟨hprog, hshape⟩ := served_asked hs (hserved i) hmem
      rcases hshape with ⟨err, herr⟩ | hnone | ⟨row, hrow⟩
      · exact absurd herr (by simp)
      · obtain ⟨w, hcond, _⟩ := hvi.condition
        rw [hprog, hnone, updateAnswer, hcond]
        rfl
      · rw [hrow] at hmem
        exact absurd (mem_wins.mpr ⟨call, row, [], hmem⟩) hlost
  · intro c x₀ hc hx hdelta
    have hsum : ∀ is : List ι, deltaSum (is.flatMap fun i => assignmentsOn c (ops i).assignments) =
        (is.map fun i => deltaSum (assignmentsOn c (ops i).assignments)).sum := by
      intro is
      induction is with
      | nil => rfl
      | cons i is ih => rw [List.map_cons, List.sum_cons, ← ih, List.flatMap_cons]; simp [deltaSum]
    rw [← hsum]
    refine evolves_whole hc.native (fun a ha => ?_) hx (hserial.evolves hc.column (name_ne_id hx))
    obtain ⟨i, _, hai⟩ := List.mem_flatMap.mp ha
    exact hdelta i a hai

end

/-! ## Clients of a shop -/

/-- Products, with a version, a stock and a price. -/
def products : Table where
  id := 0
  name := "products"
  columns := [⟨⟨0, 0⟩, "number", .i64, .integer 8⟩, ⟨⟨0, 1⟩, "version", .i64, .integer 8⟩,
    ⟨⟨0, 2⟩, "stock", .i64, .integer 8⟩, ⟨⟨0, 3⟩, "price", .text .decimal, .text⟩]
  primaryKey := [⟨0, 0⟩]
  indices := []

/-- The version column. -/
def productVersion : Column := ⟨⟨0, 1⟩, "version", .i64, .integer 8⟩

/-- The record of product 1. -/
def firstProduct : RecordId := ⟨"products", .number 1⟩

/-- From version 1 to version 2. -/
def nextVersion : UpdateByKey :=
  ⟨[.i64 1], [(⟨0, 1⟩, .set (.i64 2))], none, some (versionIs productVersion (.i64 1)), none⟩

/-- Five more in stock; the new stock is asked for. -/
def restock : UpdateByKey := ⟨[.i64 1], [(⟨0, 2⟩, .add (.i64 5))], none, none, some [⟨0, 2⟩]⟩

/-- Two more on the price; a decimal is a value that prints like this. -/
def raisePrice : UpdateByKey := ⟨[.i64 1], [(⟨0, 3⟩, .add (.text .decimal 200))], none, none, none⟩

/-- A new version, and a price no addition fits. -/
def nextVersionPriced : UpdateByKey :=
  ⟨[.i64 1], [(⟨0, 1⟩, .set (.i64 2)), (⟨0, 3⟩, .add (.i64 2))], none,
    some (versionIs productVersion (.i64 1)), none⟩

namespace Plain

/-- The text of a decimal with two digits after the point. -/
def cents (code : Nat) : String :=
  toString (code / 100) ++ "." ++ toString (code / 10 % 10) ++ toString (code % 10)

end Plain

/-- Library functions that print decimals. -/
@[reducible] def pricing : Sdk :=
  { plain with storageText :=
    fun kind code => if kind = .decimal then some (Plain.cents code) else none }

/-- What the sum of counts leaves out: an update that returns its row; what is neither a
success nor a failed condition: a statement that is rejected; and prices are joined. -/
theorem counts_do_not_sum : let := pricing
    let := countingSurql
    (∃ resp, (execUpdateByKey .new products restock).Runs recordStore.Handle
        [(firstProduct, [("stock", .number (.int 1))])]
        [(firstProduct, [("stock", .number (.int 6))])] (.ok resp) ∧ resp.values ≠ .count 1) ∧
      (∃ err, (execUpdateByKey .new products nextVersionPriced).Runs recordStore.Handle
        [(firstProduct, [("version", .number (.int 1)), ("price", .string "1.50")])]
        [(firstProduct, [("version", .number (.int 1)), ("price", .string "1.50")])]
        (.error err) ∧ err.kind ≠ .conditionFailed) ∧
      (execUpdateByKey .new products raisePrice).Runs recordStore.Handle
        [(firstProduct, [("price", .string "1.50")])]
        [(firstProduct, [("price", .string "1.502.00")])] (.ok (.count 1)) := by
  let := pricing
  let := countingSurql
  refine ⟨⟨.valueStream [.record [.i64 6]], ?_, fun h =>
    absurd h (by simp [ExecResponse.valueStream])⟩, ⟨
    classifyError ⟨"Cannot perform arithmetic", false⟩, ?_, by decide⟩, ?_⟩
  · exact ⟨_, _, .inr
      ⟨firstProduct, rfl, .inl ⟨_, [("stock", .number (.int 6))], rfl, rfl, rfl, rfl, rfl⟩⟩,
      rfl, rfl⟩
  · exact ⟨_, _, .inl ⟨⟨_, rfl⟩, rfl⟩, rfl, rfl⟩
  · exact ⟨_, _, .inr
      ⟨firstProduct, rfl, .inl ⟨_, [("price", .string "1.502.00")], rfl, rfl, rfl, rfl, rfl⟩⟩,
      rfl, rfl⟩

/-- Two clients at the same version: one of them is told that its condition failed. -/
theorem race_won_once : let := plain
    let := countingSurql
    ∃ p : Updaters Bool, p.threads true = .done (.count 1) ∧
      p.threads false = .fail (.conditionFailed "SurrealDB update condition did not match") ∧
      VersionsKept (fun _ => nextVersion) firstProduct productVersion 1 p := by
  let := plain
  let := countingSurql
  have := countingSurql_arith
  let old : Records := [(firstProduct, [("version", .number (.int 1))])]
  let new : Records := [(firstProduct, [("version", .number (.int 2))])]
  have hwin : (execUpdateByKey .new products nextVersion).Runs recordStore.Handle old new
      (.ok (.count 1)) :=
    ⟨_, _, .inr ⟨firstProduct, rfl,
      .inl ⟨_, [("version", .number (.int 2))], rfl, rfl, rfl, rfl, rfl⟩⟩, rfl, rfl⟩
  have hlose : (execUpdateByKey .new products nextVersion).Runs recordStore.Handle new new
      (.error (.conditionFailed "SurrealDB update condition did not match")) := by
    refine ⟨_, _, .inr ⟨firstProduct, rfl, .inr ⟨fun o ho => ?_, rfl, rfl⟩⟩, rfl, rfl⟩
    injection ho with ho; subst ho
    rfl
  let update : Action ExecResponse := execUpdateByKey .new products nextVersion
  let won : Bool → Action ExecResponse :=
    Function.update (fun _ => update) true (lift (.ok (.count 1)))
  have hfirst : ∃ log, Updaters.Go (Updaters.begin products (fun _ => nextVersion) old)
      ⟨new, won, log⟩ :=
    Pool.Steps.of_runs (i := true) rfl hwin
  obtain ⟨log, hfirst⟩ := hfirst
  have hsecond : ∃ log', Updaters.Go ⟨new, won, log⟩ ⟨new, Function.update won false
      (lift (.error (.conditionFailed "SurrealDB update condition did not match"))), log'⟩ :=
    Pool.Steps.of_runs (i := false) rfl hlose
  obtain ⟨log', hsecond⟩ := hsecond
  have hops : ∀ _ : Bool, Updates products firstProduct nextVersion := fun _ =>
    ⟨⟨_, rfl, rfl⟩, by decide⟩
  have hversion : IntegerColumn products productVersion := ⟨by decide, rfl, by decide, by decide⟩
  refine ⟨_, rfl, rfl, (no_update_lost hops rfl (hfirst.trans hsecond)).2.1 productVersion 1
    hversion rfl fun _ _ => ⟨1, ⟨⟨_, rfl, rfl⟩, ⟨_, rfl, rfl⟩⟩⟩⟩

end ToastySurreal
