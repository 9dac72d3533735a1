import ToastySurreal.Proof.Templates
import ToastySurreal.Proof.Updates

/-!
# What a write by key does, and what it answers

An update or deletion by key is one statement about one record: it is there and the
filter and condition hold of it, or nothing happens. What the driver answers it reads off
the rows that came back. `Does` and `Removes` say what such a write is meant to do;
`keyed_writes_iff` says which updates the driver accepts do it. An addition is of numbers
only where the literal is stored as one, and a column called `id` always reads as the
record id.
-/

namespace ToastySurreal

open Results Prog
open Precedence (Tok)

section

variable [Sdk] [Surql]

/-! ## What is meant -/

/-- The filter and the condition hold of a record. -/
def predicatesHold (table : Table) (exprs : List (Option Expr)) (rid : RecordId) (o : Object) :
    Bool :=
  (predicateTemplates table exprs).all fun t => Surql.holds (t.map (Tok.map Slot.operand)) rid o

/-- The items an append adds: those of a list, or a single value. -/
def Value.appends : Value → List Value
  | .list items => items
  | v => [v]

/-- What an assignment is meant to make of a stored value. -/
inductive Effect (c : Column) : Assignment → SurValue → SurValue → Prop where
  | remove (x : SurValue) : Effect c (.set .null) x .none
  | store {v : Value} {z : SurValue} (x : SurValue) (hv : v.isNull = false)
      (hz : toSurrealForColumn v c = .ok z) : Effect c (.set v) x z
  /-- A number is added to a number, exactly if they are whole. -/
  | add {v : Value} {n m : Number} {z : SurValue} (hv : toSurrealForColumn v c = .ok (.number m))
      (hz : Surql.add (.number n) (.number m) = .ok z)
      (hwhole : ∀ i j, (SurValue.number n).whole = some i → (SurValue.number m).whole = some j →
        z.whole = some (i + j)) : Effect c (.add v) (.number n) z
  | subtract {v : Value} {n m : Number} {z : SurValue}
      (hv : toSurrealForColumn v c = .ok (.number m))
      (hz : Surql.sub (.number n) (.number m) = .ok z)
      (hwhole : ∀ i j, (SurValue.number n).whole = some i → (SurValue.number m).whole = some j →
        z.whole = some (i - j)) : Effect c (.subtract v) (.number n) z
  | append {v : Value} {xs ys : List SurValue} (hv : toSurrealList v.appends = .ok ys) :
      Effect c (.append v) (.array xs) (.array (xs ++ ys))
  /-- A list that is absent is empty. -/
  | start {v : Value} {ys : List SurValue} (hv : toSurrealList v.appends = .ok ys) :
      Effect c (.append v) .none (.array ys)

/-- The record of a write by key is there, and its predicates hold of it. -/
structure Matches (table : Table) (keys : List Value) (exprs : List (Option Expr)) (s : Records)
    (rid : RecordId) (o : Object) : Prop where
  key : ∃ key, keys = [key] ∧ recordId table key = .ok rid
  record : AssocMap.lookup rid s = some o
  holds : predicatesHold table exprs rid o = true

/-- What an update that matched answers: a count, or its one row. -/
def UpdateByKey.wrote (table : Table) (op : UpdateByKey) (row : Object) :
    Except Error ExecResponse :=
  match op.returning with
  | none => .ok (.count 1)
  | some columns => do
      .ok (.valueStream [.record (← rowToRecord (.object row) (columns.map table.column))])

/-- What an update that did not match answers. -/
def UpdateByKey.missed (op : UpdateByKey) : Except Error ExecResponse :=
  if op.condition.isSome then .error (.conditionFailed "SurrealDB update condition did not match")
  else .ok (if op.returning.isSome then .valueStream [] else .count 0)

/-- What an update by key is meant to do. -/
inductive Does (table : Table) (op : UpdateByKey) (s : Records) :
    Records → Except Error ExecResponse → Prop where
  /-- Exactly the record changes, and it exactly in the assigned columns. -/
  | wrote {rid : RecordId} {o o' : Object}
      (hm : Matches table op.keys [op.filter, op.condition] s rid o)
      (heffect : ∀ a ∈ op.assignments, Effect (table.column a.1) a.2
        (Object.field (recordRow rid o) (table.column a.1).name)
        (Object.field (recordRow rid o') (table.column a.1).name))
      (hframe : ∀ name, (∀ a ∈ op.assignments, (table.column a.1).name ≠ name) →
        Object.field (recordRow rid o') name = Object.field (recordRow rid o) name) :
      Does table op s (AssocMap.insert rid o' s) (op.wrote table (recordRow rid o'))
  | missed (hm : ¬ ∃ rid o, Matches table op.keys [op.filter, op.condition] s rid o) :
      Does table op s s op.missed

/-- What a deletion by key is meant to do. -/
inductive Removes (table : Table) (op : DeleteByKey) (s : Records) :
    Records → Except Error ExecResponse → Prop where
  | removed {rid : RecordId} {o : Object}
      (hm : Matches table op.keys [op.filter, op.condition] s rid o) :
      Removes table op s (AssocMap.erase rid s) (.ok (.count 1))
  | missed (hm : ¬ ∃ rid o, Matches table op.keys [op.filter, op.condition] s rid o) :
      Removes table op s s (if op.condition.isSome then
        .error (.conditionFailed "SurrealDB delete condition did not match") else .ok (.count 0))

/-- What is added or subtracted is stored as a number. -/
def Assignment.Numeric (c : Column) : Assignment → Prop
  | .add v | .subtract v => ∃ m, toSurrealForColumn v c = .ok (.number m)
  | _ => True

/-- SurrealQL adds numbers to numbers only, and continues lists. -/
class SqlTyped : Prop where
  add_number : ∀ {v z : SurValue} {m : Number}, Surql.add v (.number m) = .ok z → ∃ n, v = .number n
  sub_number : ∀ {v z : SurValue} {m : Number}, Surql.sub v (.number m) = .ok z → ∃ n, v = .number n
  add_array : ∀ {v z : SurValue} {ys : List SurValue}, Surql.add v (.array ys) = .ok z →
    (∃ xs, v = .array xs ∧ z = .array (xs ++ ys)) ∨ v = .none ∧ z = .array ys

/-! ## The predicates -/

omit [Sdk] [Surql] in
theorem fillIn_operand (b : Binds) (toks : List Token) :
    (fillIn b toks).map (Tok.map Slot.operand) = toks.map (Tok.map (resolve b)) := by
  rw [fillIn, List.map_map]
  refine List.map_congr_left fun t _ => ?_
  cases t with
  | atom a => exact congrArg Tok.atom (operand_slotOf b a)
  | _ => rfl

variable {table : Table} {q : Query} {rid : RecordId}

/-- **Sent clauses hold** when the predicates they were rendered from hold. -/
theorem clausesHold_eq {exprs : List (Option Expr)} {b b' : Binds} {clauses : List (List Token)}
    (hb : b.Numbered) (h : renderPredicates table b exprs = .ok (clauses, b'))
    (hq : b'.values <+: q.binds) (rid : RecordId) (o : Object) : clausesHold q clauses rid o =
    predicatesHold table exprs rid o := by
  rw [predicatesHold, ← renderPredicates_fills hb h, List.all_map, clausesHold]
  rw [Bool.eq_iff_iff, List.all_eq_true, List.all_eq_true]
  refine forall₂_congr fun toks hmem => ?_
  have hbound := (renderPredicates_steady h).bound toks hmem
  rw [Function.comp_apply, fillIn_operand, @Bound.resolve b' ⟨q.binds⟩ toks hbound hq]

/-! ## The effect of an assignment -/

omit [Surql] in
/-- An append adds the stored items. -/
theorem appended_array {c : Column} {v : Value} {w : SurValue} (h : appended v c = .ok w) :
    ∃ ys, w = .array ys ∧ toSurrealList v.appends = .ok ys := by
  have hlist : ∀ items : List Value, toSurrealForColumn (.list items) c = .ok w →
      ∃ ys, w = .array ys ∧ toSurrealList items = .ok ys := by
    intro items h
    rw [toSurrealForColumn, toSurrealWithStorage] at h
    split at h
    · exact absurd h (by simp [jsonTextToSurreal])
    · rw [toSurreal] at h
      obtain ⟨ys, hys, hok⟩ := bind_eq_ok h
      injection hok with hok; subst hok
      exact ⟨ys, rfl, hys⟩
  unfold appended at h
  split at h
  · exact hlist _ h
  · rename_i hv
    have happends : v.appends = [v] := by
      cases v with
      | list items => exact absurd rfl (hv items)
      | _ => rfl
    rw [happends]
    exact hlist _ h

/-- An assignment that adds numbers does what it is meant to. -/
theorem Assigns.effect [SqlTyped] [SqlArith] {c : Column} {x z : SurValue} {a : Assignment}
    (h : Assigns c x z a) (hn : a.Numeric c) : Effect c a x z := by
  cases a with
  | set v =>
      rw [Assigns] at h
      split at h
      · rename_i hv
        rw [Value.isNull_iff.mp hv, h]
        exact .remove x
      · rename_i hv
        exact .store x (Bool.not_eq_true _ ▸ hv) h
  | add v =>
      obtain ⟨w, hw, hadd⟩ := h
      obtain ⟨m, hm⟩ := hn
      rw [hm] at hw
      injection hw with hw; subst hw
      obtain ⟨n, rfl⟩ := SqlTyped.add_number hadd
      exact .add hm hadd fun i j hi hj => SqlArith.add_whole hi hj hadd
  | subtract v =>
      obtain ⟨w, hw, hsub⟩ := h
      obtain ⟨m, hm⟩ := hn
      rw [hm] at hw
      injection hw with hw; subst hw
      obtain ⟨n, rfl⟩ := SqlTyped.sub_number hsub
      exact .subtract hm hsub fun i j hi hj => SqlArith.sub_whole hi hj hsub
  | append v =>
      obtain ⟨w, hw, hadd⟩ := h
      obtain ⟨ys, rfl, hys⟩ := appended_array hw
      rcases SqlTyped.add_array hadd with ⟨xs, rfl, rfl⟩ | ⟨rfl, rfl⟩
      · exact .append hys
      · exact .start hys
  | other debug => exact h.elim

theorem Effect.numeric {c : Column} {x z : SurValue} {a : Assignment} (h : Effect c a x z) :
    a.Numeric c := by
  cases h with
  | add hv _ _ => exact ⟨_, hv⟩
  | subtract hv _ _ => exact ⟨_, hv⟩
  | remove | store | append | start => trivial

omit [Surql] in
/-- No value is stored as a record id. -/
theorem toSurrealForColumn_ne_recordId {v : Value} {c : Column} (name : String)
    (key : RecordIdKey) : toSurrealForColumn v c ≠ .ok (.recordId name key) := by
  intro h
  rw [toSurrealForColumn, toSurrealWithStorage] at h
  split at h
  · unfold jsonTextToSurreal at h
    split at h
    · exact absurd h (by simp)
    · split at h
      · rename_i json _
        injection h with h
        cases json with
        | number n =>
            rw [jsonValueToSurreal, jsonNumberToSurreal.eq_def] at h
            split at h
            · split at h <;> exact absurd h (by simp)
            · exact absurd h (by simp)
            · exact absurd h (by simp)
        | _ => exact absurd h (by simp [jsonValueToSurreal])
      · exact absurd h (by simp)
    · exact absurd h (by simp)
  · cases v with
    | list items | record items | object entries =>
        rw [toSurreal] at h
        obtain ⟨out, _, hok⟩ := bind_eq_ok h
        exact absurd hok (by simp)
    | text kind code =>
        rw [toSurreal] at h
        split at h <;> exact absurd h (by simp)
    | u64 v =>
        rw [toSurreal] at h
        split at h <;> exact absurd h (by simp)
    | _ => exact absurd h (by simp [toSurreal])

/-- Nothing is the effect of an assignment to the record id. -/
theorem not_effect_recordId {c : Column} {a : Assignment} {x z : SurValue} (h : Effect c a x z)
    (hx : x = rid.value) : z ≠ rid.value := by
  intro hz
  cases h with
  | store _ _ hv => exact toSurrealForColumn_ne_recordId rid.table rid.key (by rw [hv, hz]; rfl)
  | remove => exact absurd hz (by simp [RecordId.value])
  | add | subtract | append | start => exact absurd hx (by simp [RecordId.value])

/-! ## Updates -/

variable {op : UpdateByKey} {s s' : Records} {out : Except Error ExecResponse} {conn : Connection}

/-- The driver or the database refused; nothing has changed. -/
def Turned (p : Action ExecResponse) (s s' : Records) (out : Except Error ExecResponse) : Prop :=
  s' = s ∧ ((∃ e, p = .fail e ∧ out = .error e) ∨ ∃ err, out = .error (classifyError err))

omit [Surql] in
theorem updateAnswer_row (row : Object) :
    updateAnswer table op (.ok (.array [.object row])) = op.wrote table row := by
  rw [updateAnswer, UpdateByKey.wrote]
  simp only [takeRows, List.isEmpty_cons, Bool.false_and, Bool.false_eq_true, if_false]
  cases op.returning with
  | none => rfl
  | some columns =>
      dsimp only
      rw [rowsToRecords_single]
      cases rowToRecord (.object row) (columns.map table.column) <;> rfl

omit [Surql] in
theorem updateAnswer_none : updateAnswer table op (.ok (.array [])) = op.missed := by
  rw [updateAnswer, UpdateByKey.missed]
  cases op.condition with
  | some e => rfl
  | none => cases op.returning <;> rfl

/-- The assignments of an update are to columns of the table, one to each. -/
structure UpdateByKey.Assigning (table : Table) (op : UpdateByKey) : Prop where
  columns : ∀ a ∈ op.assignments, a.1 ∈ table.columns.map Column.id
  once : (op.assignments.map Prod.fst).Nodup

omit [Sdk] [Surql] in
/-- The only assignment to a column. -/
theorem assignmentsOn_once {c : Column} {a : Assignment} : ∀ {as : List (ColumnId × Assignment)},
    (as.map Prod.fst).Nodup → (c.id, a) ∈ as → assignmentsOn c as = [a]
  | [], _, ha => absurd ha List.not_mem_nil
  | (cid, b) :: as, hn, ha => by
      obtain ⟨hnew, hn⟩ := List.nodup_cons.mp hn
      by_cases hcid : cid = c.id
      · have hb : b = a := by
          rcases List.mem_cons.mp ha with ha | ha
          · injection ha with _ ha
            exact ha.symm
          · exact absurd (List.mem_map_of_mem ha) (hcid ▸ hnew)
        have hnone : as.filter (fun e => decide (e.1 = c.id)) = [] := by
          refine List.filter_eq_nil_iff.mpr fun e he hec => hnew ?_
          have hfirst : e.1 = cid := (of_decide_eq_true hec).trans hcid.symm
          exact List.mem_map.mpr ⟨e, he, hfirst⟩
        simp [assignmentsOn, hcid, hb, hnone]
      · rcases List.mem_cons.mp ha with ha | ha
        · injection ha with ha _
          exact absurd ha.symm hcid
        · have hrest := assignmentsOn_once hn ha
          simpa [assignmentsOn, hcid] using hrest

omit [Surql] in
/-- Assignments go by the names of their columns. -/
theorem renderAssignments_names : ∀ {as : List (ColumnId × Assignment)} {b b' : Binds}
    {sets : List SetClause}, renderAssignments table b as = .ok (sets, b') →
    sets.map SetClause.name = as.map fun a => (table.column a.1).name
  | [], b, b', sets, h => by
      injection h with h; injection h with h1 h2; subst h1
      rfl
  | (cid, a) :: as, b, b', sets, h => by
      rw [renderAssignments] at h
      obtain ⟨⟨clause, b₁⟩, hclause, h₁⟩ := bind_eq_ok h
      obtain ⟨⟨clauses, b₂⟩, hclauses, hok⟩ := bind_eq_ok h₁
      injection hok with hok; injection hok with h1 h2; subst h1
      have hname : clause.name = (table.column cid).name := by
        cases a with
        | set v =>
            rw [renderAssignment] at hclause
            split at hclause
            · injection hclause with hc; injection hc with hc; rw [← hc]
            · obtain ⟨s, _, hc⟩ := bind_eq_ok hclause
              injection hc with hc; injection hc with hc; rw [← hc]
        | add v | subtract v | append v =>
            rw [renderAssignment] at hclause
            obtain ⟨s, _, hc⟩ := bind_eq_ok hclause
            injection hc with hc; injection hc with hc; rw [← hc]
        | other debug => exact absurd hclause (by simp [renderAssignment])
      rw [List.map_cons, List.map_cons, hname, renderAssignments_names hclauses]

/-- **What a sent update does**: it is rejected, or it changes the record its predicates hold
of, or there is none. -/
inductive Executed (table : Table) (op : UpdateByKey) (rid : RecordId) (s : Records) :
    Reply → Records → Prop where
  | rejected (err : DbError) : Executed table op rid s (.error err) s
  | unmatched (hm : ∀ o, AssocMap.lookup rid s = some o →
      predicatesHold table [op.filter, op.condition] rid o = false) : Executed table op rid s
      (.ok (.array [])) s
  | wrote {o o' : Object} (ho : AssocMap.lookup rid s = some o)
      (hm : predicatesHold table [op.filter, op.condition] rid o = true)
      (hassigns : ∀ a ∈ op.assignments, (table.column a.1).name ≠ "id" → Assigns (table.column a.1)
        (Object.field (recordRow rid o) (table.column a.1).name)
        (Object.field (recordRow rid o') (table.column a.1).name) a.2)
      (hframe : ∀ name, (∀ a ∈ op.assignments, (table.column a.1).name ≠ name) →
        Object.field (recordRow rid o') name = Object.field (recordRow rid o) name) :
      Executed table op rid s (.ok (.array [.object (recordRow rid o')])) (AssocMap.insert rid o' s)

theorem updateQuery_ran (hop : op.Assigning table) {key : Value} {r : Reply}
    (hkey : recordId table key = .ok rid) (hq : updateQuery table op key = .ok q)
    (h : Records.exec s q r s') : Executed table op rid s r s' := by
  obtain ⟨sets, clauses, b₁, b₂, hsent⟩ := updateQuery_sent hkey hq
  have hholds := clausesHold_eq hsent.before hsent.tests hsent.grows rid
  simp only [Records.exec, hsent.sql, hsent.recordId] at h
  rcases h with ⟨⟨err, rfl⟩, rfl⟩ | ⟨rid', hr, hrest⟩
  · exact .rejected err
  injection hr with hr; subst hr
  rcases hrest with ⟨o, o', ho, hhold, happly, rfl, rfl⟩ | ⟨hnone, rfl, rfl⟩
  · refine .wrote ho (by rw [← hholds]; exact hhold) (fun a ha hid => ?_) fun name hname => ?_
    · obtain ⟨hcol, hcid⟩ := Table.column_mem (hop.columns a ha)
      have hgrows := (renderPredicates_steady hsent.tests).toGrows
      have hevolves := applySets_evolves hcol hid hop.columns hsent.assigns
        (hsent.binding.mono hgrows) happly
      have honly : assignmentsOn (table.column a.1) op.assignments = [a.2] :=
        assignmentsOn_once hop.once (by rw [hcid]; exact ha)
      rw [honly] at hevolves
      obtain ⟨y, hy, hz⟩ := hevolves
      have hz' : Object.field (recordRow rid o') (table.column a.1).name = y := hz
      rw [hz']
      exact hy
    · refine applySets_frame (fun clause hc => ?_) happly
      have hmem : clause.name ∈ sets.map SetClause.name := List.mem_map_of_mem hc
      rw [renderAssignments_names hsent.assigns] at hmem
      obtain ⟨a, ha, haname⟩ := List.mem_map.mp hmem
      rw [← haname]
      exact hname a ha
  · exact .unmatched fun o ho => by rw [← hholds]; exact hnone o ho

/-- An update is turned down, or its statement ran and was answered. -/
theorem update_ran (hop : op.Assigning table)
    (h : (execUpdateByKey conn table op).Runs recordStore.Handle s s' out) :
    Turned (execUpdateByKey conn table op) s s' out ∨ ∃ key rid v, op.keys = [key] ∧
      recordId table key = .ok rid ∧ Executed table op rid s (.ok v) s' ∧ out =
      updateAnswer table op (.ok v) := by
  rcases execUpdateByKey_runs h with ⟨hs, e, he, hout⟩ | ⟨key, q, r, hkeys, hq, hexec, hout⟩
  · exact .inl ⟨hs, .inl ⟨e, he, hout⟩⟩
  obtain ⟨rid, hrid⟩ := updateQuery_addressed hq
  have hran := updateQuery_ran hop hrid hq hexec
  cases r with
  | error err =>
      cases hran
      exact .inl ⟨rfl, .inr ⟨err, hout⟩⟩
  | ok v => exact .inr ⟨key, rid, v, hkeys, hrid, hran, hout⟩

omit [Surql] in
theorem addressed_unique {keys : List Value} {key : Value} {rid' : RecordId} (hkeys : keys = [key])
    (hrid : recordId table key = .ok rid)
    (h : ∃ key, keys = [key] ∧ recordId table key = .ok rid') : rid' = rid := by
  obtain ⟨key', hkeys', hrid'⟩ := h
  rw [hkeys] at hkeys'
  injection hkeys' with hkey _; subst hkey
  rw [hrid] at hrid'
  injection hrid' with hrid'
  exact hrid'.symm

/-- **When an update does what it is meant to do.** One that is accepted does, unless its
record matches and it adds what is not stored as a number, or assigns a column called `id`. -/
theorem update_does_iff [SqlTyped] [SqlArith] (hop : op.Assigning table)
    (h : (execUpdateByKey conn table op).Runs recordStore.Handle s s' out) :
    Turned (execUpdateByKey conn table op) s s' out ∨
      (Does table op s s' out ↔ ∀ rid o, Matches table op.keys [op.filter, op.condition] s rid o →
        ∀ a ∈ op.assignments, (table.column a.1).name ≠ "id" ∧ a.2.Numeric (table.column a.1)) := by
  refine (update_ran hop h).imp_right fun hran => ?_
  obtain ⟨key, rid, v, hkeys, hrid, hran, rfl⟩ := hran
  cases hran with
  | unmatched hm =>
      have hnone : ¬ ∃ rid o, Matches table op.keys [op.filter, op.condition] s rid o := by
        intro hsome
        obtain ⟨rid', o, hmatch⟩ := hsome
        obtain rfl := addressed_unique hkeys hrid hmatch.key
        exact absurd hmatch.holds (by rw [hm o hmatch.record]; decide)
      refine ⟨fun _ rid o hmatch => (hnone ⟨rid, o, hmatch⟩).elim, fun _ => ?_⟩
      rw [updateAnswer_none]
      exact .missed hnone
  | @wrote o o' ho hm hassigns hframe =>
      have hmatch : Matches table op.keys [op.filter, op.condition] s rid o :=
        ⟨⟨key, hkeys, hrid⟩, ho, hm⟩
      rw [updateAnswer_row]
      refine ⟨fun hdoes rid₁ o₁ hmatch₁ a ha => ?_, fun hplain => ?_⟩
      · -- the record that was written tells which effects there were
        obtain rfl := addressed_unique hkeys hrid hmatch₁.key
        generalize hs : AssocMap.insert rid₁ o' s = s' at hdoes
        generalize op.wrote table (recordRow rid₁ o') = out at hdoes
        cases hdoes with
        | missed hnone => exact absurd ⟨_, _, hmatch₁⟩ hnone
        | @wrote rid₂ o₂ o₂' hm₂ heffect _ =>
            obtain rfl := addressed_unique hkeys hrid hm₂.key
            have hlookup := congrArg (AssocMap.lookup rid₂) hs
            rw [AssocMap.lookup_insert_self, AssocMap.lookup_insert_self] at hlookup
            injection hlookup with hlookup; subst hlookup
            have ha' := heffect a ha
            refine ⟨fun hid => ?_, ha'.numeric⟩
            rw [hid, recordRow_id, recordRow_id] at ha'
            exact not_effect_recordId ha' rfl rfl
      · refine .wrote hmatch (fun a ha => ?_) hframe
        obtain ⟨hid, hn⟩ := hplain rid o hmatch a ha
        exact (hassigns a ha hid).effect hn

/-! ## The order of assignments -/

/-- An assignment makes one value of a value. -/
theorem Assigns.unique {c : Column} {x z z' : SurValue} {a : Assignment} (h : Assigns c x z a)
    (h' : Assigns c x z' a) : z = z' := by
  cases a with
  | set v =>
      rw [Assigns] at h h'
      split at h
      · rename_i hv
        rw [if_pos hv] at h'
        rw [h, h']
      · rename_i hv
        rw [if_neg hv, h] at h'
        injection h' with h'
  | add v | subtract v | append v =>
      obtain ⟨w, hw, hz⟩ := h
      obtain ⟨w', hw', hz'⟩ := h'
      rw [hw] at hw'
      injection hw' with hw'; subst hw'
      rw [hz] at hz'
      injection hz' with hz'
  | other debug => exact h.elim

/-- Stores in which every record reads the same. -/
def SameFields (s s' : Records) : Prop :=
  ∀ rid, Option.Rel (fun o o' => ∀ name,
    Object.field (recordRow rid o) name = Object.field (recordRow rid o') name)
    (AssocMap.lookup rid s) (AssocMap.lookup rid s')

omit [Sdk] [Surql] in
theorem SameFields.refl (s : Records) : SameFields s s := by
  intro rid
  cases AssocMap.lookup rid s with
  | none => exact .none
  | some o => exact .some fun _ => rfl

omit [Sdk] [Surql] in
theorem SameFields.insert {o o' : Object} (h : ∀ name,
    Object.field (recordRow rid o) name = Object.field (recordRow rid o') name) (s : Records) :
    SameFields (AssocMap.insert rid o s) (AssocMap.insert rid o' s) := by
  intro rid'
  by_cases hrid : rid' = rid
  · subst hrid
    rw [AssocMap.lookup_insert_self, AssocMap.lookup_insert_self]
    exact .some h
  · rw [AssocMap.lookup_insert_ne hrid, AssocMap.lookup_insert_ne hrid]
    exact SameFields.refl s rid'

omit [Surql] in
theorem wrote_congr {row row' : Object}
    (h : ∀ name, Object.field row name = Object.field row' name) :
    op.wrote table row = op.wrote table row' := by
  rw [UpdateByKey.wrote, UpdateByKey.wrote]
  cases op.returning with
  | none => rfl
  | some columns =>
      have hrow : rowToRecord (.object row) (columns.map table.column) =
          rowToRecord (.object row') (columns.map table.column) :=
        rowToRecord_congr fun c _ => by rw [h c.name]
      dsimp only
      rw [hrow]

/-- **The order of the assignments does not matter**: two updates that differ in it only, both
accepted, leave records that read the same, and answer the same. -/
theorem update_order {as : List (ColumnId × Assignment)} {s₁ s₂ : Records}
    {out₁ out₂ : Except Error ExecResponse} (hop : op.Assigning table)
    (hperm : as.Perm op.assignments)
    (h₁ : (execUpdateByKey conn table op).Runs recordStore.Handle s s₁ out₁)
    (h₂ : (execUpdateByKey conn table { op with assignments := as }).Runs recordStore.Handle s s₂
      out₂) :
    Turned (execUpdateByKey conn table op) s s₁ out₁ ∨
      Turned (execUpdateByKey conn table { op with assignments := as }) s s₂ out₂ ∨
      SameFields s₁ s₂ ∧ out₁ = out₂ := by
  have hop' : UpdateByKey.Assigning table { op with assignments := as } :=
    ⟨fun a ha => hop.columns a (hperm.subset ha), (hperm.map Prod.fst).nodup_iff.mpr hop.once⟩
  rcases update_ran hop h₁ with hturned | ⟨key, rid, v, hkeys, hrid, hran, rfl⟩
  · exact .inl hturned
  rcases update_ran hop' h₂ with hturned | ⟨key', rid', v', hkeys', hrid', hran', rfl⟩
  · exact .inr (.inl hturned)
  obtain rfl := addressed_unique hkeys hrid ⟨key', hkeys', hrid'⟩
  refine .inr (.inr ?_)
  cases hran with
  | unmatched hm =>
      cases hran' with
      | unmatched _ => exact ⟨.refl s, by rw [updateAnswer_none, updateAnswer_none]; rfl⟩
      | wrote ho hm' _ _ => exact absurd hm' (by rw [hm _ ho]; decide)
  | @wrote o o₁ ho hm hassigns hframe =>
      cases hran' with
      | unmatched hm' => exact absurd hm (by rw [hm' _ ho]; decide)
      | @wrote o' o₂ ho' hm' hassigns' hframe' =>
          rw [ho] at ho'
          injection ho' with ho'; subst ho'
          have hsame : ∀ name, Object.field (recordRow rid' o₁) name =
              Object.field (recordRow rid' o₂) name := by
            intro name
            by_cases hid : name = "id"
            · rw [hid, recordRow_id, recordRow_id]
            by_cases hname : ∃ a ∈ op.assignments, (table.column a.1).name = name
            · obtain ⟨a, ha, rfl⟩ := hname
              exact (hassigns a ha hid).unique (hassigns' a (hperm.mem_iff.mpr ha) hid)
            · have hnot : ∀ a ∈ op.assignments, (table.column a.1).name ≠ name :=
                fun a ha h => hname ⟨a, ha, h⟩
              rw [hframe name hnot, hframe' name fun a ha => hnot a (hperm.subset ha)]
          refine ⟨.insert hsame s, ?_⟩
          rw [updateAnswer_row, updateAnswer_row]
          exact wrote_congr hsame

/-! ## Deletions -/

/-- **A deletion that is accepted does what it is meant to do.** -/
theorem delete_removes {op : DeleteByKey}
    (h : (execDeleteByKey conn table op).Runs recordStore.Handle s s' out) :
    Turned (execDeleteByKey conn table op) s s' out ∨ Removes table op s s' out := by
  unfold execDeleteByKey at h ⊢
  cases hkey : singleKey "delete" op.keys with
  | error e =>
      rw [hkey] at h
      obtain ⟨rfl, hout⟩ := h
      exact .inl ⟨rfl, .inl ⟨e, rfl, hout⟩⟩
  | ok key =>
  rw [hkey] at h
  simp only [lift_ok_bind] at h ⊢
  cases hq : deleteQuery table op key with
  | error e =>
      rw [hq] at h
      obtain ⟨rfl, hout⟩ := h
      exact .inl ⟨rfl, .inl ⟨e, rfl, hout⟩⟩
  | ok q =>
  rw [hq] at h
  simp only [lift_ok_bind] at h ⊢
  rcases Database.runs_runQuery_bind.mp h with ⟨err, hexec, hout⟩ | ⟨v, s₁, hexec, hrest⟩
  · exact .inl ⟨Records.exec_error hexec, .inr ⟨err, hout⟩⟩
  have hkeys := singleKey_ok hkey
  refine .inr ?_
  obtain ⟨clauses, binds, rid, hclauses, hrid, hsql, hq', hgrows⟩ := deleteQuery_sent hq
  have hholds := clausesHold_eq Binds.numbered_empty hclauses hgrows rid
  replace hexec : Records.exec s q (.ok v) s₁ := hexec
  simp only [Records.exec, hsql, hq'] at hexec
  rcases hexec with ⟨⟨err, herr⟩, _⟩ | ⟨rid', hr, hdone⟩
  · exact absurd herr (by simp)
  injection hr with hr; subst hr
  rcases hdone with ⟨o, ho, hhold, rfl, hv⟩ | ⟨hnone, rfl, hv⟩
  · injection hv with hv; subst hv
    obtain ⟨rfl, rfl⟩ : s' = AssocMap.erase rid s ∧ out = .ok (.count 1) := hrest
    exact .removed ⟨⟨key, hkeys, hrid⟩, ho, by rw [← hholds]; exact hhold⟩
  · injection hv with hv; subst hv
    have hmiss : ¬ ∃ rid o, Matches table op.keys [op.filter, op.condition] s₁ rid o := by
      intro hsome
      obtain ⟨rid', o, hmatch⟩ := hsome
      obtain rfl := addressed_unique hkeys hrid hmatch.key
      have hfalse := hnone o hmatch.record
      rw [hholds, hmatch.holds] at hfalse
      exact absurd hfalse (by decide)
    have hans : s' = s₁ ∧ out = (if op.condition.isSome then
        .error (.conditionFailed "SurrealDB delete condition did not match") else .ok
        (.count 0)) := by
      cases hcond : op.condition with
      | none => rw [hcond] at hrest; exact hrest
      | some e => rw [hcond] at hrest; exact hrest
    obtain ⟨rfl, rfl⟩ := hans
    exact .missed hmiss

/-- **Effect, frame and outcome of writes by key.** An update that is accepted does what it is
meant to, in any order of its assignments, exactly when its record does not match or it adds
only what is stored as a number and assigns no column called `id`. A deletion that is accepted
does what it is meant to. -/
theorem keyed_writes_iff [SqlTyped] [SqlArith] (conn : Connection) (table : Table) (s : Records) :
    (∀ (op : UpdateByKey) (s' : Records) (out : Except Error ExecResponse), op.Assigning table →
      (execUpdateByKey conn table op).Runs recordStore.Handle s s' out →
      Turned (execUpdateByKey conn table op) s s' out ∨
        (Does table op s s' out ↔ ∀ rid o, Matches table op.keys [op.filter, op.condition] s rid o →
          ∀ a ∈ op.assignments, (table.column a.1).name ≠ "id" ∧ a.2.Numeric (table.column a.1))) ∧
    (∀ (op : UpdateByKey) (as : List (ColumnId × Assignment)) (s₁ s₂ : Records)
      (out₁ out₂ : Except Error ExecResponse), op.Assigning table → as.Perm op.assignments →
      (execUpdateByKey conn table op).Runs recordStore.Handle s s₁ out₁ →
      (execUpdateByKey conn table { op with assignments := as }).Runs recordStore.Handle s s₂ out₂ →
      Turned (execUpdateByKey conn table op) s s₁ out₁ ∨
        Turned (execUpdateByKey conn table { op with assignments := as }) s s₂ out₂ ∨
        SameFields s₁ s₂ ∧ out₁ = out₂) ∧
    ∀ (op : DeleteByKey) (s' : Records) (out : Except Error ExecResponse),
      (execDeleteByKey conn table op).Runs recordStore.Handle s s' out →
      Turned (execDeleteByKey conn table op) s s' out ∨ Removes table op s s' out :=
  ⟨fun _ _ _ hop h => update_does_iff hop h,
    fun _ _ _ _ _ _ hop hperm h₁ h₂ => update_order hop hperm h₁ h₂, fun _ _ _ h =>
    delete_removes h⟩

end

/-! ## Prices and stocks -/

theorem countingSurql_typed : @SqlTyped countingSurql :=
  let := countingSurql
  { add_number := fun {v z m} h => by
      cases v with
      | number n => exact ⟨n, rfl⟩
      | _ => exact absurd h (by simp [Surql.add, Plain.plus, Plain.checked])
    sub_number := fun {v z m} h => by
      cases v with
      | number n => exact ⟨n, rfl⟩
      | _ => exact absurd h (by simp [Surql.sub, Plain.checked])
    add_array := fun {v z ys} h => by
      cases v <;> exact absurd h (by simp [Surql.add, Plain.plus, Plain.checked]) }

/-- The store of one product. -/
def shop (fields : Object) : Records := [(firstProduct, fields)]

/-- Remove the column `id` of note 1. -/
def forgetId : UpdateByKey := ⟨[.i64 1], [(⟨0, 1⟩, .set .null)], none, none, none⟩

/-- A price is raised by joining texts, and a column called `id` is not removed. -/
theorem price_joined : let := pricing
    let := countingSurql
    ((execUpdateByKey .new products raisePrice).Runs recordStore.Handle
        (shop [("price", .string "1.50")]) (shop [("price", .string "1.502.00")]) (.ok (.count 1)) ∧
      ¬ Does products raisePrice (shop [("price", .string "1.50")])
        (shop [("price", .string "1.502.00")]) (.ok (.count 1))) ∧
    (execUpdateByKey .new notes forgetId).Runs recordStore.Handle
        [(⟨"notes", .number 1⟩, [])] [(⟨"notes", .number 1⟩, [])] (.ok (.count 1)) ∧
      ¬ Does notes forgetId [(⟨"notes", .number 1⟩, [])] [(⟨"notes", .number 1⟩, [])]
        (.ok (.count 1)) := by
  let := pricing
  let := countingSurql
  have := countingSurql_arith
  have := countingSurql_typed
  have hraise : (execUpdateByKey .new products raisePrice).Runs recordStore.Handle
      (shop [("price", .string "1.50")]) (shop [("price", .string "1.502.00")]) (.ok (.count 1)) :=
    ⟨_, _, .inr ⟨firstProduct, rfl,
      .inl ⟨_, [("price", .string "1.502.00")], rfl, rfl, rfl, rfl, rfl⟩⟩, rfl, rfl⟩
  have hforget : (execUpdateByKey .new notes forgetId).Runs recordStore.Handle
      [(⟨"notes", .number 1⟩, [])] [(⟨"notes", .number 1⟩, [])] (.ok (.count 1)) :=
    ⟨_, _, .inr ⟨⟨"notes", .number 1⟩, rfl, .inl ⟨_, [], rfl, rfl, rfl, rfl, rfl⟩⟩, rfl, rfl⟩
  refine ⟨⟨hraise, fun hdoes => ?_⟩, hforget, fun hdoes => ?_⟩
  · rcases update_does_iff ⟨by decide, by decide⟩ hraise with ⟨_, ⟨_, _, hout⟩ | ⟨_, hout⟩⟩ | hiff
    · exact absurd hout (by simp)
    · exact absurd hout (by simp)
    · obtain ⟨_, m, hm⟩ :=
        hiff.mp hdoes firstProduct _ ⟨⟨_, rfl, rfl⟩, rfl, rfl⟩ _ List.mem_cons_self
      have hstored : toSurrealForColumn (.text .decimal 200) (products.column ⟨0, 3⟩) =
          .ok (.string "2.00") := rfl
      have htext := hstored.symm.trans hm
      injection htext with htext
      exact absurd htext (by simp)
  · rcases update_does_iff ⟨by decide, by decide⟩ hforget with ⟨_, ⟨_, _, hout⟩ | ⟨_, hout⟩⟩ | hiff
    · exact absurd hout (by simp)
    · exact absurd hout (by simp)
    · exact (hiff.mp hdoes _ _ ⟨⟨_, rfl, rfl⟩, rfl, rfl⟩ _ List.mem_cons_self).1 rfl

/-- Five more in stock, and the new stock is returned. -/
theorem stock_restocked : let := plain
    let := countingSurql
    Does products restock (shop [("stock", .number (.int 1))]) (shop [("stock", .number (.int 6))])
      (.ok (.valueStream [.record [.i64 6]])) := by
  let := plain
  let := countingSurql
  have := countingSurql_arith
  have := countingSurql_typed
  have hrun : (execUpdateByKey .new products restock).Runs recordStore.Handle
      (shop [("stock", .number (.int 1))]) (shop [("stock", .number (.int 6))])
      (.ok (.valueStream [.record [.i64 6]])) :=
    ⟨_, _, .inr ⟨firstProduct, rfl,
      .inl ⟨_, [("stock", .number (.int 6))], rfl, rfl, rfl, rfl, rfl⟩⟩, rfl, rfl⟩
  rcases (keyed_writes_iff .new products _).1 restock _ _ ⟨by decide, by decide⟩ hrun with
    ⟨_, ⟨_, _, hout⟩ | ⟨_, hout⟩⟩ | hiff
  · exact absurd hout (by simp)
  · exact absurd hout (by simp)
  · refine hiff.mpr fun rid o _ a ha => ?_
    rw [List.mem_singleton.mp ha]
    exact ⟨by decide, _, rfl⟩

end ToastySurreal
