import ToastySurreal.Proof.Absence

/-!
# What the test for absence selects

`IS NONE` is how the driver asks whether a column or a member of a document is null, and
it is right if null is never anything but absent. `null_absent_iff` says when it is, after
any run of writes: a column called `id` is never absent, whatever was written to it.
-/

namespace ToastySurreal

open Results
open Precedence (parse)

section

variable [Sdk] [SqlOrder] {table : Table} {rid : RecordId} {o : Object}

/-! ## The test for absence -/

/-- The rendered expression is true of a record. -/
def Selects (table : Table) (e : Expr) (rid : RecordId) (o : Object) : Prop :=
  ∃ toks binds p, render table .empty e = .ok (toks, binds) ∧ parse sqlGrammar toks = some p ∧
    ((p.map (resolve binds)).eval isParen (rowAlgebra rid o)).isTrue = true

omit [Sdk] in
/-- Only `NONE` equals `NONE`. -/
theorem eqv_none {v : SurValue} : SqlOrder.eqv v .none = true ↔ v = .none := by
  rw [SqlOrder.eqv, Bool.and_eq_true]
  constructor
  · intro h
    by_contra hv
    rw [SqlOrder.none_lt v hv] at h
    exact absurd h.1 (by simp)
  · intro h
    have hrefl : SqlOrder.le v v = true := (SqlOrder.le_total v v).elim id id
    rw [h] at hrefl ⊢
    exact ⟨hrefl, hrefl⟩

/-- **The test `IS NONE`** is true where the column or path reads `NONE`. -/
theorem selects_isNull {target : Target} :
    Selects table (.isNull target.expr) rid o ↔ target.value table rid o = .none := by
  cases target with
  | column c | path c path =>
      constructor
      · intro h
        obtain ⟨toks, binds, p, hrender, hparse, htrue⟩ := h
        injection hrender with hrender; injection hrender with h1 h2; subst h1 h2
        injection hparse with hparse; subst hparse
        exact eqv_none.mp ((SurValue.isTrue_bool _).symm.trans htrue)
      · intro h
        exact ⟨_, _, _, rfl, rfl, (SurValue.isTrue_bool _).trans (eqv_none.mpr h)⟩

/-- A cast of a text gives a value. -/
class CastsPresent : Prop where
  cast_ne_null : ∀ (ty : Ty) (text : String), Sdk.cast ty text ≠ some .null

/-- A field of what is no object: `NONE`, or a list of the fields of a list's items. -/
class SqlFields : Prop where
  field_other : ∀ {v : SurValue} (name : String), (∀ fields, v ≠ .object fields) →
    SqlOrder.field v name = .none ∨ ∃ items, SqlOrder.field v name = .array items

omit [SqlOrder] in
theorem numberToStmt_ne_null {n : Number} {ty : Ty} : numberToStmt n ty ≠ .ok .null := by
  intro h
  cases ty with
  | unknown =>
      rw [numberToStmt] at h
      split at h <;> exact absurd h (by simp)
  | _ => exact absurd h (by simp [numberToStmt])

omit [SqlOrder] in
theorem textToStmt_ne_null [CastsPresent] {text : String} {ty : Ty} :
    textToStmt text ty ≠ .ok .null := by
  intro h
  unfold textToStmt at h
  split at h
  · exact absurd h (by simp)
  · exact absurd h (by simp)
  · split at h <;> exact absurd h (by simp)
  · split at h
    · rename_i v hv
      injection h with h
      exact CastsPresent.cast_ne_null _ _ (h ▸ hv)
    · exact absurd h (by simp)

omit [SqlOrder] in
theorem recordIdKeyToStmt_ne_null {key : RecordIdKey} {ty : Ty} :
    recordIdKeyToStmt key ty ≠ .ok .null := by
  intro h
  cases key with
  | number n => exact numberToStmt_ne_null h
  | string text =>
      rw [recordIdKeyToStmt.eq_def] at h
      dsimp only at h
      split at h
      · split at h <;> exact absurd h (by simp)
      · exact absurd h (by simp)
  | array items =>
      obtain ⟨out, _, hok⟩ := bind_eq_ok h
      exact absurd hok (by simp)
  | uuid u | other code => exact absurd h (by simp [recordIdKeyToStmt])

omit [SqlOrder] in
/-- **Only `NONE` and `NULL` decode to a null.** -/
theorem fromSurreal_null_iff [CastsPresent] {v : SurValue} {ty : Ty} :
    fromSurreal v ty = .ok .null ↔ v = .none ∨ v = .null := by
  constructor
  · intro h
    cases v with
    | none => exact .inl rfl
    | null => exact .inr rfl
    | number n => exact absurd h numberToStmt_ne_null
    | string text => exact absurd h textToStmt_ne_null
    | recordId name key => exact absurd h recordIdKeyToStmt_ne_null
    | array items | object fields =>
        obtain ⟨out, _, hok⟩ := bind_eq_ok h
        exact absurd hok (by simp)
    | bool b | bytes b | uuid u | other code => exact absurd h (by simp [fromSurreal])
  · rintro (rfl | rfl) <;> rfl

omit [SqlOrder] in
/-- What is absent is null, and nothing else is; a JSON `NULL` is a document. -/
theorem fromSurrealForColumn_null_iff [CastsPresent] {v : SurValue} {c : Column}
    (hplain : c.storageTy ≠ .json → v ≠ .null) : fromSurrealForColumn v c = .ok .null ↔
    v = .none := by
  rw [fromSurrealForColumn, fromSurrealWithStorage]
  by_cases hc : c.storageTy = .json
  · rw [if_pos (by rw [hc])]
    constructor
    · intro h
      unfold surrealJsonToText at h
      split at h
      · rfl
      · obtain ⟨json, _, htext⟩ := bind_eq_ok h
        split at htext <;> exact absurd htext (by simp)
    · rintro rfl; rfl
  · rw [if_neg (by simpa using hc), fromSurreal_null_iff]
    exact ⟨fun h => h.resolve_right (hplain hc), .inl⟩

omit [Sdk] in
/-- A path into a value without nulls inside reads no `NULL`. -/
theorem path_ne_null [SqlFields] : ∀ {path : List String} {v : SurValue}, v ≠ .null →
    ((∃ fields, v = .object fields) → v.Dense) → path.foldl SqlOrder.field v ≠ .null
  | [], _, hv, _ => hv
  | name :: path, v, hv, hdense => by
      rw [List.foldl_cons]
      by_cases hobj : ∃ fields, v = .object fields
      · obtain ⟨fields, rfl⟩ := hobj
        cases hdense ⟨fields, rfl⟩ with
        | scalar h => exact absurd h (by simp [SurValue.isScalar])
        | object hmembers hpresent =>
            rw [SqlOrder.field_object, Object.field]
            cases hl : AssocMap.lookup name fields with
            | none =>
                exact path_ne_null (by simp) fun h => by
                  obtain ⟨_, h⟩ := h; exact absurd h (by simp)
            | some m =>
                have hm := AssocMap.mem_of_lookup hl
                exact path_ne_null (hpresent _ hm).1 fun _ => hmembers _ hm
      · rcases SqlFields.field_other name (fun fields h => hobj ⟨fields, h⟩) with hf | ⟨items, hf⟩
        · rw [hf]
          exact path_ne_null (by simp) fun h => by obtain ⟨_, h⟩ := h; exact absurd h (by simp)
        · rw [hf]
          exact path_ne_null (by simp) fun h => by obtain ⟨_, h⟩ := h; exact absurd h (by simp)

end

/-! ## Every reachable state -/

section

variable [Sdk] [Surql] [SqlOrder] {table : Table} {s : Records} {nulls : RecordId → NullColumns}

/-- **What is meant by null being absent**, where these columns of the records are null. -/
structure NullIsAbsent (table : Table) (s : Records) (nulls : RecordId → NullColumns) : Prop where
  /-- A column that is not native JSON holds no `NULL`, and no object in it does. -/
  plain : ∀ rid o, AssocMap.lookup rid s = some o →
    ∀ c ∈ table.columns, isPrimaryKey table c = false →
    c.storageTy ≠ .json → Object.field (recordRow rid o) c.name ≠ .null ∧
      (Object.field (recordRow rid o) c.name).Dense
  absent : ∀ rid o, AssocMap.lookup rid s = some o →
    ∀ c ∈ table.columns, isPrimaryKey table c = false →
    (AssocMap.lookup c.name (recordRow rid o) = none ↔ nulls rid c.id = true)
  /-- `IS NONE` on a column selects where it decodes to a null. -/
  column : ∀ rid o, AssocMap.lookup rid s = some o →
    ∀ c ∈ table.columns, isPrimaryKey table c = false →
    (Selects table (.isNull (.reference c)) rid o ↔
      fromSurrealForColumn (Object.field (recordRow rid o) c.name) c = .ok .null)
  /-- On a path into a document it selects where the member decodes to a null. -/
  path : ∀ rid o, AssocMap.lookup rid s = some o →
    ∀ c ∈ table.columns, isPrimaryKey table c = false →
    c.storageTy ≠ .json → ∀ path ty, Selects table
    (.isNull (.jsonExtract (.reference c) path)) rid o ↔
      fromSurreal (Target.value table rid o (.path c path)) ty = .ok .null
  /-- A JSON `NULL` is not selected. -/
  json : ∀ rid o, AssocMap.lookup rid s = some o → ∀ target : Target,
    target.value table rid o = .null → ¬ Selects table (.isNull target.expr) rid o

omit [Sdk] [Surql] [SqlOrder] in
theorem lookup_recordRow {rid : RecordId} {o : Object} {name : String} (h : name ≠ "id") :
    AssocMap.lookup name (recordRow rid o) = AssocMap.lookup name o :=
    AssocMap.lookup_insert_ne h _ _

omit [Sdk] [Surql] [SqlOrder] in
theorem lookup_recordRow_id {rid : RecordId} {o : Object} :
    AssocMap.lookup "id" (recordRow rid o) = some rid.value := AssocMap.lookup_insert_self ..

omit [Sdk] [Surql] in
theorem value_of_column {rid : RecordId} {o : Object} {c : Column}
    (hk : isPrimaryKey table c = false) (path : List String) :
    Target.value table rid o (.path c path) =
      path.foldl SqlOrder.field (Object.field (recordRow rid o) c.name) := by
  rw [Target.value, pathValue, columnRef, if_neg (by simp [hk])]
  rfl

omit [Sdk] [Surql] [SqlOrder] in
/-- No column outside the key holds a `NULL`, unless it is native JSON. -/
theorem AllSound.plain (h : AllSound table s nulls) {rid : RecordId} {o : Object}
    (ho : AssocMap.lookup rid s = some o) {c : Column} (hc : c ∈ table.columns)
    (hk : isPrimaryKey table c = false) (hplain : c.storageTy ≠ .json) :
    Object.field (recordRow rid o) c.name ≠ .null ∧
    (Object.field (recordRow rid o) c.name).Dense := by
  by_cases hid : c.name = "id"
  · rw [hid, recordRow_id]
    exact ⟨by simp [RecordId.value], .scalar rfl⟩
  · rw [recordRow_field hid]
    exact ((h rid o ho).cells c hc hk hid).plain hplain

/-- **Null means absent, but for a column called `id`.** After any run of successful writes a
column outside the key is absent exactly when it is null, no object holds a `NULL`, and the
test `IS NONE` selects what decodes to a null, exactly when no column called `id` is null. -/
theorem null_absent_iff [SqlSums] [SqlConcat] [SqlFields] [CastsPresent] (table : Table)
    (s : Records) (nulls : RecordId → NullColumns) (h : Written table s nulls) :
    NullIsAbsent table s nulls ↔ ∀ rid o, AssocMap.lookup rid s = some o → ∀ c ∈ table.columns,
      isPrimaryKey table c = false → c.name = "id" → nulls rid c.id = false := by
  have hsound := h.sound
  constructor
  · intro habsent rid o ho c hc hk hid
    have hiff := habsent.absent rid o ho c hc hk
    rw [hid, lookup_recordRow_id] at hiff
    exact Bool.eq_false_iff.mpr fun hnull => absurd (hiff.mpr hnull) (by simp)
  · intro hids
    refine ⟨fun rid o ho c hc hk hplain => hsound.plain ho hc hk hplain, fun rid o ho c hc hk => ?_,
      fun rid o ho c hc hk => ?_, fun rid o ho c hc hk hplain path ty =>
      ?_, fun rid o ho target hv hsel => ?_⟩
    · by_cases hid : c.name = "id"
      · rw [hid, lookup_recordRow_id, hids rid o ho c hc hk hid]
        simp
      · rw [lookup_recordRow hid, ← (hsound rid o ho).solid.field_none]
        exact ((hsound rid o ho).cells c hc hk hid).absent
    · have htest := @selects_isNull _ _ table rid o (.column c)
      refine htest.trans ?_
      rw [fromSurrealForColumn_null_iff fun hplain => (hsound.plain ho hc hk hplain).1]
      have hvalue : Target.value table rid o (.column c) = Object.field (recordRow rid o) c.name :=
        value_of_column hk []
      rw [hvalue]
    · have htest := @selects_isNull _ _ table rid o (.path c path)
      obtain ⟨hnull, hdense⟩ := hsound.plain ho hc hk hplain
      have hpath : path.foldl SqlOrder.field (Object.field (recordRow rid o) c.name) ≠ .null :=
        path_ne_null hnull fun _ => hdense
      refine htest.trans ?_
      rw [fromSurreal_null_iff, value_of_column hk]
      exact ⟨.inl, fun h => h.resolve_right hpath⟩
    · rw [selects_isNull, hv] at hsel
      exact absurd hsel (by simp)

end

/-! ## A note and a job -/

theorem countingSurql_sums : @SqlSums countingSurql :=
  let := countingSurql
  have hchecked : ∀ {f : Int → Int → Int} {v w z : SurValue}, Plain.checked f v w = .ok z →
      z.isScalar = true ∧ z ≠ .none ∧ z ≠ .null := by
    intro f v w z h
    unfold Plain.checked at h
    split at h
    · split at h
      · injection h with h; subst h
        exact ⟨rfl, by simp, by simp⟩
      · exact absurd h (by simp)
    · exact absurd h (by simp)
  { add := fun {v w z} h => by
      have hplus : Plain.plus v w = .ok z := h
      unfold Plain.plus at hplus
      split at hplus
      · injection hplus with hz; subst hz
        exact .scalar rfl (by simp) (by simp)
      · obtain ⟨hscalar, hnone, hnull⟩ := hchecked hplus
        exact .scalar hscalar hnone hnull
    sub := fun h => hchecked h }

theorem plain_castsPresent : @CastsPresent plain :=
  let := plain
  { cast_ne_null := fun _ _ => by simp [Sdk.cast] }

theorem plainOrder_fields : @SqlFields plainOrder :=
  let := plainOrder
  { field_other := fun {v} name h => by
      cases v with
      | object fields => exact absurd rfl (h fields)
      | _ => exact .inl rfl }

/-- The insert of a row whose second column is null. -/
def insertNull : Insert := ⟨[⟨0, 0⟩, ⟨0, 1⟩], some [[some (.i64 1), some .null]], none⟩

/-- A column called `id` that is null is there all the same. -/
theorem id_never_absent : let := plain
    let := countingSurql
    let := plainOrder
    ∃ nulls, Written notes [(⟨"notes", .number 1⟩, [])] nulls ∧
      ¬ NullIsAbsent notes [(⟨"notes", .number 1⟩, [])] nulls := by
  let := plain
  let := countingSurql
  let := plainOrder
  have hrun : (execInsert .new notes insertNull false).Runs recordStore.Handle []
      [(⟨"notes", .number 1⟩, [])] (.ok (.count 1)) := execInsert_single rfl rfl
  refine ⟨_, .insert (.empty fun _ _ => false) rfl ⟨by decide, by decide⟩ hrun, fun habsent => ?_⟩
  have hiff := habsent.absent ⟨"notes", .number 1⟩ [] rfl ⟨⟨0, 1⟩, "id", .i64, .integer 8⟩
    (by decide) rfl
  exact absurd (hiff.mpr rfl) (by simp [recordRow, AssocMap.insert, AssocMap.lookup])

/-- An upsert of a job that is due. -/
def scheduleJob : Upsert :=
  ⟨⟨[⟨0, 0⟩, ⟨0, 1⟩], some [[some (.i64 2), some (.i64 5)]], none⟩,
    some ⟨some [⟨0, 0⟩], .update, [], []⟩⟩

/-- An update of a job's due date. -/
def setDue (key due : Value) : UpdateByKey := ⟨[key], [(⟨0, 1⟩, .set due)], none, none, none⟩

/-- Of two jobs that were written in turn, the one without a due date has none. -/
theorem due_absent : let := plain
    let := countingSurql
    let := plainOrder
    ∃ nulls, Written jobs
    [(⟨"jobs", .number 1⟩, [("due", .number (.int 7))]), (⟨"jobs", .number 2⟩, [])] nulls ∧
      NullIsAbsent jobs [(⟨"jobs", .number 1⟩, [("due", .number (.int 7))]),
        (⟨"jobs", .number 2⟩, [])] nulls := by
  let := plain
  let := countingSurql
  let := plainOrder
  have := countingSurql_sums
  have := countingSurql_concat
  have := plain_castsPresent
  have := plainOrder_fields
  -- inserted without a date, another upserted with one, the first scheduled, the other put off
  have hinsert : (execInsert .new jobs insertNull false).Runs recordStore.Handle []
      [(⟨"jobs", .number 1⟩, [])] (.ok (.count 1)) := execInsert_single rfl rfl
  have hupsert : (execUpsert .new jobs scheduleJob).Runs recordStore.Handle
      [(⟨"jobs", .number 1⟩, [])]
      [(⟨"jobs", .number 1⟩, []), (⟨"jobs", .number 2⟩, [("due", .number (.int 5))])]
      (.ok (.count 1)) :=
    ⟨_, _, .inr ⟨⟨"jobs", .number 2⟩, _, rfl, rfl, rfl, rfl⟩, rfl, rfl⟩
  have hdue : (execUpdateByKey .new jobs (setDue (.i64 1) (.i64 7))).Runs recordStore.Handle
      [(⟨"jobs", .number 1⟩, []), (⟨"jobs", .number 2⟩, [("due", .number (.int 5))])]
      [(⟨"jobs", .number 1⟩, [("due", .number (.int 7))]),
        (⟨"jobs", .number 2⟩, [("due", .number (.int 5))])]
      (.ok (.count 1)) :=
    ⟨_, _, .inr ⟨⟨"jobs", .number 1⟩, rfl, .inl ⟨_, _, rfl, rfl, rfl, rfl, rfl⟩⟩, rfl, rfl⟩
  have hoff : (execUpdateByKey .new jobs (setDue (.i64 2) .null)).Runs recordStore.Handle
      [(⟨"jobs", .number 1⟩, [("due", .number (.int 7))]),
        (⟨"jobs", .number 2⟩, [("due", .number (.int 5))])]
      [(⟨"jobs", .number 1⟩, [("due", .number (.int 7))]), (⟨"jobs", .number 2⟩, [])]
      (.ok (.count 1)) :=
    ⟨_, _, .inr ⟨⟨"jobs", .number 2⟩, rfl, .inl ⟨_, _, rfl, rfl, rfl, rfl, rfl⟩⟩, rfl, rfl⟩
  have hsharing : scheduleJob.Sharing jobs ⟨some [⟨0, 0⟩], .update, [], []⟩ :=
    ⟨by decide, by decide, by decide, by decide⟩
  have hassigning : ∀ key due, (setDue key due).Assigning jobs := fun _ _ =>
    ⟨by simp [setDue, jobs], by simp [setDue]⟩
  have hwritten := (((Written.insert (.empty fun _ _ => false) rfl
    ⟨by decide, by decide⟩ hinsert).upsert rfl rfl
    hsharing hupsert).update (hassigning _ _) ⟨⟨_, rfl, rfl⟩, rfl, rfl⟩ hdue).update
    (hassigning _ _)
      ⟨⟨_, rfl, rfl⟩, rfl, rfl⟩ hoff
  refine ⟨_, hwritten, (null_absent_iff jobs _ _ hwritten).mpr fun rid o ho c hc hk hid => ?_⟩
  rcases List.mem_cons.mp hc with rfl | hc
  · exact absurd hk (by decide)
  · rw [List.mem_singleton.mp hc] at hid
    exact absurd hid (by decide)

end ToastySurreal
