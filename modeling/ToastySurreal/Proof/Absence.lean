import ToastySurreal.Proof.Nulls
import ToastySurreal.Proof.OneRecord
import ToastySurreal.Proof.UpsertCreates

/-!
# Null means absent

A column that is null has no field in its record, and a column that is not null has one
that holds no `NULL`; within a document no member at any depth is `NULL` or `NONE`. A
native-JSON column is the exception, where `NULL` is the JSON literal. Every write keeps
it so, by other means each: an insert leaves the column out, an update assigns `NONE`, an
upsert skips the source's value. `Written` follows the runs of writes and what the writer
has made null; `Written.sound` is the invariant.
-/

namespace ToastySurreal

open Results Prog

/-! ## Values without nulls inside -/

/-- Neither a list nor an object. -/
def SurValue.isScalar : SurValue → Bool
  | .array _ | .object _ => false
  | _ => true

/-- No object at any depth has a member that is `NULL` or `NONE`. -/
inductive SurValue.Dense : SurValue → Prop where
  | scalar {v : SurValue} (h : v.isScalar = true) : Dense v
  | array {items : List SurValue} (h : ∀ v ∈ items, Dense v) : Dense (.array items)
  | object {fields : Object} (h : ∀ m ∈ fields, Dense m.2)
      (hpresent : ∀ m ∈ fields, m.2 ≠ .null ∧ m.2 ≠ .none) : Dense (.object fields)

theorem dense_append {xs ys : List SurValue} (hx : (SurValue.array xs).Dense)
    (hy : (SurValue.array ys).Dense) : (SurValue.array (xs ++ ys)).Dense := by
  cases hx with
  | scalar h => exact absurd h (by simp [SurValue.isScalar])
  | array hx =>
      cases hy with
      | scalar h => exact absurd h (by simp [SurValue.isScalar])
      | array hy =>
          refine .array fun v hv => ?_
          rcases List.mem_append.mp hv with hv | hv
          · exact hx v hv
          · exact hy v hv

section

variable [Sdk]

mutual

/-- **What is encoded has no null inside an object.** -/
theorem toSurreal_dense : ∀ {v : Value} {s : SurValue}, toSurreal v = .ok s → s.Dense
  | .list items, s, h | .record items, s, h => by
      rw [toSurreal] at h
      obtain ⟨out, hout, hok⟩ := bind_eq_ok h
      injection hok with hok; subst hok
      exact .array (toSurrealList_dense items hout)
  | .object entries, s, h => by
      rw [toSurreal] at h
      obtain ⟨out, hout, hok⟩ := bind_eq_ok h
      injection hok with hok; subst hok
      have hfields := toSurrealEntries_dense entries hout
        (fun m hm => absurd hm List.not_mem_nil) (fun m hm => absurd hm List.not_mem_nil)
      exact .object hfields.1 hfields.2
  | .u64 v, s, h => by
      rw [toSurreal] at h
      split at h <;> (injection h with h; subst h; exact .scalar rfl)
  | .text kind code, s, h => by
      rw [toSurreal] at h
      split at h
      · injection h with h; subst h; exact .scalar rfl
      · exact absurd h (by simp)
  | .null, s, h | .bool v, s, h | .i8 v, s, h | .i16 v, s, h | .i32 v, s, h | .i64 v, s, h
  | .u8 v, s, h | .u16 v, s, h | .u32 v, s, h | .f32 v, s, h | .f64 v, s, h | .string v, s, h
  | .bytes v, s, h | .uuid v, s, h => by
      injection h with h; subst h; exact .scalar rfl

theorem toSurrealList_dense : ∀ (vs : List Value) {out : List SurValue}, toSurrealList vs =
    .ok out → ∀ s ∈ out, s.Dense
  | [], out, h, s, hs => by
      injection h with h; subst h
      exact absurd hs List.not_mem_nil
  | v :: vs, out, h, s, hs => by
      rw [toSurrealList] at h
      obtain ⟨item, hitem, h₁⟩ := bind_eq_ok h
      obtain ⟨rest, hrest, hok⟩ := bind_eq_ok h₁
      injection hok with hok; subst hok
      rcases List.mem_cons.mp hs with rfl | hs
      · exact toSurreal_dense hitem
      · exact toSurrealList_dense vs hrest s hs

theorem toSurrealEntries_dense : ∀ (entries : List (String × Value)) {o out : Object},
    toSurrealEntries entries o = .ok out → (∀ m ∈ o, m.2.Dense) →
    (∀ m ∈ o, m.2 ≠ .null ∧ m.2 ≠ .none) →
    (∀ m ∈ out, m.2.Dense) ∧ ∀ m ∈ out, m.2 ≠ .null ∧ m.2 ≠ .none
  | [], o, out, h, hdense, hpresent => by
      injection h with h; subst h
      exact ⟨hdense, hpresent⟩
  | (name, v) :: entries, o, out, h, hdense, hpresent => by
      rw [toSurrealEntries] at h
      split at h
      · exact toSurrealEntries_dense entries h hdense hpresent
      · rename_i hnull
        obtain ⟨item, hitem, hrest⟩ := bind_eq_ok h
        have hmember : ∀ m ∈ AssocMap.insert name item o, m.2 = item ∨ m ∈ o := by
          intro m hm
          exact (AssocMap.mem_insert hm).imp_left fun h => by rw [h]
        refine toSurrealEntries_dense entries hrest (fun m hm => ?_) fun m hm => ?_
        · rcases hmember m hm with heq | hm
          · rw [heq]; exact toSurreal_dense hitem
          · exact hdense m hm
        · rcases hmember m hm with heq | hm
          · rw [heq]
            refine ⟨fun hs => hnull (Value.isNull_iff.mpr ?_), toSurreal_ne_none hitem⟩
            exact toSurreal_eq_null (hs ▸ hitem)
          · exact hpresent m hm

end

end

section

variable [Sdk] [Surql]

/-! ## Sums -/

/-- What a sum is of: numbers, texts or times, or two collections that are joined. -/
inductive SumOf : SurValue → SurValue → SurValue → Prop where
  | scalar {v w z : SurValue} (hz : z.isScalar = true) (hnone : z ≠ .none) (hnull : z ≠ .null) :
      SumOf v w z
  | lists (xs ys : List SurValue) : SumOf (.array xs) (.array ys) (.array (xs ++ ys))
  | start (ys : List SurValue) : SumOf .none (.array ys) (.array ys)
  | objects {fs gs fields : Object} (h : ∀ m ∈ fields, m ∈ fs ∨ m ∈ gs) :
      SumOf (.object fs) (.object gs) (.object fields)

/-- SurrealQL's `+` and `-`: there is no sum with a `NULL`, and none that is one. -/
class SqlSums : Prop where
  add : ∀ {v w z : SurValue}, Surql.add v w = .ok z → SumOf v w z
  sub : ∀ {v w z : SurValue}, Surql.sub v w = .ok z → z.isScalar = true ∧ z ≠ .none ∧ z ≠ .null

omit [Sdk] [Surql] in
theorem SumOf.present {v w z : SurValue} (h : SumOf v w z) : z ≠ .none ∧ z ≠ .null := by
  cases h with
  | scalar _ hnone hnull => exact ⟨hnone, hnull⟩
  | lists | start | objects => exact ⟨by simp, by simp⟩

omit [Sdk] [Surql] in
theorem SumOf.dense {v w z : SurValue} (h : SumOf v w z) (hv : v.Dense) (hw : w.Dense) :
    z.Dense := by
  cases h with
  | scalar hz => exact .scalar hz
  | lists xs ys => exact dense_append hv hw
  | start ys => exact hw
  | objects h =>
      cases hv with
      | scalar hs => exact absurd hs (by simp [SurValue.isScalar])
      | object hfs hfs' =>
          cases hw with
          | scalar hs => exact absurd hs (by simp [SurValue.isScalar])
          | object hgs hgs' =>
              refine .object (fun m hm => ?_) fun m hm => ?_
              · rcases h m hm with hm | hm
                · exact hfs m hm
                · exact hgs m hm
              · rcases h m hm with hm | hm
                · exact hfs' m hm
                · exact hgs' m hm

/-! ## What a column holds -/

/-- What a record has for a column that is null, or is not. -/
structure Cell (c : Column) (v : SurValue) (null : Bool) : Prop where
  absent : v = .none ↔ null = true
  plain : c.storageTy ≠ .json → v ≠ .null ∧ v.Dense

omit [Sdk] [Surql] in
theorem Cell.empty (c : Column) : Cell c .none true :=
  ⟨by simp, fun _ => ⟨by simp, .scalar rfl⟩⟩

omit [Sdk] [Surql] in
theorem Cell.present {c : Column} {v : SurValue} (hnone : v ≠ .none)
    (hplain : c.storageTy ≠ .json → v ≠ .null ∧ v.Dense) : Cell c v false :=
  ⟨by simp [hnone], hplain⟩

omit [Surql] in
theorem toSurrealForColumn_dense {c : Column} {v : Value} {s : SurValue} (hc : c.storageTy ≠ .json)
    (h : toSurrealForColumn v c = .ok s) : s.Dense := by
  rw [toSurrealForColumn, toSurrealWithStorage, if_neg (by simpa using hc)] at h
  exact toSurreal_dense h

omit [Surql] in
/-- A value that is stored is present. -/
theorem Cell.stored {c : Column} {v : Value} {s : SurValue} (hv : v.isNull = false)
    (h : toSurrealForColumn v c = .ok s) : Cell c s false := by
  refine .present (toSurrealWithStorage_ne_none hv h) fun hc =>
    ⟨fun hs => ?_, toSurrealForColumn_dense hc h⟩
  rw [toSurrealForColumn, toSurrealWithStorage, if_neg (by simpa using hc), hs] at h
  rw [toSurreal_eq_null h] at hv
  exact absurd hv (by simp [Value.isNull])

/-- The assignment makes the column null. -/
def Assignment.nulls : Assignment → Bool
  | .set v => v.isNull
  | _ => false

/-- **An assignment keeps null absent.** -/
theorem Assigns.cell [SqlSums] {c : Column} {x z : SurValue} {a : Assignment}
    (hx : c.storageTy ≠ .json → x.Dense) (h : Assigns c x z a) : Cell c z a.nulls := by
  cases a with
  | set v =>
      rw [Assigns] at h
      rw [Assignment.nulls]
      split at h
      · rename_i hv
        rw [h, hv]
        exact .empty c
      · rename_i hv
        have hv : v.isNull = false := Bool.not_eq_true _ ▸ hv
        rw [hv]
        exact .stored hv h
  | add v =>
      obtain ⟨w, hw, hz⟩ := h
      have hsum := SqlSums.add hz
      exact .present hsum.present.1 fun hc =>
        ⟨hsum.present.2, hsum.dense (hx hc) (toSurrealForColumn_dense hc hw)⟩
  | subtract v =>
      obtain ⟨w, _, hz⟩ := h
      obtain ⟨hscalar, hnone, hnull⟩ := SqlSums.sub hz
      exact .present hnone fun _ => ⟨hnull, .scalar hscalar⟩
  | append v =>
      obtain ⟨w, hw, hz⟩ := h
      obtain ⟨ys, rfl, hys⟩ := appended_array hw
      have hsum := SqlSums.add hz
      exact .present hsum.present.1 fun hc =>
        ⟨hsum.present.2, hsum.dense (hx hc) (.array (toSurrealList_dense _ hys))⟩
  | other debug => exact h.elim

omit [Sdk] [Surql] in
theorem coalesce_dense {x d : SurValue} (hx : x.Dense) (hd : d.Dense) : (coalesce x d).Dense := by
  unfold coalesce
  split
  · exact hd
  · exact hd
  · exact hx

/-- **A shared mutation keeps null absent.** -/
theorem Mutates.cell [SqlSums] [SqlConcat] {c : Column} {default : Option Assignment}
    {x z : SurValue} {a : Assignment} (hx : c.storageTy ≠ .json → x.Dense)
    (h : Mutates c default x z a) : Cell c z a.nulls := by
  have hbase : ∀ {d : SurValue}, DefaultIs c default d → c.storageTy ≠ .json →
      (coalesce x d).Dense := by
    intro d hd hc
    obtain ⟨v, _, hv⟩ := hd
    exact coalesce_dense (hx hc) (toSurrealForColumn_dense hc hv)
  cases a with
  | set v => exact Assigns.cell hx h
  | add v | subtract v =>
      obtain ⟨d, hd, hassign⟩ := h
      exact Assigns.cell (hbase hd) hassign
  | append v =>
      obtain ⟨d, w, hd, hw, hz⟩ := h
      obtain ⟨ys, rfl, hys⟩ := appended_array hw
      obtain ⟨xs, ys', hxs, hy, rfl⟩ := SqlConcat.concat_array hz
      injection hy with hy; subst hy
      refine .present (by simp) fun hc => ⟨by simp, ?_⟩
      have hleft := hbase hd hc
      rw [hxs] at hleft
      exact dense_append hleft (.array (toSurrealList_dense _ hys))
  | other debug => exact h.elim

/-! ## Nothing is stored as `NONE` -/

/-- No field holds `NONE`. -/
def Solid (o : Object) : Prop := ∀ name, AssocMap.lookup name o ≠ some .none

omit [Sdk] [Surql] in
theorem solid_nil : Solid [] := fun _ => by simp

omit [Sdk] [Surql] in
theorem Solid.insert {o : Object} (h : Solid o) (name : String) {v : SurValue} (hv : v ≠ .none) :
    Solid (AssocMap.insert name v o) := by
  intro other
  by_cases hname : other = name
  · rw [hname, AssocMap.lookup_insert_self]
    simpa using hv
  · rw [AssocMap.lookup_insert_ne hname]
    exact h other

omit [Sdk] [Surql] in
theorem Solid.set {o : Object} (h : Solid o) (name : String) (v : SurValue) :
    Solid (o.set name v) := by
  cases v with
  | none =>
      intro other
      rw [Object.set]
      by_cases hname : other = name
      · rw [hname, AssocMap.lookup_erase_self]
        simp
      · rw [AssocMap.lookup_erase_ne hname]
        exact h other
  | _ => exact h.insert name (by simp)

omit [Sdk] [Surql] in
/-- Without a stored `NONE`, a field that reads as `NONE` is not there. -/
theorem Solid.field_none {o : Object} (h : Solid o) {name : String} :
    Object.field o name = .none ↔ AssocMap.lookup name o = none := by
  have hn := h name
  rw [Object.field]
  cases hl : AssocMap.lookup name o with
  | none => simp
  | some v => rw [hl] at hn; simpa using hn

omit [Sdk] in
theorem applySets_solid {q : Query} {rid : RecordId} : ∀ {sets : List SetClause} {o o' : Object},
    Solid o → applySets q rid sets o = .ok o' → Solid o'
  | [], o, o', ho, h => by injection h with h; rw [← h]; exact ho
  | clause :: sets, o, o', ho, h => by
      rw [applySets] at h
      obtain ⟨v, _, hrest⟩ := bind_eq_ok h
      exact applySets_solid (ho.set clause.name v) hrest

omit [Sdk] [Surql] in
theorem mergeObject_solid : ∀ {fields : List (String × SurValue)} {o : Object}, Solid o →
    Solid (mergeObject o fields)
  | [], _, h => h
  | (name, v) :: fields, _, h => @mergeObject_solid fields _ (h.set name v)

omit [Surql] in
theorem splitRow_solid {op : String} {table : Table} {row : Row} : ∀ {columns : List ColumnId}
    {position : Nat} {content content' : Object} {pk pk' : List (Nat × Value)}, Solid content →
    splitRow op table row columns position content pk = .ok (content', pk') → Solid content'
  | [], _, _, _, _, _, hs, h => by
      injection h with h; injection h with h _
      rw [← h]; exact hs
  | cid :: columns, position, content, content', pk, pk', hs, h => by
      rw [splitRow] at h
      obtain ⟨v, _, h⟩ := bind_eq_ok h
      split at h
      · exact splitRow_solid hs h
      · split at h
        · exact splitRow_solid hs h
        · rename_i hnull
          obtain ⟨stored, hstored, h⟩ := bind_eq_ok h
          have hv : v.isNull = false := Bool.not_eq_true _ ▸ hnull
          exact splitRow_solid (hs.insert _ (toSurrealWithStorage_ne_none hv hstored)) h

omit [Sdk] in
/-- A statement stores no `NONE`. -/
theorem solid_step {s s' : Records} {q : Query} {r : Reply}
    (hq : ∀ returnAfter, q.sql = .create returnAfter →
    ∀ o, q.param "data" = .object o → Solid o)
    (hs : ∀ rid o, AssocMap.lookup rid s = some o → Solid o)
    (h : Records.exec s q r s') : ∀ rid o, AssocMap.lookup rid s' = some o → Solid o := by
  rcases Records.exec_changes h with rfl | ⟨rid, rfl⟩ | ⟨rid, o, _, hput, rfl⟩
  · exact hs
  · intro rid' o' ho'
    by_cases hrid : rid' = rid
    · rw [hrid, AssocMap.lookup_erase_self] at ho'
      exact absurd ho' (by simp)
    · rw [AssocMap.lookup_erase_ne hrid] at ho'
      exact hs rid' o' ho'
  · have ho : Solid o := by
      -- what a statement stores comes from the bound content or from clauses applied to a
      -- stored record
      cases hput with
      | create hsql ho _ => exact hq _ hsql o ho
      | update _ ho _ happly => exact applySets_solid (hs rid _ ho) happly
      | @upsert body _ _ _ happly =>
          have hbase : Solid ((AssocMap.lookup rid s).getD []) := by
            cases ho : AssocMap.lookup rid s with
            | none => exact solid_nil
            | some o => exact hs rid o ho
          cases body with
          | set sets => exact applySets_solid hbase happly
          | merge p =>
              rw [applyBody] at happly
              split at happly
              · injection happly with happly
                rw [← happly]
                exact mergeObject_solid hbase
              · exact absurd happly (by simp)
    intro rid' o' ho'
    by_cases hrid : rid' = rid
    · rw [hrid, AssocMap.lookup_insert_self] at ho'
      injection ho' with ho'; rw [← ho']; exact ho
    · rw [AssocMap.lookup_insert_ne hrid] at ho'
      exact hs rid' o' ho'

/-! ## Runs of writes -/

variable {table : Table} {q : Query} {rid : RecordId}

/-- The columns of an insert are columns of its table, each at most once. -/
structure Insert.Known (table : Table) (insert : Insert) : Prop where
  nodup : insert.columns.Nodup
  known : ∀ cid ∈ insert.columns, cid ∈ table.columns.map Column.id

/-- Which columns of a record are null, as they were written. -/
abbrev NullColumns := ColumnId → Bool

/-- An insert of a row. -/
def rowNulls (columns : List ColumnId) (row : Row) : NullColumns := fun cid =>
    (valueOf row columns cid).isNull

/-- An insert of rows, one after another. -/
def insertNulls (table : Table) (columns : List ColumnId) (nulls : RecordId → NullColumns) :
    List Row → RecordId → NullColumns
  | [] => nulls
  | row :: rows =>
      match buildRow "insert" table columns row with
      | .ok (rid, _) =>
          insertNulls table columns (Function.update nulls rid (rowNulls columns row)) rows
      | .error _ => insertNulls table columns nulls rows

/-- An update of a record. -/
def updateNulls (op : UpdateByKey) (nulls : NullColumns) : NullColumns := fun cid =>
  match mutationOf op.assignments cid with
  | some a => a.nulls
  | none => nulls cid

/-- An upsert of a record that is there, or not. -/
def upsertNulls (op : Upsert) (clause : UpsertClause) (row : Row) (before : Option NullColumns) :
    NullColumns :=
  match clause.action with
  | .update => fun cid =>
      match mutationOf clause.shared cid with
      | some a => a.nulls
      -- the source fills in what is null
      | none => before.elim true (fun nulls => nulls cid) && rowNulls op.insert.columns row cid
  | .ignore => before.getD (rowNulls op.insert.columns row)

/-- **A run of successful writes to a table**, and which columns are null after it. -/
inductive Written (table : Table) : Records → (RecordId → NullColumns) → Prop where
  | empty (nulls : RecordId → NullColumns) : Written table [] nulls
  | insert {s s' : Records} {nulls : RecordId → NullColumns} {conn : Connection} {insert : Insert}
      {rows : List Row} {ret : Bool} {resp : ExecResponse} (h : Written table s nulls)
      (hvalues : insert.values = some rows) (hop : insert.Known table)
      (hrun : (execInsert conn table insert ret).Runs recordStore.Handle s s' (.ok resp)) :
      Written table s' (insertNulls table insert.columns nulls rows)
  | update {s s' : Records} {nulls : RecordId → NullColumns} {conn : Connection} {op : UpdateByKey}
      {rid : RecordId} {o : Object} {resp : ExecResponse} (h : Written table s nulls)
      (hop : op.Assigning table) (hm : Matches table op.keys [op.filter, op.condition] s rid o)
      (hrun : (execUpdateByKey conn table op).Runs recordStore.Handle s s' (.ok resp)) :
      Written table s' (Function.update nulls rid (updateNulls op (nulls rid)))
  /-- No record matches the update. -/
  | miss {s s' : Records} {nulls : RecordId → NullColumns} {conn : Connection} {op : UpdateByKey}
      {resp : ExecResponse} (h : Written table s nulls) (hop : op.Assigning table)
      (hm : ¬ ∃ rid o, Matches table op.keys [op.filter, op.condition] s rid o)
      (hrun : (execUpdateByKey conn table op).Runs recordStore.Handle s s' (.ok resp)) :
      Written table s' nulls
  | upsert {s s' : Records} {nulls : RecordId → NullColumns} {conn : Connection} {op : Upsert}
      {clause : UpsertClause} {row : Row} {rid : RecordId} {content : Object} {resp : ExecResponse}
      (h : Written table s nulls) (hsource : upsertSource table op = .ok (clause, row))
      (hbuild : buildRow "upsert" table op.insert.columns row = .ok (rid, content))
      (hop : op.Sharing table clause)
      (hrun : (execUpsert conn table op).Runs recordStore.Handle s s' (.ok resp)) :
      Written table s' (Function.update nulls rid
        (upsertNulls op clause row ((AssocMap.lookup rid s).map fun _ => nulls rid)))
  | delete {s s' : Records} {nulls : RecordId → NullColumns} {conn : Connection} {op : DeleteByKey}
      {resp : ExecResponse} (h : Written table s nulls)
      (hrun : (execDeleteByKey conn table op).Runs recordStore.Handle s s' (.ok resp)) :
      Written table s' nulls

/-- What a record has for the columns outside the key. -/
structure Sound (table : Table) (o : Object) (nulls : NullColumns) : Prop where
  solid : Solid o
  cells : ∀ c ∈ table.columns, isPrimaryKey table c = false → c.name ≠ "id" →
    Cell c (Object.field o c.name) (nulls c.id)

/-- All records are sound. -/
def AllSound (table : Table) (s : Records) (nulls : RecordId → NullColumns) : Prop :=
  ∀ rid o, AssocMap.lookup rid s = some o → Sound table o (nulls rid)

omit [Surql] in
/-- **What an insert stores of a row.** -/
theorem content_sound {op : String} {columns : List ColumnId} {row : Row} {content : Object}
    (hn : columns.Nodup) (hids : ∀ cid ∈ columns, cid ∈ table.columns.map Column.id)
    (h : buildRow op table columns row = .ok (rid, content)) : Sound table content
    (rowNulls columns row) := by
  constructor
  · obtain ⟨⟨content', pk⟩, hsplit, hrest⟩ := bind_eq_ok h
    obtain ⟨rid', _, hok⟩ := bind_eq_ok hrest
    injection hok with hok; injection hok with _ hcontent; subst hcontent
    exact splitRow_solid solid_nil hsplit
  · intro c hc hk hid
    obtain ⟨hstored, habsent⟩ := buildRow_content hn hids h hc hk
    rw [rowNulls, Object.field]
    cases hnull : (valueOf row columns c.id).isNull with
    | true =>
        rw [habsent (Value.isNull_iff.mp hnull)]
        exact .empty c
    | false =>
        have hne : valueOf row columns c.id ≠ .null := fun h => by
          rw [h] at hnull; exact absurd hnull (by simp [Value.isNull])
        obtain ⟨s, hs, hlookup⟩ := hstored hne
        rw [hlookup]
        exact .stored hnull hs

omit [Sdk] [Surql] in
theorem AllSound.insert {s : Records} {nulls : RecordId → NullColumns} {o : Object}
    {n : NullColumns} (h : AllSound table s nulls) (ho : Sound table o n) :
    AllSound table (AssocMap.insert rid o s) (Function.update nulls rid n) := by
  intro rid' o' ho'
  by_cases hrid : rid' = rid
  · subst hrid
    rw [AssocMap.lookup_insert_self] at ho'
    injection ho' with ho'; subst ho'
    rw [Function.update_self]
    exact ho
  · rw [AssocMap.lookup_insert_ne hrid] at ho'
    rw [Function.update_of_ne hrid]
    exact h rid' o' ho'

variable {s s' : Records} {nulls : RecordId → NullColumns} {conn : Connection}

omit [Sdk] [Surql] in
/-- What is said of a record that is not there does not matter. -/
theorem AllSound.free {n : NullColumns} (h : AllSound table s nulls)
    (hfree : AssocMap.lookup rid s = none) : AllSound table s (Function.update nulls rid n) := by
  intro rid' o ho
  have hrid : rid' ≠ rid := by
    rintro rfl
    rw [hfree] at ho
    exact absurd ho (by simp)
  rw [Function.update_of_ne hrid]
  exact h rid' o ho

/-- **Inserts keep null absent.** -/
theorem insertRows_sound {insert : Insert} {want : Bool} {returning : Option (List Column)}
    (hop : insert.Known table) : ∀ {rows : List Row} {count : Nat} {records : List Value}
    {s : Records}
    {nulls : RecordId → NullColumns} {out : Nat × List Value}, AllSound table s nulls →
    (insertRows conn table insert.columns want returning rows count records).Runs recordStore.Handle
    s s'
      (.ok out) → AllSound table s' (insertNulls table insert.columns nulls rows)
  | [], count, records, s, nulls, out, hs, h => by
      obtain ⟨rfl, _⟩ := h
      exact hs
  | row :: rows, count, records, s, nulls, out, hs, h => by
      rw [insertRows] at h
      obtain ⟨⟨rid, content⟩, hbuild, hrest⟩ := runs_lift_bind_ok.mp h
      obtain ⟨value, s₁, hq, hrest₁⟩ := runs_bind_ok.mp hrest
      obtain ⟨_, hs₁, _⟩ := create_ok.mp (Database.runs_runQuery_ok.mp hq)
      obtain ⟨decoded, _, hrest₂⟩ := runs_lift_bind_ok.mp hrest₁
      subst hs₁
      rw [insertNulls, hbuild]
      exact insertRows_sound hop (hs.insert (content_sound hop.nodup hop.known hbuild)) hrest₂

theorem insert_sound {insert : Insert} {rows : List Row} {ret : Bool} {resp : ExecResponse}
    (hs : AllSound table s nulls) (hvalues : insert.values = some rows) (hop : insert.Known table)
    (h : (execInsert conn table insert ret).Runs recordStore.Handle s s' (.ok resp)) :
    AllSound table s' (insertNulls table insert.columns nulls rows) := by
  unfold execInsert at h
  rw [hvalues] at h
  obtain ⟨returning, _, hrest⟩ := runs_lift_bind_ok.mp h
  obtain ⟨⟨count, records⟩, s₁, hins, hdone⟩ := runs_bind_ok.mp hrest
  obtain ⟨rfl, _⟩ := hdone
  exact insertRows_sound hop hs hins

/-- An update stores no `NONE`. -/
theorem update_solid {op : UpdateByKey} {out : Except Error ExecResponse}
    (hs : ∀ rid o, AssocMap.lookup rid s = some o → Solid o)
    (h : (execUpdateByKey conn table op).Runs recordStore.Handle s s' out) :
    ∀ rid o, AssocMap.lookup rid s' = some o → Solid o := by
  rcases execUpdateByKey_runs h with ⟨rfl, _⟩ | ⟨key, q, r, _, hq, hexec, _⟩
  · exact hs
  · refine solid_step (fun returnAfter hsql => ?_) hs hexec
    have hcond := updateQuery_conditional hq
    rw [Conditional, hsql] at hcond
    exact absurd hcond (by simp [Sql.isConditional])

/-- **Updates keep null absent.** -/
theorem update_sound [SqlSums] {op : UpdateByKey} {o : Object} {resp : ExecResponse}
    (hs : AllSound table s nulls) (hop : op.Assigning table)
    (hm : Matches table op.keys [op.filter, op.condition] s rid o)
    (h : (execUpdateByKey conn table op).Runs recordStore.Handle s s' (.ok resp)) :
    AllSound table s' (Function.update nulls rid (updateNulls op (nulls rid))) := by
  have hsolid := update_solid (fun rid o ho => (hs rid o ho).solid) h
  rcases update_ran hop h with ⟨_, ⟨_, _, hout⟩ | ⟨_, hout⟩⟩ | ⟨key, rid', v, hkeys, hrid, hran, _⟩
  · exact absurd hout (by simp)
  · exact absurd hout (by simp)
  obtain rfl := addressed_unique hkeys hrid hm.key
  cases hran with
  | unmatched hno => exact absurd hm.holds (by rw [hno o hm.record]; decide)
  | @wrote o₁ o' ho _ hassigns hframe =>
      rw [hm.record] at ho
      injection ho with ho; subst ho
      have hbefore := hs rid o hm.record
      refine hs.insert ⟨hsolid rid o' (AssocMap.lookup_insert_self ..), fun c hc hk hid => ?_⟩
      have hcell := hbefore.cells c hc hk hid
      rw [← @recordRow_field rid _ _ hid] at hcell ⊢
      rw [updateNulls]
      cases ha : mutationOf op.assignments c.id with
      | none =>
          rw [hframe c.name (not_assigned_name hop.columns hc ha)]
          exact hcell
      | some a =>
          have hassign := hassigns _ (mutationOf_mem hop.columns hc ha)
          rw [Table.column_id hc] at hassign
          exact (hassign hid).cell fun hplain => (hcell.plain hplain).2

/-- What an upsert that updates makes of a record. -/
theorem upserted_sound [SqlSums] [SqlConcat] {op : Upsert} {clause : UpsertClause} {row : Row}
    {content o o' : Object} {body : UpsertBody} {before : Option NullColumns}
    (hop : op.Sharing table clause) (haction : clause.action = .update)
    (ho : Sound table o fun cid => before.elim true fun nulls => nulls cid)
    (hbuild : buildRow "upsert" table op.insert.columns row = .ok (rid, content))
    (hsent : SentUpsert table op clause row content q body)
    (happly : applyBody q rid o body = .ok o')
    (hsolid : Solid o') : Sound table o' (upsertNulls op clause row before) := by
  refine ⟨hsolid, fun c hc hk hid => ?_⟩
  have hcell := ho.cells c hc hk hid
  rw [← @recordRow_field rid _ _ hid] at hcell ⊢
  rw [upsertNulls, haction]
  dsimp only
  cases hm : mutationOf clause.shared c.id with
  | some a =>
      obtain ⟨z, hz, hfield⟩ :=
        upsertQuery_mutates hop hsent happly (mutationOf_mem hop.shared hc hm)
      rw [Table.column_id hc] at hz hfield
      rw [hfield hid]
      exact hz.cell fun hplain => (hcell.plain hplain).2
  | none =>
      obtain ⟨hstays, hfills⟩ :=
        upsertQuery_fills hop.nodup hop.known hop.shared hbuild hsent happly hc hm
      rw [rowNulls]
      cases hnull : (valueOf row op.insert.columns c.id).isNull with
      | true =>
          rw [hstays (.inr (Value.isNull_iff.mp hnull)), Bool.and_true]
          exact hcell
      | false =>
          have hne : valueOf row op.insert.columns c.id ≠ .null := fun h => by
            rw [h] at hnull; exact absurd hnull (by simp [Value.isNull])
          obtain ⟨s, hs, hfield⟩ := hfills hk hne hid
          have hstored := Cell.stored hnull hs
          rw [hfield, Bool.and_false]
          -- what is there stays, unless it is a JSON `NULL`
          unfold coalesce
          split
          · exact hstored
          · exact hstored
          · rename_i hnone _
            exact .present hnone hcell.plain

/-- **Upserts keep null absent.** -/
theorem upsert_sound [SqlSums] [SqlConcat] {op : Upsert} {clause : UpsertClause} {row : Row}
    {content : Object} {resp : ExecResponse} (hs : AllSound table s nulls)
    (hsource : upsertSource table op = .ok (clause, row))
    (hbuild : buildRow "upsert" table op.insert.columns row = .ok (rid, content))
    (hop : op.Sharing table clause)
    (h : (execUpsert conn table op).Runs recordStore.Handle s s' (.ok resp)) :
    AllSound table s' (Function.update nulls rid
      (upsertNulls op clause row ((AssocMap.lookup rid s).map fun _ => nulls rid))) := by
  cases haction : clause.action with
  | update =>
      rcases execUpsert_update hsource haction hbuild
        h with ⟨_, err, hout⟩ | ⟨returning, q, v, hq, hexec⟩
      · exact absurd hout (by simp)
      obtain ⟨body, hsql, hrid, hsent⟩ := upsertQuery_sent hq
      have hsolid := solid_step (fun returnAfter hcreate => by
        rw [hsql] at hcreate; exact absurd hcreate (by simp))
          (fun rid o ho => (hs rid o ho).solid) hexec
      simp only [Records.exec, hsql, hrid] at hexec
      rcases hexec with ⟨⟨err, herr⟩, _⟩ | ⟨rid', o', hr, happly, rfl, _⟩
      · exact absurd herr (by simp)
      injection hr with hr; subst hr
      refine hs.insert (upserted_sound hop haction ?_ hbuild hsent happly
        (hsolid rid o' (AssocMap.lookup_insert_self ..)))
      cases ho : AssocMap.lookup rid s with
      | none => exact ⟨solid_nil, fun c _ _ _ => .empty c⟩
      | some o => exact hs rid o ho
  | ignore =>
      obtain ⟨rid', content', returning, hattempts⟩ := attempts_of_ok h
      obtain ⟨r, hexec, _⟩ :=
        (runs_ignore ⟨clause, (upsertSource_ok hsource).1, haction⟩ hattempts).mp h
      obtain ⟨clause', row', hsource', hbuild'⟩ := hattempts.built
      rw [hsource] at hsource'
      injection hsource' with hsame; injection hsame with h1 h2; subst h1 h2
      rw [hbuild] at hbuild'
      injection hbuild' with hsame; injection hsame with h1 h2; subst h1 h2
      have hnulls : ∀ before, upsertNulls op clause row before =
          before.getD (rowNulls op.insert.columns row) := fun before => by rw [upsertNulls, haction]
      rw [hnulls]
      cases r with
      | ok v =>
          obtain ⟨hfree, rfl, _⟩ := create_ok.mp hexec
          rw [hfree]
          exact hs.insert (content_sound hop.nodup hop.known hbuild)
      | error err =>
          -- the record was there, or is not
          have hrefused : Records.exec s (createQuery rid content returning.isSome)
              (.error err) s' := hexec
          obtain rfl : s' = s := Records.exec_error hrefused
          cases ho : AssocMap.lookup rid s' with
          | none => exact hs.free ho
          | some o =>
              have hsame : Function.update nulls rid (nulls rid) = nulls :=
                Function.update_eq_self rid nulls
              rw [Option.map_some, Option.getD_some, hsame]
              exact hs

/-- Deletions keep what they leave. -/
theorem delete_sound {op : DeleteByKey} {resp : ExecResponse} (hs : AllSound table s nulls)
    (h : (execDeleteByKey conn table op).Runs recordStore.Handle s s' (.ok resp)) :
    AllSound table s' nulls := by
  rcases delete_removes h with ⟨rfl, _⟩ | hremoves
  · exact hs
  · generalize (Except.ok resp : Except Error ExecResponse) = out at hremoves
    cases hremoves with
    | missed _ => exact hs
    | @removed rid' o _ =>
        intro rid o ho
        by_cases hrid : rid = rid'
        · rw [hrid, AssocMap.lookup_erase_self] at ho
          exact absurd ho (by simp)
        · rw [AssocMap.lookup_erase_ne hrid] at ho
          exact hs rid o ho

/-- **Null means absent after every run of writes.** -/
theorem Written.sound [SqlSums] [SqlConcat] (h : Written table s nulls) :
    AllSound table s nulls := by
  induction h with
  | empty nulls => exact fun _ _ ho => absurd ho (by simp)
  | insert _ hvalues hop hrun ih => exact insert_sound ih hvalues hop hrun
  | update _ hop hm hrun ih => exact update_sound ih hop hm hrun
  | @miss s s' nulls conn op resp _ hop hm hrun ih =>
      rcases update_ran hop
        hrun with ⟨_, ⟨_, _, hout⟩ | ⟨_, hout⟩⟩ | ⟨key, rid, v, hkeys, hrid, hran, _⟩
      · exact absurd hout (by simp)
      · exact absurd hout (by simp)
      · cases hran with
        | unmatched _ => exact ih
        | wrote ho hhold _ _ => exact absurd ⟨_, _, ⟨key, hkeys, hrid⟩, ho, hhold⟩ hm
  | upsert _ hsource hbuild hop hrun ih => exact upsert_sound ih hsource hbuild hop hrun
  | delete _ hrun ih => exact delete_sound ih hrun

end

end ToastySurreal
