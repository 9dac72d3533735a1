import ToastySurreal.Names
import ToastySurreal.Plain
import ToastySurreal.Lib.Lists
import ToastySurreal.Proof.Routing
import ToastySurreal.Proof.Rows

/-!
# What is inserted is read back

An insert that succeeded put every row's record in place, and a read by that key
returns it. Whether the values are the same depends on the schema alone: the raw
field `id` of a record is its record id, so a non-key column of that name reads the
key, a native-JSON key column is decoded as the JSON document its text never was, and a
name with a backtick or a backslash is not the one the projection is read with.
`insert_then_get_iff` says that nothing else goes wrong.
-/

namespace ToastySurreal

open Results Prog Lists

section Survives

variable [Sdk]

/-! ## Values of a column -/

/-- The values a column takes: JSON text or a null for a native-JSON column, otherwise
values of the column's type. -/
def Column.Takes (c : Column) (v : Value) : Prop :=
  if c.storageTy = .json then v = .null ∨ ∃ text, v = .string text else v.HasTy c.ty

/-- A value read for one that was written: JSON text may be serialized anew. -/
def SameValue (c : Column) (written read : Value) : Prop :=
  if c.storageTy = .json then
    (written = .null ∧ read = .null) ∨
      ∃ text text', written = .string text ∧ read = .string text' ∧ JsonSame text text'
  else read = written

omit [Sdk] in
theorem Column.Takes.isRecord {c : Column} {v : Value} (h : c.Takes v) : v.isRecord = false := by
  unfold Column.Takes at h
  split at h
  · rcases h with rfl | ⟨text, rfl⟩ <;> rfl
  · cases v with
    | record items => generalize c.ty = ty at h; cases h
    | _ => rfl

theorem SameValue.null (c : Column) : SameValue c .null .null := by
  unfold SameValue
  split
  · exact .inl ⟨rfl, rfl⟩
  · rfl

/-- A null is read back as a null and as nothing else. -/
theorem SameValue.eq_null {c : Column} {w : Value} (h : SameValue c .null w) : w = .null := by
  unfold SameValue at h
  split at h
  · rcases h with h | ⟨text, text', h, _⟩
    · exact h.2
    · exact absurd h (by simp)
  · exact h

theorem SameValue.of_null {c : Column} {v : Value} (h : SameValue c v .null) : v = .null := by
  unfold SameValue at h
  split at h
  · rcases h with h | ⟨text, text', _, h, _⟩
    · exact h.1
    · exact absurd h (by simp)
  · exact h.symm

/-- An absent field decodes to a null. -/
theorem fromSurrealForColumn_none (c : Column) : fromSurrealForColumn .none c = .ok .null := by
  unfold fromSurrealForColumn fromSurrealWithStorage
  split <;> rfl

/-- What is stored for a column's value decodes to the value. -/
theorem fromSurrealForColumn_same [LawfulSdk] {c : Column} {v : Value} {s : SurValue}
    (ht : c.Takes v) (hnull : v ≠ .null) (h : toSurrealForColumn v c = .ok s) :
    ∃ w, fromSurrealForColumn s c = .ok w ∧ SameValue c v w := by
  unfold toSurrealForColumn toSurrealWithStorage at h
  unfold fromSurrealForColumn fromSurrealWithStorage
  unfold Column.Takes at ht
  by_cases hj : c.storageTy = .json
  · rw [if_pos hj] at ht
    rw [if_pos (by rw [hj])] at h ⊢
    rcases ht with rfl | ⟨text, rfl⟩
    · exact absurd rfl hnull
    · obtain ⟨text', hread, hsame⟩ := surrealJsonToText_jsonTextToSurreal h
      refine ⟨_, hread, ?_⟩
      rw [SameValue, if_pos hj]
      exact .inr ⟨text, text', rfl, rfl, hsame⟩
  · rw [if_neg hj] at ht
    have hsome : ¬ some c.storageTy = some .json := by simpa using hj
    rw [if_neg hsome] at h ⊢
    refine ⟨v, fromSurreal_toSurreal ht h, ?_⟩
    rw [SameValue, if_neg hj]

/-! ## An insert puts its rows in place -/

variable [Surql] {conn : Connection} {table : Table}

omit [Sdk] in
/-- A `CREATE` that succeeded. -/
theorem create_ok {s s' : Records} {rid : RecordId} {content : Object} {returnAfter : Bool}
    {v : SurValue} : Records.exec s (createQuery rid content returnAfter) (.ok v) s' ↔
      AssocMap.lookup rid s = none ∧ s' = AssocMap.insert rid content s ∧
        v = .array [.object (recordRow rid content)] := by
  have hrid : (createQuery rid content returnAfter).recordId "rid" = some rid := rfl
  have hdata : (createQuery rid content returnAfter).param "data" = .object content := rfl
  constructor
  · intro h
    rcases h with ⟨⟨err, herr⟩, _⟩ | ⟨rid', o, hr, ho, hnone, hs, hv⟩
    · exact absurd herr (by simp)
    · rw [hrid] at hr; injection hr with hr; subst hr
      rw [hdata] at ho; injection ho with ho; subst ho
      injection hv with hv
      exact ⟨hnone, hs, hv⟩
  · intro h
    obtain ⟨hnone, hs, rfl⟩ := h
    exact .inr ⟨rid, content, hrid, hdata, hnone, hs, rfl⟩

/-- **Every row of an insert that succeeded has its record**, and the records there were
are untouched. -/
theorem insertRows_ok {columns : List ColumnId} {want : Bool} {returning : Option (List Column)} :
    ∀ {rows : List Row} {count : Nat} {records : List Value} {s s' : Records}
      {out : Nat × List Value},
    (insertRows conn table columns want returning rows count records).Runs recordStore.Handle s s'
      (.ok out) →
    (∀ rid o, AssocMap.lookup rid s = some o → AssocMap.lookup rid s' = some o) ∧
    ∀ row ∈ rows, ∃ rid content, buildRow "insert" table columns row = .ok (rid, content) ∧
      AssocMap.lookup rid s' = some content
  | [], count, records, s, s', out, h => by
      obtain ⟨rfl, _⟩ := h
      exact ⟨fun _ _ ho => ho, fun row hrow => absurd hrow List.not_mem_nil⟩
  | row :: rows, count, records, s, s', out, h => by
      rw [insertRows] at h
      obtain ⟨⟨rid, content⟩, hbuild, hrest⟩ := runs_lift_bind_ok.mp h
      obtain ⟨value, s₁, hq, hrest₁⟩ := runs_bind_ok.mp hrest
      have hexec : Records.exec s (createQuery rid content want) (.ok value) s₁ :=
        Database.runs_runQuery_ok.mp hq
      obtain ⟨hnone, hs₁, _⟩ := create_ok.mp hexec
      obtain ⟨decoded, _, hrest₂⟩ := runs_lift_bind_ok.mp hrest₁
      obtain ⟨hkeep, hrows⟩ := insertRows_ok hrest₂
      subst hs₁
      constructor
      · intro rid' o ho
        -- `CREATE` succeeds only where there is no record, so none is overwritten
        have hne : rid' ≠ rid := by
          rintro rfl
          rw [hnone] at ho
          exact absurd ho (by simp)
        exact hkeep rid' o ((AssocMap.lookup_insert_ne hne content s).trans ho)
      · intro row' hrow
        rcases List.mem_cons.mp hrow with rfl | hrow
        · exact ⟨rid, content, hbuild, hkeep rid content (AssocMap.lookup_insert_self ..)⟩
        · exact hrows row' hrow

theorem execInsert_ok {insert : Insert} {rows : List Row} {ret : Bool} {s s' : Records}
    {resp : ExecResponse} (hrows : insert.values = some rows)
    (h : (execInsert conn table insert ret).Runs recordStore.Handle s s' (.ok resp)) :
    ∀ row ∈ rows, ∃ rid content, buildRow "insert" table insert.columns row = .ok (rid, content) ∧
      AssocMap.lookup rid s' = some content := by
  unfold execInsert at h
  rw [hrows] at h
  obtain ⟨returning, _, hrest⟩ := runs_lift_bind_ok.mp h
  obtain ⟨⟨count, records⟩, s₁, hins, hdone⟩ := runs_bind_ok.mp hrest
  obtain ⟨rfl, _⟩ := hdone
  exact (insertRows_ok hins).2

/-- An insert names its record and its fields in parameters only, so that its text is read as
it is meant. -/
theorem execInsert_text [SqlNames] {insert : Insert} {ret : Bool} {s s' : Records}
    {out : Except Error ExecResponse} :
    (execInsert conn table insert ret).Runs textStore.Handle s s' out ↔
      (execInsert conn table insert ret).Runs recordStore.Handle s s' out := by
  have hstep : ∀ s call r s', Routed conn (insert.Sends table) call →
      (textStore.Handle s call r s' ↔ recordStore.Handle s call r s') := by
    rintro s call r s' ⟨q, rfl, rows, row, rid, content, want, _, _, _, rfl⟩
    have hexec : textStore.exec s (createQuery rid content want) r s' ↔
        recordStore.exec s (createQuery rid content want) r s' := Iff.rfl
    cases conn.transaction with
    | true => exact hexec
    | false => exact hexec
  exact ⟨Runs.view (f := id) (fun s q r s' hq => (hstep s q r s' hq).mp)
    (asks_execInsert insert ret),
    Runs.view (f := id) (fun s q r s' hq => (hstep s q r s' hq).mpr) (asks_execInsert insert ret)⟩

/-! ## Reads by key -/

omit [Surql] in
/-- The parameters of a read by keys. -/
theorem keyBinds_ok : ∀ {keys : List Value} {rids : List RecordId} {i : Nat},
    List.Forall₂ (fun key rid => recordId table key = .ok rid) keys rids →
    ∃ binds, keyBinds table keys i = .ok binds ∧
      binds.map Prod.fst = (List.range' i keys.length).map (fun j => "k" ++ toString j) ∧
      binds.map Prod.snd = rids.map RecordId.value
  | _, _, _, .nil => ⟨[], rfl, rfl, rfl⟩
  | key :: keys, rid :: rids, i, .cons hkey h => by
      obtain ⟨binds, hbinds, hnames, hvalues⟩ := keyBinds_ok (i := i + 1) h
      refine ⟨("k" ++ toString i, rid.value) :: binds, ?_, ?_, ?_⟩
      · rw [keyBinds, hkey, hbinds]; rfl
      · rw [List.map_cons, hnames]; rfl
      · rw [List.map_cons, hvalues]; rfl

omit [Sdk] [Surql] in
/-- Selecting from record ids that are there returns their records in the order of the ids. -/
theorem selectKeysRows_found {projection : List ProjItem} {sql : Sql} {s : Records}
    {all : List (String × SurValue)} (hn : (all.map Prod.fst).Nodup) :
    ∀ {binds : List (String × SurValue)} {recs : Records}, binds ⊆ all →
    binds.map Prod.snd = recs.map (fun rec => rec.1.value) →
    (∀ rec ∈ recs, AssocMap.lookup rec.1 s = some rec.2) →
    selectKeysRows s ⟨sql, all⟩ projection (binds.map Prod.fst) =
      recs.map fun rec => .object (projectRow projection rec.1 rec.2)
  | [], [], _, _, _ => rfl
  | (p, v) :: binds, rec :: recs, hsub, hvalues, hs => by
      obtain ⟨hv, htail⟩ := List.cons.inj hvalues
      obtain rfl : v = rec.1.value := hv
      have hrest : selectKeysRows s ⟨sql, all⟩ projection (binds.map Prod.fst) =
          recs.map fun rec => .object (projectRow projection rec.1 rec.2) :=
        selectKeysRows_found hn (fun b hb => hsub (List.mem_cons_of_mem _ hb)) htail
          fun r hr => hs r (List.mem_cons_of_mem _ hr)
      -- the names of the parameters differ, so each finds its own key
      have hparam : Query.param ⟨sql, all⟩ p = rec.1.value := by
        rw [Query.param, AssocMap.lookup_of_mem hn (hsub List.mem_cons_self)]
        rfl
      have hrid : Query.recordId ⟨sql, all⟩ p = some rec.1 := by
        rw [Query.recordId, hparam]
        rfl
      have hrow : (do
          let rid ← Query.recordId ⟨sql, all⟩ p
          let o ← AssocMap.lookup rid s
          return .object (projectRow projection rid o)) =
            some (SurValue.object (projectRow projection rec.1 rec.2)) := by
        rw [hrid]
        show (AssocMap.lookup rec.1 s).bind _ = _
        rw [hs rec List.mem_cons_self]
        rfl
      unfold selectKeysRows at hrest ⊢
      rw [List.map_cons, List.map_cons, List.filterMap_cons, hrest, hrow]

omit [Surql] in
/-- **A query whose rows are decoded** and nothing else. -/
theorem reading_runs {D : Database} {q : Query} {rows : List SurValue} {select : List Column}
    {s s' : D.State} {out : Except Error ExecResponse}
    (hexec : ∀ r s', D.exec s q r s' ↔ s' = s ∧ r = .ok (.array rows)) :
    (do
      let value ← runQuery conn q
      let records ← .lift (rowsToRecords select (takeRows value))
      .done (.valueStream records) : Action ExecResponse).Runs D.Handle s s' out ↔
      s' = s ∧ out = (rowsToRecords select rows).map .valueStream := by
  have hread : ∀ x : Except Error (List Value), (Prog.lift x >>= fun records =>
      (.done (.valueStream records) : Action ExecResponse)).Runs D.Handle s s' out ↔
        s' = s ∧ out = x.map .valueStream := by
    intro x
    cases x <;> exact Iff.rfl
  refine Iff.trans Database.runs_runQuery_bind ?_
  rw [← hread]
  constructor
  · intro h
    rcases h with ⟨err, hq, _⟩ | ⟨v, s₁, hq, hrest⟩
    · exact absurd ((hexec _ _).mp hq).2 (by simp)
    · obtain ⟨rfl, hv⟩ := (hexec _ _).mp hq
      injection hv with hv; subst hv
      exact hrest
  · intro h
    exact .inr ⟨_, s, (hexec _ _).mpr ⟨rfl, rfl⟩, h⟩

/-- **A read by the keys of records** decodes their projections, in the order of the keys,
and changes nothing. -/
theorem getByKey_runs {select : List ColumnId} {keys : List Value} {recs : Records}
    {s s' : Records} {out : Except Error ExecResponse}
    (hkeys : List.Forall₂ (fun key rec => recordId table key = .ok rec.1) keys recs)
    (hs : ∀ rec ∈ recs, AssocMap.lookup rec.1 s = some rec.2) :
    (execGetByKey conn table ⟨select, keys⟩).Runs recordStore.Handle s s' out ↔
      s' = s ∧ out = (rowsToRecords (select.map table.column) (recs.map fun rec => .object
        (projectRow (projectColumns table (select.map table.column)) rec.1 rec.2))).map
        .valueStream := by
  cases hkeys with
  | nil => exact Iff.rfl
  | @cons key rec keys recs hkey hrest =>
      have hrids : List.Forall₂ (fun key rid => recordId table key = .ok rid) (key :: keys)
          ((rec :: recs).map Prod.fst) := List.forall₂_map_right_iff.mpr (.cons hkey hrest)
      obtain ⟨binds, hbinds, hnames, hvalues⟩ := keyBinds_ok (i := 0) hrids
      have hn : (binds.map Prod.fst).Nodup := by
        rw [hnames]
        exact (List.nodup_range' ..).map fun _ _ h => toString_inj (append_left_cancel h)
      have hrows : ∀ sql projection, selectKeysRows s ⟨sql, binds⟩ projection (binds.map Prod.fst) =
          (rec :: recs).map fun rec => .object (projectRow projection rec.1 rec.2) :=
        fun sql projection => selectKeysRows_found hn (List.Subset.refl binds)
          (by rw [hvalues, List.map_map]; rfl) hs
      rw [execGetByKey, if_neg (by simp), getQuery, hbinds]
      refine reading_runs fun r s' => ?_
      show (s' = s ∧ r = .ok (.array (selectKeysRows s _ _ (binds.map Prod.fst)))) ↔ _
      rw [hrows]

omit [Surql] in
theorem rowsToRecords_single (select : List Column) (row : SurValue) :
    rowsToRecords select [row] = (rowToRecord row select).map fun fields => [.record fields] := by
  rw [rowsToRecords, rowsToRecords]
  cases rowToRecord row select <;> rfl

section Named

variable [SqlNames] {select : List ColumnId} {key : Value} {rid : RecordId} {s s' : Records}
  {out : Except Error ExecResponse}

omit [SqlNames] [Surql] in
/-- The query of a read by one key. -/
theorem getQuery_single (hkey : recordId table key = .ok rid) : getQuery table ⟨select, [key]⟩ = .ok
    ⟨.selectKeys (projectColumns table (select.map table.column)) ["k0"], [("k0", rid.value)]⟩ := by
  rw [getQuery, keyBinds, hkey]
  rfl

/-- **A read whose names do not parse** is refused. -/
theorem execGetByKey_refused (hkey : recordId table key = .ok rid)
    (hread : (projectColumns table (select.map table.column)).mapM ProjItem.read = none) :
    (execGetByKey conn table ⟨select, [key]⟩).Runs textStore.Handle s s' out ↔
      s' = s ∧ ∃ err, out = .error (classifyError err) := by
  have hnone : (Sql.selectKeys (projectColumns table (select.map table.column)) ["k0"]).read =
      none := by
    rw [Sql.read, hread]
    rfl
  rw [execGetByKey, if_neg (by simp), getQuery_single hkey]
  refine Database.runs_runQuery_bind.trans ⟨fun h => ?_, fun h => ?_⟩
  · rcases h with ⟨err, hq, hout⟩ | ⟨v, s₁, hq, _⟩
    · exact ⟨((Records.execText_none hnone).mp hq).eq, err, hout⟩
    · obtain ⟨⟨err, herr⟩, _⟩ := (Records.execText_none hnone).mp hq
      exact absurd herr (by simp)
  · obtain ⟨rfl, err, hout⟩ := h
    exact .inl ⟨err, (Records.execText_none hnone).mpr ⟨⟨err, rfl⟩, rfl⟩, hout⟩

/-- **A read by the key of a record** decodes the record under the names that were read. -/
theorem execGetByKey_runs {o : Object} {items : List ProjItem} (hkey : recordId table key = .ok rid)
    (ho : AssocMap.lookup rid s = some o)
    (hread : (projectColumns table (select.map table.column)).mapM ProjItem.read = some items) :
    (execGetByKey conn table ⟨select, [key]⟩).Runs textStore.Handle s s' out ↔
      s' = s ∧ out = (rowToRecord (.object (projectRow items rid o)) (select.map table.column)).map
        fun fields => .valueStream [.record fields] := by
  have hsome : (Sql.selectKeys (projectColumns table (select.map table.column)) ["k0"]).read =
      some (.selectKeys items ["k0"]) := by
    rw [Sql.read, hread]
    rfl
  have hrows : selectKeysRows s ⟨.selectKeys items ["k0"], [("k0", rid.value)]⟩ items ["k0"] =
      [.object (projectRow items rid o)] := by
    have hrid : Query.recordId ⟨.selectKeys items ["k0"], [("k0", rid.value)]⟩ "k0" = some rid :=
      rfl
    simp [selectKeysRows, hrid, ho]
  have hexec : ∀ r s',
      textStore.exec s ⟨.selectKeys (projectColumns table (select.map table.column)) ["k0"],
      [("k0", rid.value)]⟩ r s' ↔ s' = s ∧ r = .ok (.array [.object (projectRow items rid o)]) := by
    intro r s'
    rw [← hrows]
    exact Records.execText_some (q := ⟨_, _⟩) hsome
  rw [execGetByKey, if_neg (by simp), getQuery_single hkey]
  refine (reading_runs hexec).trans ?_
  rw [rowsToRecords_single]
  cases rowToRecord _ _ <;> rfl

end Named

/-! ## When every value survives -/

/-- The types a record id can be made of. -/
def Ty.isKey : Ty → Bool
  | .i8 | .i16 | .i32 | .i64 | .u8 | .u16 | .u32 | .u64 | .string | .uuid => true
  | _ => false

/-- Some row of the table can be inserted. -/
def Table.Keyable (t : Table) : Prop :=
  match t.primaryKey with
  | [] => False
  | [cid] => (t.column cid).storageTy = .json ∨ (t.column cid).ty.isKey = true
  | _ => True

/-- Every name is read back, no key column is native JSON and no other column is called `id`. -/
structure Table.ReadsTrue (t : Table) : Prop where
  names : ∀ c ∈ t.columns, CleanName c.name
  columns : ∀ c ∈ t.columns, if isPrimaryKey t c then c.storageTy ≠ .json else c.name ≠ "id"

/-- Some value that is not null can be stored in the column. -/
def Column.Fillable (c : Column) : Prop :=
  ∃ v s, v ≠ .null ∧ c.Takes v ∧ toSurrealForColumn v c = .ok s

/-- What Toasty promises about the columns an insert names. -/
structure Targets (table : Table) (columns : List ColumnId) : Prop where
  nodup : columns.Nodup
  known : ∀ cid ∈ columns, cid ∈ table.columns.map Column.id
  keys : ∀ cid ∈ table.primaryKey, cid ∈ columns

/-- The two ways the engine writes a row's key. -/
inductive KeyOf (table : Table) (row : Row) (columns : List ColumnId) : Value → Prop where
  | record : KeyOf table row columns (.record (table.primaryKey.map (valueOf row columns)))
  | scalar {cid : ColumnId} (h : table.primaryKey = [cid]) :
      KeyOf table row columns (valueOf row columns cid)

/-- **What is inserted is read back**: for every insert that succeeds, on any table
contents, and every row of it, a read by the row's key returns one record, and each
selected field is the value the row gave its column. -/
def RoundTrips [SqlNames] (table : Table) : Prop :=
  ∀ (conn : Connection) (insert : Insert) (rows : List Row) (ret : Bool) (s s' : Records)
    (resp : ExecResponse), insert.values = some rows → Targets table insert.columns →
    (∀ row ∈ rows, ∀ p ∈ rowPairs row insert.columns 0, (table.column p.1).Takes p.2) →
    (execInsert conn table insert ret).Runs textStore.Handle s s' (.ok resp) →
    ∀ row ∈ rows, ∀ key, KeyOf table row insert.columns key →
    ∀ select : List ColumnId, (∀ cid ∈ select, cid ∈ table.columns.map Column.id) →
    ∃ fields, (∀ s'' out, (execGetByKey conn table ⟨select, [key]⟩).Runs textStore.Handle s' s''
      out ↔
        s'' = s' ∧ out = .ok (.valueStream [.record fields])) ∧
      List.Forall₂ (fun cid w => SameValue (table.column cid) (valueOf row insert.columns cid) w)
        select fields

section Reads

variable {row : Row} {columns : List ColumnId} {rid : RecordId} {content : Object}

omit [Sdk] [Surql] in
theorem takes_null (c : Column) : c.Takes .null := by
  unfold Column.Takes
  split
  · exact .inl rfl
  · exact .null _

omit [Sdk] [Surql] in
theorem takes_valueOf (hn : columns.Nodup)
    (h : ∀ p ∈ rowPairs row columns 0, (table.column p.1).Takes p.2) (cid : ColumnId) :
    (table.column cid).Takes (valueOf row columns cid) := by
  by_cases hc : cid ∈ columns
  · exact h _ (mem_rowPairs hn hc)
  · rw [valueOf_of_not_mem hc]; exact takes_null _

omit [Surql] in
/-- Both ways of writing a key lead to the row's record id. -/
theorem KeyOf.recordId {key : Value} (hb : Built table row columns rid content)
    (ht : ∀ cid, (table.column cid).Takes (valueOf row columns cid))
    (h : KeyOf table row columns key) : recordId table key = .ok rid := by
  have hrid := hb.rid
  cases h with
  | scalar hpk => rwa [hpk, List.map_cons, List.map_nil, keyRecord] at hrid
  | record => rwa [recordId_wrapped fun cid _ => (ht cid).isRecord]

omit [Surql] in
theorem isKey_of_scalarToKey {v : Value} {ty : Ty} {k : RecordIdKey} (ht : v.HasTy ty)
    (h : scalarToKey v = .ok k) : ty.isKey = true := by
  cases ht <;> first | rfl | exact absurd h (by simp [scalarToKey])

omit [Surql] in
/-- A table into which a row was inserted has a key that records can have. -/
theorem keyable_of_built (hb : Built table row columns rid content)
    (ht : ∀ cid, (table.column cid).Takes (valueOf row columns cid)) : table.Keyable := by
  have hrid := hb.rid
  unfold Table.Keyable
  match hpk : table.primaryKey with
  | [] =>
      rw [hpk, ToastySurreal.recordId, hpk] at hrid
      obtain ⟨k, hk, _⟩ := bind_eq_ok hrid
      exact absurd hk (by simp [keyRecord, recordIdKey])
  | [cid] =>
      rw [hpk, List.map_cons, List.map_nil, keyRecord, ToastySurreal.recordId,
        recordIdKey_scalar (ht cid).isRecord] at hrid
      obtain ⟨k, hk, _⟩ := bind_eq_ok hrid
      by_cases hj : (table.column cid).storageTy = .json
      · exact .inl hj
      · right
        have hty := ht cid
        rw [Column.Takes, if_neg hj] at hty
        exact isKey_of_scalarToKey hty hk
  | c :: d :: cids => trivial

/-- A record as the driver stores it: its id is made of the key's values, and it has no
field for a key column. -/
structure Stored (table : Table) (value : ColumnId → Value) (rid : RecordId) (o : Object) :
    Prop where
  rid : recordId table (keyRecord (table.primaryKey.map value)) = .ok rid
  takes : ∀ cid ∈ table.primaryKey, (table.column cid).Takes (value cid)
  keyless : ∀ c ∈ table.columns, isPrimaryKey table c = true → AssocMap.lookup c.name o = none

omit [Surql] in
/-- What an insert builds is such a record. -/
theorem buildRow_stored {op : String} (ht : Targets table columns)
    (htakes : ∀ p ∈ rowPairs row columns 0, (table.column p.1).Takes p.2)
    (h : buildRow op table columns row = .ok (rid, content)) :
    Stored table (valueOf row columns) rid content := by
  refine ⟨(buildRow_built ht.nodup ht.known ht.keys h).rid,
    fun cid _ => takes_valueOf ht.nodup htakes cid, fun c hc hk => ?_⟩
  unfold buildRow at h
  obtain ⟨⟨content', pk⟩, hsplit, hrest⟩ := bind_eq_ok h
  obtain ⟨rid', _, hok⟩ := bind_eq_ok hrest
  injection hok with hok; injection hok with _ hcontent; subst hcontent
  rw [(splitRow_spec hsplit).2 c.name, AssocMap.lookup_nil]
  intro p hp hname
  have hmem : p.1 ∈ columns := by
    rw [← rowPairs_keys row columns 0]; exact List.mem_map_of_mem hp
  rw [Table.eq_of_name (Table.column_mem (ht.known p.1 hmem)).1 hc hname]
  exact .inl hk

omit [Surql] in
/-- **A column reads its own value** where the schema lets it. -/
theorem column_read [LawfulSdk] {c : Column} (hb : Built table row columns rid content)
    (hc : c ∈ table.columns) (ht : c.Takes (valueOf row columns c.id))
    (hgood : if isPrimaryKey table c then c.storageTy ≠ .json else c.name ≠ "id") :
    ∃ w, fromSurrealForColumn ((projectColumn table c).value rid content) c = .ok w ∧
      SameValue c (valueOf row columns c.id) w := by
  by_cases hk : isPrimaryKey table c = true
  · rw [if_pos hk] at hgood
    have hread := key_read (o := content) (isPrimaryKey_iff.mp hk) ht.isRecord hb.rid
    rw [Column.Takes, if_neg hgood] at ht
    have hsome : ¬ some c.storageTy = some .json := by simpa using hgood
    refine ⟨valueOf row columns c.id, ?_, by rw [SameValue, if_neg hgood]⟩
    rw [projectColumn_key hk, fromSurrealForColumn, fromSurrealWithStorage, if_neg hsome]
    exact fromSurreal_toSurreal ht hread
  · rw [if_neg hk] at hgood
    have hk : isPrimaryKey table c = false := by simpa using hk
    rw [projectColumn_field hk, recordRow_field hgood]
    by_cases hnull : valueOf row columns c.id = .null
    · rw [Object.field, hb.absent c hc hk hnull, hnull]
      exact ⟨.null, fromSurrealForColumn_none c, .null c⟩
    · obtain ⟨s, hs, hl⟩ := hb.stored c hc hk hnull
      rw [Object.field, hl]
      exact fromSurrealForColumn_same ht hnull hs

end Reads

theorem roundTrips_of_readsTrue [SqlNames] [LawfulSdk] (h : table.Keyable → table.ReadsTrue) :
    RoundTrips table := by
  intro conn insert rows ret s s' resp hrows htargets htakes hrun row hrow key hkey select hselect
  obtain ⟨rid, content, hbuild, hstored⟩ := execInsert_ok hrows (execInsert_text.mp hrun) row hrow
  have hb := buildRow_built htargets.nodup htargets.known htargets.keys hbuild
  have ht := takes_valueOf htargets.nodup (htakes row hrow)
  have htrue := h (keyable_of_built hb ht)
  have hread : ∀ cid ∈ select, ∃ w, fromSurrealForColumn ((projectColumn table
      (table.column cid)).value rid content) (table.column cid) = .ok w ∧
        SameValue (table.column cid) (valueOf row insert.columns cid) w := by
    intro cid hcid
    obtain ⟨hmem, hid⟩ := Table.column_mem (hselect cid hcid)
    have hcol := column_read hb hmem (by rw [hid]; exact ht cid) (htrue.columns _ hmem)
    rwa [hid] at hcol
  obtain ⟨fields, hfields⟩ := exists_forall₂ hread
  have hknown : ∀ c ∈ select.map table.column, c ∈ table.columns := by
    intro c hc
    obtain ⟨cid, hcid, rfl⟩ := List.mem_map.mp hc
    exact (Table.column_mem (hselect cid hcid)).1
  have hrecord : rowToRecord (.object (projectRow (projectColumns table (select.map table.column))
      rid content)) (select.map table.column) = .ok fields := by
    rw [rowToRecord_ok, List.forall₂_map_left_iff]
    refine forall₂_imp_mem hfields fun cid hcid w _ hw => ?_
    rw [Object.field, projectRow_read hknown (List.mem_map_of_mem hcid)]
    exact hw.1
  refine ⟨fields, fun s'' out => ?_, hfields.imp fun _ _ hw => hw.2⟩
  have hitems := projectColumns_clean table fun c hc => htrue.names c (hknown c hc)
  refine (execGetByKey_runs (hkey.recordId hb ht) hstored hitems).trans ?_
  rw [hrecord]
  rfl

/-! ## When some value does not -/

section Sample

/-- A key of a type. -/
def sampleKey : Ty → Value
  | .i8 => .i8 0
  | .i16 => .i16 0
  | .i32 => .i32 0
  | .i64 => .i64 0
  | .u8 => .u8 0
  | .u16 => .u16 0
  | .u32 => .u32 0
  | .u64 => .u64 0
  | .string => .string ""
  | .uuid => .uuid ⟨0⟩
  | _ => .null

/-- Key values of a table: a text in every native-JSON column. -/
def sampleValue (table : Table) (text : String) (cid : ColumnId) : Value :=
  if (table.column cid).storageTy = .json then .string text
  else if table.primaryKey.length ≤ 1 then sampleKey (table.column cid).ty else .null

/-- A row of nothing but key values. -/
def sampleRow (table : Table) (text : String) : Row :=
  table.primaryKey.map fun cid => some (sampleValue table text cid)

omit [Sdk] [Surql] in
theorem sampleValue_takes (text : String) (cid : ColumnId) :
    (table.column cid).Takes (sampleValue table text cid) := by
  unfold Column.Takes sampleValue
  split
  · exact .inr ⟨text, rfl⟩
  · split
    · generalize (table.column cid).ty = ty
      cases ty <;> first | exact .null _ | constructor
    · exact .null _

omit [Surql] in
theorem toSurrealList_of_all {vs : List Value} (h : ∀ v ∈ vs, ∃ s, toSurreal v = .ok s) :
    ∃ items, toSurrealList vs = .ok items := by
  induction vs with
  | nil => exact ⟨[], rfl⟩
  | cons v vs ih =>
      obtain ⟨s, hs⟩ := h v (List.mem_cons_self ..)
      obtain ⟨items, hitems⟩ := ih fun w hw => h w (List.mem_cons_of_mem _ hw)
      exact ⟨s :: items, by rw [toSurrealList, hs, hitems]; rfl⟩

omit [Surql] in
/-- A table has a record id for key values that can be stored: a single one is the sample's. -/
theorem recordId_of_values (h : table.Keyable) (text : String) {f : ColumnId → Value}
    (hone : ∀ cid, table.primaryKey = [cid] → f cid = sampleValue table text cid)
    (hmany : 1 < table.primaryKey.length →
      ∀ cid ∈ table.primaryKey, ∃ s, toSurreal (f cid) = .ok s) :
    ∃ rid, recordId table (keyRecord (table.primaryKey.map f)) = .ok rid := by
  unfold Table.Keyable at h
  unfold recordId
  match hpk : table.primaryKey with
  | [] => rw [hpk] at h; exact h.elim
  | [cid] =>
      rw [hpk] at h
      have hkey : ∃ k, scalarToKey (sampleValue table text cid) = .ok k := by
        unfold sampleValue
        split
        · exact ⟨_, rfl⟩
        · rename_i hj
          rw [if_pos (by rw [hpk]; simp)]
          have hty : (table.column cid).ty.isKey = true := h.resolve_left hj
          generalize (table.column cid).ty = ty at hty
          cases ty <;> first | exact ⟨_, rfl⟩ | exact absurd hty (by simp [Ty.isKey])
      obtain ⟨k, hk⟩ := hkey
      rw [List.map_cons, List.map_nil, keyRecord, hone cid hpk,
        recordIdKey_scalar (sampleValue_takes text cid).isRecord, hk]
      exact ⟨_, rfl⟩
  | c :: d :: cids =>
      rw [hpk] at hmany
      have hall : ∀ v ∈ (c :: d :: cids).map f, ∃ s, toSurreal v = .ok s := by
        intro v hv
        obtain ⟨cid, hcid, rfl⟩ := List.mem_map.mp hv
        exact hmany (by simp) cid hcid
      -- the items of a composite key need not be scalars
      obtain ⟨items, hitems⟩ := toSurrealList_of_all hall
      have hrec : keyRecord ((c :: d :: cids).map f) = .record ((c :: d :: cids).map f) := rfl
      rw [hrec, recordIdKey_record (by simp), hitems]
      exact ⟨_, rfl⟩

omit [Surql] in
/-- In a composite key, the sample can be stored. -/
theorem sampleValue_storable (text : String) (h : 1 < table.primaryKey.length) (cid : ColumnId) :
    ∃ s, toSurreal (sampleValue table text cid) = .ok s := by
  unfold sampleValue
  split
  · exact ⟨_, rfl⟩
  · rw [if_neg (by omega)]; exact ⟨_, rfl⟩

omit [Sdk] [Surql] in
theorem rowPairs_map (f : ColumnId → Value) : ∀ (columns : List ColumnId) (before : Row),
    rowPairs (before ++ columns.map fun cid => some (f cid)) columns before.length =
      columns.map fun cid => (cid, f cid)
  | [], _ => rfl
  | cid :: columns, before => by
      have hrest := rowPairs_map f columns (before ++ [some (f cid)])
      rw [List.length_append, List.length_singleton, List.append_assoc] at hrest
      rw [rowPairs, List.map_cons, List.map_cons, rowAt]
      simp only [List.getElem?_append_right (Nat.le_refl _), Nat.sub_self, List.getElem?_cons_zero]
      exact congrArg _ hrest

omit [Sdk] [Surql] in
/-- The pairs of a row that gives its columns the values of a function. -/
theorem rowPairs_values (f : ColumnId → Value) (columns : List ColumnId) :
    rowPairs (columns.map fun cid => some (f cid)) columns 0 = columns.map fun cid =>
    (cid, f cid) := by
  have hpairs := rowPairs_map f columns []
  rwa [List.nil_append, List.length_nil] at hpairs

omit [Sdk] [Surql] in
theorem valueOf_values {f : ColumnId → Value} {columns : List ColumnId} {cid : ColumnId}
    (hn : columns.Nodup) (h : cid ∈ columns) :
    valueOf (columns.map fun cid => some (f cid)) columns cid = f cid := by
  refine valueOf_of_mem (p := (cid, f cid)) hn ?_
  rw [rowPairs_values]
  exact List.mem_map_of_mem h

omit [Sdk] [Surql] in
theorem valueOf_sample {text : String} {cid : ColumnId} (h : cid ∈ table.primaryKey) :
    valueOf (sampleRow table text) table.primaryKey cid = sampleValue table text cid :=
  valueOf_values table.key_nodup h

omit [Surql] in
/-- **A row of values that can be stored is built.** -/
theorem values_built {f : ColumnId → Value} {columns : List ColumnId} (ht : Targets table columns)
    (hrid : ∃ rid, recordId table (keyRecord (table.primaryKey.map f)) = .ok rid)
    (hstore : ∀ cid ∈ columns, cid ∉ table.primaryKey →
      ∃ s, toSurrealForColumn (f cid) (table.column cid) = .ok s) :
    ∃ rid content, buildRow "insert" table columns (columns.map fun cid => some (f cid)) =
      .ok (rid, content) := by
  have hrow : ∀ (i : Nat) (cid : ColumnId), columns[i]? = some cid →
      (columns.map fun cid => some (f cid))[i]? = some (some (f cid)) := by
    intro i cid hi
    rw [List.getElem?_map, hi]
    rfl
  have hbuild : (buildRow "insert" table columns (columns.map fun cid => some (f cid))).map
      Prod.fst = recordId table (keyRecord (table.primaryKey.map f)) :=
    buildRow_recordId ⟨ht.known, filter_key_perm ht.nodup ht.keys⟩ (fun i cid hi _ => hrow i cid hi)
      fun i cid hi hk => ⟨f cid, hrow i cid hi, .inr (hstore cid (List.mem_of_getElem? hi) hk)⟩
  obtain ⟨rid, hrid⟩ := hrid
  obtain ⟨⟨_, content⟩, hbuilt, rfl⟩ := map_eq_ok (hbuild.trans hrid)
  exact ⟨_, content, hbuilt⟩

omit [Sdk] [Surql] in
theorem targets_key : Targets table table.primaryKey :=
  ⟨table.key_nodup, table.key_ids, fun _ h => h⟩

omit [Surql] in
theorem sample_built (h : table.Keyable) (text : String) : ∃ rid content,
    buildRow "insert" table table.primaryKey (sampleRow table text) = .ok (rid, content) :=
  values_built targets_key
    (recordId_of_values h text (fun _ _ => rfl) fun hmany cid _ =>
      sampleValue_storable text hmany cid)
    fun _ hcid hk => absurd hcid hk

/-! ### A row that fills a column -/

/-- The sample with a value for one column, unless that column is the whole key. -/
def fillValue (table : Table) (c : Column) (v : Value) (cid : ColumnId) : Value :=
  if cid = c.id ∧ table.primaryKey ≠ [c.id] then v else sampleValue table "" cid

/-- The key columns and the column itself. -/
def fillColumns (table : Table) (c : Column) : List ColumnId :=
  table.primaryKey.filter (· ≠ c.id) ++ [c.id]

omit [Sdk] [Surql] in
theorem targets_fill {c : Column} (hc : c ∈ table.columns) :
    Targets table (fillColumns table c) := by
  refine ⟨?_, fun cid hcid => ?_, fun cid hcid => ?_⟩
  · refine List.nodup_append.mpr ⟨table.key_nodup.filter _, List.nodup_singleton _, ?_⟩
    intro a ha b hb
    rw [List.mem_singleton.mp hb]
    simpa using (List.mem_filter.mp ha).2
  · rcases List.mem_append.mp hcid with hcid | hcid
    · exact table.key_ids cid (List.mem_filter.mp hcid).1
    · rw [List.mem_singleton.mp hcid]
      exact List.mem_map_of_mem hc
  · by_cases hid : cid = c.id
    · rw [hid]
      exact List.mem_append_right _ (List.mem_singleton.mpr rfl)
    · exact List.mem_append_left _ (List.mem_filter.mpr ⟨hcid, by simpa using hid⟩)

omit [Surql] in
/-- What a column takes and stores is stored in a key as well. -/
theorem toSurreal_of_column {c : Column} {v : Value} {s : SurValue} (hnull : v ≠ .null)
    (ht : c.Takes v) (hs : toSurrealForColumn v c = .ok s) : ∃ s, toSurreal v = .ok s := by
  unfold toSurrealForColumn toSurrealWithStorage at hs
  unfold Column.Takes at ht
  split at ht
  · rcases ht with rfl | ⟨text, rfl⟩
    · exact absurd rfl hnull
    · exact ⟨_, rfl⟩
  · rename_i hj
    rw [if_neg (by simpa using hj)] at hs
    exact ⟨s, hs⟩

omit [Surql] in
/-- **Every fillable column is filled by some row** of a keyable table. -/
theorem fill_built {c : Column} (h : table.Keyable) (hc : c ∈ table.columns) (hfill : c.Fillable) :
    ∃ f : ColumnId → Value, f c.id ≠ .null ∧ (∀ cid, (table.column cid).Takes (f cid)) ∧
    ∃ rid content,
      buildRow "insert" table (fillColumns table c)
      ((fillColumns table c).map fun cid => some (f cid)) =
        .ok (rid, content) := by
  obtain ⟨v, s, hnull, htakes, hstored⟩ := hfill
  have hcol := Table.column_id hc
  have hother : ∀ cid, cid = c.id ∧ table.primaryKey ≠ [c.id] → fillValue table c v cid = v :=
    fun _ hcid => if_pos hcid
  refine ⟨fillValue table c v, ?_, fun cid => ?_, values_built (targets_fill hc)
    (recordId_of_values h "" (fun cid hone => ?_) fun hmany cid hcid => ?_) fun cid hcid hk => ?_⟩
  · by_cases hone : table.primaryKey = [c.id]
    · -- the whole key is no null
      rw [fillValue, if_neg (by simp [hone]), sampleValue, hcol]
      rw [Table.Keyable, hone] at h
      split
      · exact Value.noConfusion
      · rename_i hj
        rw [if_pos (by simp [hone])]
        have hty : c.ty.isKey = true := by simpa [hcol, hj] using h
        generalize c.ty = ty at hty
        cases ty <;> simp [sampleKey, Ty.isKey] at hty ⊢
    · rwa [hother c.id ⟨rfl, hone⟩]
  · unfold fillValue
    split
    · rename_i hcid
      rwa [hcid.1, hcol]
    · exact sampleValue_takes "" cid
  · rw [fillValue, if_neg]
    rintro ⟨rfl, hne⟩
    exact hne hone
  · unfold fillValue
    split
    · exact toSurreal_of_column hnull htakes hstored
    · exact sampleValue_storable "" hmany cid
  · rcases List.mem_append.mp hcid with hcid | hcid
    · exact absurd (List.mem_filter.mp hcid).1 hk
    · obtain rfl := List.mem_singleton.mp hcid
      rw [hother c.id ⟨rfl, fun hone => hk (by rw [hone]; simp)⟩, hcol]
      exact ⟨s, hstored⟩

/-- An insert of one row whose record id is free. -/
theorem execInsert_single {columns : List ColumnId} {row : Row} {rid : RecordId} {content : Object}
    {s : Records} (hbuild : buildRow "insert" table columns row = .ok (rid, content))
    (hfree : AssocMap.lookup rid s = none) :
    (execInsert conn table ⟨columns, some [row], none⟩ false).Runs recordStore.Handle s
      (AssocMap.insert rid content s) (.ok (.count 1)) := by
  have hcreate : recordStore.exec s (createQuery rid content false) (.ok (.array
      [.object (recordRow rid content)])) (AssocMap.insert rid content s) :=
    create_ok.mpr ⟨hfree, rfl, rfl⟩
  have hrows : (insertRows conn table columns false none [row] 0 []).Runs recordStore.Handle s
      (AssocMap.insert rid content s) (.ok (1, [])) := by
    rw [insertRows, hbuild]
    exact Database.runs_runQuery_bind.mpr (.inr ⟨_, _, hcreate, rfl, rfl⟩)
  exact runs_lift_bind_ok.mpr ⟨none, rfl, runs_bind_ok.mpr ⟨(1, []), _, hrows, rfl, rfl⟩⟩

section Single

variable [SqlNames] {columns : List ColumnId} {row : Row} {rid : RecordId} {content : Object}
  {c : Column}

/-- **One column of one row read back**: what a table whose rows survive must give. -/
theorem RoundTrips.reads (hround : RoundTrips table) (ht : Targets table columns)
    (htakes : ∀ p ∈ rowPairs row columns 0, (table.column p.1).Takes p.2)
    (hbuild : buildRow "insert" table columns row = .ok (rid, content)) (hc : c ∈ table.columns) :
    ∃ item w, (projectColumn table c).read = some item ∧
      fromSurrealForColumn (Object.field (projectRow [item] rid content) c.name) c = .ok w ∧
      SameValue c (valueOf row columns c.id) w := by
  have hb := buildRow_built ht.nodup ht.known ht.keys hbuild
  have hins := execInsert_text.mpr (@execInsert_single _ _ .new _ _ _ _ _ [] hbuild rfl)
  have hsel : ∀ cid ∈ [c.id], cid ∈ table.columns.map Column.id := by
    intro cid hcid
    rw [List.mem_singleton.mp hcid]
    exact List.mem_map_of_mem hc
  -- insert one row into an empty store, and read one column of it
  obtain ⟨fields, hget, hsame⟩ := hround .new _ _ _ _ _ _ rfl ht
    (fun row' hrow => by rw [List.mem_singleton.mp hrow]; exact htakes) hins _
    (List.mem_singleton.mpr rfl) _ .record [c.id] hsel
  have hkey := KeyOf.recordId hb (takes_valueOf ht.nodup htakes) .record
  have hstored : AssocMap.lookup rid (AssocMap.insert rid content ([] : Records)) = some content :=
    AssocMap.lookup_insert_self ..
  cases hread : (projectColumns table ([c.id].map table.column)).mapM ProjItem.read with
  | none =>
      have hrefused := (hget _ _).mp ((execGetByKey_refused hkey hread).mpr ⟨rfl, ⟨"", false⟩, rfl⟩)
      exact absurd hrefused.2 (by simp)
  | some items =>
      have hanswer := (hget _ _).mp ((execGetByKey_runs hkey hstored hread).mpr ⟨rfl, rfl⟩)
      obtain ⟨fields', hrec, hf⟩ := map_eq_ok hanswer.2
      injection hf with hf _; injection hf with hf; injection hf with hf _; injection hf with hf
      subst hf
      rw [List.map_singleton, Table.column_id hc] at hrec hread
      rw [projectColumns, List.map_singleton, List.mapM_cons, List.mapM_nil] at hread
      obtain ⟨item, hitem, hread⟩ := Option.bind_eq_some_iff.mp hread
      injection hread with hread; subst hread
      rw [rowToRecord_ok] at hrec
      cases hrec with
      | cons hw hnil =>
          cases hnil
          cases hsame with
          | cons hs _ =>
              rw [Table.column_id hc] at hs
              exact ⟨item, _, hitem, hw, hs⟩

/-- **A column that can be filled has a name that is read back**, where rows survive. -/
theorem RoundTrips.clean (hround : RoundTrips table) (h : table.Keyable) (hc : c ∈ table.columns)
    (hfill : c.Fillable) : CleanName c.name := by
  by_contra hname
  obtain ⟨f, hnull, htakes, rid, content, hbuild⟩ := fill_built h hc hfill
  have ht := targets_fill hc
  obtain ⟨item, w, hread, hw, hs⟩ := hround.reads ht (fun p hp => by
    rw [rowPairs_values] at hp
    obtain ⟨cid, _, rfl⟩ := List.mem_map.mp hp
    exact htakes cid) hbuild hc
  -- the row has no field of that name, which decodes to a null
  have hother : item.name ≠ c.name := fun he =>
    hname ((SqlNames.read_iff c.name).mp (by rw [projectColumn_named hread, he]))
  have hfield : Object.field (projectRow [item] rid content) c.name = .none := by
    rw [Object.field, projectRow_absent (by simp) fun i hi => by
      rw [List.mem_singleton.mp hi]; exact hother]
    rfl
  rw [hfield, fromSurrealForColumn_none] at hw
  injection hw with hw; subst hw
  rw [valueOf_values ht.nodup (List.mem_append_right _ (List.mem_singleton.mpr rfl))] at hs
  exact hnull hs.of_null

/-- One column of the sample read back. -/
theorem sample_reads (hround : RoundTrips table) (h : table.Keyable) (text : String)
    (hname : CleanName c.name) (hc : c ∈ table.columns) : ∃ rid content w,
      Built table (sampleRow table text) table.primaryKey rid content ∧
      fromSurrealForColumn ((projectColumn table c).value rid content) c = .ok w ∧
      SameValue c (valueOf (sampleRow table text) table.primaryKey c.id) w := by
  obtain ⟨rid, content, hbuild⟩ := sample_built h text
  obtain ⟨item, w, hread, hw, hs⟩ := hround.reads targets_key (fun p hp => by
    rw [sampleRow, rowPairs_values] at hp
    obtain ⟨cid, _, rfl⟩ := List.mem_map.mp hp
    exact sampleValue_takes text cid) hbuild hc
  refine ⟨rid, content, w, buildRow_built targets_key.nodup targets_key.known targets_key.keys
    hbuild, ?_, hs⟩
  rw [projectColumn_clean hname] at hread
  injection hread with hread; subst hread
  have hfield : AssocMap.lookup c.name (projectRow (projectColumns table [c]) rid content) =
      some ((projectColumn table c).value rid content) :=
    projectRow_read (fun d hd => by rw [List.mem_singleton.mp hd]; exact hc)
      (List.mem_singleton.mpr rfl)
  rw [projectColumns, List.map_singleton] at hfield
  rwa [Object.field, hfield] at hw

end Single

end Sample

omit [Surql] in
/-- A record id never decodes to a null. -/
theorem fromSurreal_recordId_ne_null {rid : RecordId} {c : Column} :
    fromSurrealForColumn rid.value c ≠ .ok .null := by
  unfold fromSurrealForColumn fromSurrealWithStorage
  intro h
  split at h
  · obtain ⟨_, _, _, _, hv⟩ := surrealJsonToText_ok (by simp [RecordId.value]) h
    exact absurd hv (by simp)
  · rw [RecordId.value, fromSurreal] at h
    cases hk : rid.key with
    | number v =>
        rw [hk, recordIdKeyToStmt] at h
        unfold numberToStmt at h
        split at h
        all_goals first
          | exact absurd h (by simp)
          | (split at h <;> exact absurd h (by simp))
    | string v =>
        by_cases hu : c.ty = .uuid
        · rw [hk, hu, recordIdKeyToStmt] at h
          split at h <;> exact absurd h (by simp)
        · rw [hk, recordIdKeyToStmt] at h
          · exact absurd h (by simp)
          · exact hu
    | uuid v => rw [hk, recordIdKeyToStmt] at h; exact absurd h (by simp)
    | array items =>
        rw [hk, recordIdKeyToStmt] at h
        obtain ⟨_, _, h⟩ := bind_eq_ok h
        exact absurd h (by simp)
    | other code => rw [hk, recordIdKeyToStmt] at h; exact absurd h (by simp)

omit [Surql] in
/-- JSON text stored as a plain string is not read back as the document it says. -/
theorem json_null_text_ne [LawfulSdk] {text : String} (ht : Sdk.printJson .null = .ok text)
    {c : Column} (hj : c.storageTy = .json) {w : Value}
    (hw : fromSurrealForColumn (.string text) c = .ok w) : ¬ SameValue c (.string text) w := by
  intro hs
  rw [SameValue, if_pos hj] at hs
  rcases hs with ⟨h, _⟩ | ⟨text', text'', h1, rfl, json, hparse, hprint⟩
  · exact absurd h (by simp)
  · injection h1 with h1; subst h1
    rw [LawfulSdk.parse_print_null text ht] at hparse
    injection hparse with hparse; subst hparse
    rw [fromSurrealForColumn, fromSurrealWithStorage, if_pos (by rw [hj])] at hw
    obtain ⟨json, out, hjson, hout, hv⟩ := surrealJsonToText_ok (by simp) hw
    injection hv with hv; subst hv
    rw [surrealToJsonValue_string] at hjson
    injection hjson with hjson; subst hjson
    -- `null` and a string would have one text
    have hnull := LawfulSdk.parse_print_null _ hprint
    rw [LawfulSdk.parse_print_string _ _ hout] at hnull
    exact absurd hnull (by simp)

/-- **When an insert is read back.** Let every column whose name is not read back have some
value to store. A table gives back every row that can be inserted into it exactly when no row
can be, or every name is read back, there is no native-JSON key column and no other column is
called `id`. -/
theorem insert_then_get_iff [SqlNames] [LawfulSdk] (table : Table)
    (hfill : ∀ c ∈ table.columns, CleanName c.name ∨ c.Fillable) :
    RoundTrips table ↔ (table.Keyable → table.ReadsTrue) := by
  constructor
  · intro hround hkey
    have hnames : ∀ c ∈ table.columns, CleanName c.name := fun c hc =>
      (hfill c hc).elim id (hround.clean hkey hc)
    refine ⟨hnames, fun c hc => ?_⟩
    obtain ⟨text, htext⟩ := LawfulSdk.print_proper .null .null
    obtain ⟨rid, content, w, hb, hw, hs⟩ := sample_reads hround hkey text (hnames c hc) hc
    split
    · rename_i hk
      intro hj
      have hmem := isPrimaryKey_iff.mp hk
      have hval : valueOf (sampleRow table text) table.primaryKey c.id = .string text := by
        rw [valueOf_sample hmem, sampleValue, Table.column_id hc, if_pos hj]
      have hread := key_read (o := content) hmem (by rw [hval]; rfl) hb.rid
      rw [hval, toSurreal] at hread
      injection hread with hread
      rw [projectColumn_key hk, ← hread] at hw
      rw [hval] at hs
      exact json_null_text_ne htext hj hw hs
    · rename_i hk
      intro hid
      have hk : isPrimaryKey table c = false := by simpa using hk
      have hnull : valueOf (sampleRow table text) table.primaryKey c.id = .null :=
        valueOf_of_not_mem fun hmem => by
          rw [isPrimaryKey_iff.mpr hmem] at hk; exact absurd hk (by simp)
      rw [hnull] at hs
      rw [hs.eq_null, projectColumn_field hk, hid, recordRow_id] at hw
      exact fromSurreal_recordId_ne_null hw
  · exact roundTrips_of_readsTrue

end Survives

/-- A table with a nullable column `id` next to its key. -/
def notes : Table where
  id := 0
  name := "notes"
  columns := [⟨⟨0, 0⟩, "key", .i64, .integer 8⟩, ⟨⟨0, 1⟩, "id", .i64, .integer 8⟩]
  primaryKey := [⟨0, 0⟩]
  indices := []

/-- A null in a column `id` is read back as the row's key. -/
theorem id_column_reads_key : ¬ @RoundTrips plain plainSurql plainNames notes := by
  let := plain
  let := plainSurql
  let := plainNames
  intro h
  have hbuild : buildRow "insert" notes [⟨0, 0⟩, ⟨0, 1⟩] [some (.i64 1), some .null] =
      .ok (⟨"notes", .number 1⟩, []) := rfl
  have htakes : ∀ p ∈ rowPairs [some (.i64 1), some .null] [⟨0, 0⟩, ⟨0, 1⟩] 0,
      (notes.column p.1).Takes p.2 := by
    intro p hp
    rcases List.mem_cons.mp hp with rfl | hp
    · exact .i64 1
    · rw [List.mem_singleton.mp hp]; exact takes_null _
  obtain ⟨item, w, hread, hw, hs⟩ := h.reads (c := notes.column ⟨0, 1⟩)
    ⟨by decide, by decide, by decide⟩ htakes hbuild (by decide)
  rw [projectColumn_clean (by decide)] at hread
  injection hread with hread; subst hread
  have hone : fromSurrealForColumn
      (Object.field (projectRow [projectColumn notes (notes.column ⟨0, 1⟩)]
      ⟨"notes", .number 1⟩ []) "id") (notes.column ⟨0, 1⟩) = .ok (.i64 1) := rfl
  obtain rfl : Value.i64 1 = w := Except.ok.inj (hone.symm.trans hw)
  exact absurd hs.eq_null (by simp)

/-- A table whose key column is called `id`. -/
def people : Table where
  id := 0
  name := "people"
  columns := [⟨⟨0, 0⟩, "id", .i64, .integer 8⟩, ⟨⟨0, 1⟩, "name", .string, .text⟩,
    ⟨⟨0, 2⟩, "profile", .string, .json⟩]
  primaryKey := [⟨0, 0⟩]
  indices := []

/-- It gives back every row. -/
theorem people_round_trip : @RoundTrips plain plainSurql plainNames people := by
  let := plain
  let := plainSurql
  let := plainNames
  let := plain_lawful
  have hnames : ∀ c ∈ people.columns, CleanName c.name := by decide
  exact (insert_then_get_iff people fun c hc => .inl (hnames c hc)).mpr fun _ => ⟨hnames, by decide⟩

end ToastySurreal
