import ToastySurreal.Proof.Pagination
import ToastySurreal.Proof.Routing

/-!
# Reading by an index, and then by key

The engine asks for the primary keys of the records an indexed filter finds, and reads
the records by them. A key crosses the codec twice on the way: decoded as its columns'
values, encoded again as a record id. `indexPath_iff` says for which tables it comes back
to the record it was read from, so that nothing a scan finds is lost.
-/

namespace ToastySurreal

open Results Prog Lists

section IndexPath

variable [Sdk] {table : Table}

/-! ## What the driver stores in a table -/

/-- A record id made of values the key columns take. -/
def Recorded (table : Table) (rid : RecordId) : Prop :=
  ∃ value : ColumnId → Value, recordId table (keyRecord (table.primaryKey.map value)) = .ok rid ∧
    ∀ cid ∈ table.primaryKey, (table.column cid).Takes (value cid)

/-- Records as the driver leaves them: one under an id, and every id of the table made of
such values. -/
structure Populated (table : Table) (s : Records) : Prop where
  nodup : (s.map Prod.fst).Nodup
  recorded : ∀ rec ∈ s, rec.1.table = table.name → Recorded table rec.1

theorem Populated.lookup {s : Records} (h : Populated table s) {rec : RecordId × Object}
    (hrec : rec ∈ s) : AssocMap.lookup rec.1 s = some rec.2 := AssocMap.lookup_of_mem h.nodup hrec

theorem Populated.insert {s : Records} {rid : RecordId} (h : Populated table s)
    (hrid : rid.table = table.name → Recorded table rid) (o : Object) :
    Populated table (AssocMap.insert rid o s) := by
  refine ⟨AssocMap.nodup_insert h.nodup, fun rec hrec ht => ?_⟩
  have hkey : rec.1 ∈ (AssocMap.insert rid o s).map Prod.fst := List.mem_map_of_mem hrec
  rcases AssocMap.mem_keys_insert.mp hkey with hself | hold
  · rw [hself] at ht ⊢; exact hrid ht
  · obtain ⟨old, hmem, hid⟩ := List.mem_map.mp hold
    rw [← hid] at ht ⊢
    exact h.recorded old hmem ht

section Surql

variable [Surql]

/-- What Toasty promises of an insert: every key column is a target, and the values are of
their columns' types. -/
structure Insert.Typed (table : Table) (insert : Insert) : Prop where
  targets : Targets table insert.columns
  takes : ∀ rows, insert.values = some rows → ∀ row ∈ rows, ∀ p ∈ rowPairs row insert.columns 0,
    (table.column p.1).Takes p.2

/-- The same of an operation, where no other table has this one's name. -/
def Operation.Typed (table : Table) : Operation → Prop
  | .querySql (.ok (t, stmt)) _ | .insert (some (t, stmt)) _ =>
      t.name = table.name → t = table ∧ stmt.Typed table
  | .upsert t op => t.name = table.name → t = table ∧ op.insert.Typed table
  | _ => True

omit [Surql] in
/-- The record id of a typed row. -/
theorem Insert.Typed.recorded {op : String} {insert : Insert} {rows : List Row} {row : Row}
    {rid : RecordId} {content : Object} (h : insert.Typed table)
    (hvalues : insert.values = some rows) (hrow : row ∈ rows)
    (hbuild : buildRow op table insert.columns row = .ok (rid, content)) : Recorded table rid := by
  have hst := buildRow_stored h.targets (h.takes rows hvalues row hrow) hbuild
  exact ⟨_, hst.rid, hst.takes⟩

/-- No key column is native JSON. -/
def Table.PlainKey (t : Table) : Prop := ∀ cid ∈ t.primaryKey, (t.column cid).storageTy ≠ .json

/-- What a key column of a record decodes to. -/
def keyField (table : Table) (rid : RecordId) (o : Object) (cid : ColumnId) : Except Error Value :=
  fromSurrealForColumn (refValue rid o (columnRef table (table.column cid))) (table.column cid)

omit [Surql] in
/-- A row of the key columns decodes when each of them does. -/
theorem keyRow_ok {rid : RecordId} {o : Object} {fields : List Value} :
    rowToRecord (.object (projectRow (projectColumns table table.primaryKeyColumns) rid o))
        table.primaryKeyColumns = .ok fields ↔
      List.Forall₂ (fun cid v => keyField table rid o cid = .ok v) table.primaryKey fields := by
  have hknown : ∀ c ∈ table.primaryKeyColumns, c ∈ table.columns :=
    fun c hc => (Table.mem_primaryKeyColumns hc).1
  have hfield : ∀ cid ∈ table.primaryKey, Object.field (projectRow (projectColumns table
      table.primaryKeyColumns) rid o) (table.column cid).name =
        refValue rid o (columnRef table (table.column cid)) := by
    intro cid hcid
    have hkey : isPrimaryKey table (table.column cid) = true := by
      rw [isPrimaryKey_iff, (Table.column_mem (table.key_ids cid hcid)).2]
      exact hcid
    rw [Object.field, projectRow_read hknown (List.mem_map_of_mem hcid), projectColumn_key hkey]
    rfl
  rw [rowToRecord_ok]
  show List.Forall₂ _ (table.primaryKey.map table.column) fields ↔ _
  rw [List.forall₂_map_left_iff]
  constructor
  · intro h
    refine forall₂_imp_mem h fun cid hcid v _ hv => ?_
    rwa [hfield cid hcid] at hv
  · intro h
    refine forall₂_imp_mem h fun cid hcid v _ hv => ?_
    rwa [hfield cid hcid]

omit [Surql] in
/-- A key column reads the encoding of its value. -/
theorem keyValue_read {value : ColumnId → Value} {rid : RecordId} (o : Object)
    (hrid : recordId table (keyRecord (table.primaryKey.map value)) = .ok rid) {cid : ColumnId}
    (hcid : cid ∈ table.primaryKey) (hscalar : (value cid).isRecord = false) :
    toSurreal (value cid) = .ok (refValue rid o (columnRef table (table.column cid))) := by
  have hid := (Table.column_mem (table.key_ids cid hcid)).2
  have hread := @key_read table rid o _ value (table.column cid) (by rw [hid]; exact hcid)
    (by rw [hid]; exact hscalar) hrid
  rwa [hid] at hread

omit [Surql] in
/-- **A key column gives back its value** when it is no native-JSON column. -/
theorem keyField_value [LawfulSdk] {value : ColumnId → Value} {rid : RecordId} (o : Object)
    (hrid : recordId table (keyRecord (table.primaryKey.map value)) = .ok rid) {cid : ColumnId}
    (hcid : cid ∈ table.primaryKey) (htakes : (table.column cid).Takes (value cid))
    (hplain : (table.column cid).storageTy ≠ .json) : keyField table rid o cid =
    .ok (value cid) := by
  have hread := keyValue_read o hrid hcid htakes.isRecord
  rw [Column.Takes, if_neg hplain] at htakes
  rw [keyField, fromSurrealForColumn, fromSurrealWithStorage, if_neg (by simpa using hplain)]
  exact fromSurreal_toSurreal htakes hread

omit [Surql] in
/-- **The key of a record leads back to it.** -/
theorem Recorded.key [LawfulSdk] {rid : RecordId} (h : Recorded table rid) (hplain : table.PlainKey)
    (o : Object) : ∃ fields, rowToRecord (.object (projectRow (projectColumns table
      table.primaryKeyColumns) rid o)) table.primaryKeyColumns = .ok fields ∧
        recordId table (.record fields) = .ok rid := by
  obtain ⟨value, hrid, htakes⟩ := h
  refine ⟨table.primaryKey.map value, keyRow_ok.mpr ?_, ?_⟩
  · rw [List.forall₂_map_right_iff, List.forall₂_same]
    exact fun cid hcid => keyField_value o hrid hcid (htakes cid hcid) (hplain cid hcid)
  · rw [recordId_wrapped fun cid hpk =>
      (htakes cid (by rw [hpk]; exact List.mem_singleton.mpr rfl)).isRecord]
    exact hrid

omit [Surql] in
/-- The keys of records, in their order. -/
theorem keys_of_recorded [LawfulSdk] (hplain : table.PlainKey) : ∀ {recs : Records},
    (∀ rec ∈ recs, Recorded table rec.1) → ∃ keys, rowsToRecords table.primaryKeyColumns
      (recs.map fun rec => .object (projectRow (projectColumns table table.primaryKeyColumns)
        rec.1 rec.2)) = .ok keys ∧
      List.Forall₂ (fun key rec => recordId table key = .ok rec.1) keys recs
  | [], _ => ⟨[], rfl, .nil⟩
  | rec :: recs, h => by
      obtain ⟨fields, hfields, hrid⟩ := (h rec List.mem_cons_self).key hplain rec.2
      obtain ⟨keys, hkeys, hall⟩ := keys_of_recorded hplain fun r hr =>
        h r (List.mem_cons_of_mem rec hr)
      refine ⟨.record fields :: keys, ?_, .cons hrid hall⟩
      rw [List.map_cons, rowsToRecords, hfields, hkeys]
      rfl

/-! ## The two paths -/

section Paths

variable {conn : Connection} {filter : Expr} {predicate : List Token} {binds : Binds}
  {s s' : Records} {out : Except Error ExecResponse}

/-- **A search by index** decodes the keys of the records that satisfy the filter. -/
theorem findPkByIndex_runs (hrender : render table .empty filter = .ok (predicate, binds)) :
    (execFindPkByIndex conn table ⟨filter⟩).Runs recordStore.Handle s s' out ↔ s' = s ∧
      out = (rowsToRecords table.primaryKeyColumns ((matching table (some predicate) binds s).map
        fun rec => .object (projectRow (projectColumns table table.primaryKeyColumns) rec.1
          rec.2))).map .valueStream := by
  rw [execFindPkByIndex]
  simp only [hrender, lift_ok_bind]
  exact reading_runs fun r s' => select_exec

/-- **A scan without a limit** decodes the records that satisfy the filter. -/
theorem scan_runs {columns : List Nat}
    (hrender : render table .empty filter = .ok (predicate, binds)) :
    (execScan conn table ⟨columns, some filter, none⟩).Runs recordStore.Handle s s' out ↔ s' = s ∧
      out = (rowsToRecords (columns.map fun i => table.column ⟨table.id, i⟩)
        ((matching table (some predicate) binds s).map fun rec => .object (projectRow
          (projectColumns table (columns.map fun i => table.column ⟨table.id, i⟩)) rec.1
          rec.2))).map .valueStream := by
  have hpred : scanPredicate table (some filter) = .ok (some predicate, binds) := by
    rw [scanPredicate, hrender]
    rfl
  rw [execScan]
  simp only [hpred, lift_ok_bind]
  have hstream : ∀ x : Except Error (List Value),
      (x >>= fun records => Except.ok ⟨.stream records, none⟩) =
      x.map ExecResponse.valueStream := by
    intro x
    cases x <;> rfl
  refine (runKeysetSelect_runs rfl fun r s' => select_exec).trans ?_
  exact and_congr_right fun _ => iff_of_eq (congrArg (out = ·) (hstream _))

/-- The records a scan reads were put there by the driver. -/
theorem Populated.matching (hs : Populated table s) {rec : RecordId × Object}
    (hrec : rec ∈ matching table (some predicate) binds s) :
    Recorded table rec.1 ∧ AssocMap.lookup rec.1 s = some rec.2 := by
  obtain ⟨hmem, hkeep⟩ := List.mem_filter.mp hrec
  rw [Bool.and_eq_true, beq_iff_eq] at hkeep
  exact ⟨hs.recorded rec hmem hkeep.1, hs.lookup hmem⟩

end Paths

/-! ## When a key leads back -/

/-- The keys a search by index returns lead back to the records it found. -/
def KeysLeadBack (table : Table) : Prop :=
  ∀ (conn : Connection) (s : Records) (filter : Expr) (predicate : List Token) (binds : Binds),
    Populated table s → render table .empty filter = .ok (predicate, binds) →
    ∃ keys, (∀ s' out, (execFindPkByIndex conn table ⟨filter⟩).Runs recordStore.Handle s s' out ↔
        s' = s ∧ out = .ok (.valueStream keys)) ∧
      List.Forall₂ (fun key rec => recordId table key = .ok rec.1) keys
        (matching table (some predicate) binds s)

/-- **The index path is the scan path**: reading by the keys a search by index returned
does what the scan with its filter does. -/
def IndexPathIsScan (table : Table) : Prop :=
  ∀ (conn : Connection) (s s₁ : Records) (filter : Expr) (predicate : List Token) (binds : Binds)
    (columns : List Nat) (keys : List Value), Populated table s →
    render table .empty filter = .ok (predicate, binds) →
    (execFindPkByIndex conn table ⟨filter⟩).Runs recordStore.Handle s s₁ (.ok (.valueStream keys)) →
    ∀ s' out, (execGetByKey conn table ⟨columns.map (ColumnId.mk table.id), keys⟩).Runs
        recordStore.Handle s₁ s' out ↔
      (execScan conn table ⟨columns, some filter, none⟩).Runs recordStore.Handle s s' out

theorem keysLeadBack_of_plainKey [LawfulSdk] (h : table.PlainKey) : KeysLeadBack table := by
  intro conn s filter predicate binds hs hrender
  obtain ⟨keys, hkeys, hall⟩ := keys_of_recorded h fun rec hrec => (hs.matching hrec).1
  refine ⟨keys, fun s' out => (findPkByIndex_runs hrender).trans ?_, hall⟩
  rw [hkeys]
  rfl

theorem indexPathIsScan_of_plainKey [LawfulSdk] (h : table.PlainKey) : IndexPathIsScan table := by
  intro conn s s₁ filter predicate binds columns keys hs hrender hfind s' out
  obtain ⟨keys', hiff, hall⟩ := keysLeadBack_of_plainKey h conn s filter predicate binds hs hrender
  obtain ⟨rfl, hkeys⟩ := (hiff _ _).mp hfind
  injection hkeys with hkeys; injection hkeys with hkeys; injection hkeys with hkeys; subst hkeys
  refine (getByKey_runs hall fun rec hrec => (hs.matching hrec).2).trans ?_
  refine Iff.trans ?_ (scan_runs hrender).symm
  rw [List.map_map]
  rfl

/-- A read by a key no record has. -/
theorem getByKey_missing {conn : Connection} {select : List ColumnId} {key : Value} {rid : RecordId}
    {s s' : Records} {out : Except Error ExecResponse} (hkey : recordId table key = .ok rid)
    (hnone : AssocMap.lookup rid s = none) :
    (execGetByKey conn table ⟨select, [key]⟩).Runs recordStore.Handle s s' out ↔
      s' = s ∧ out = .ok (.valueStream []) := by
  have hrows : ∀ sql projection,
      selectKeysRows s ⟨sql, [("k0", rid.value)]⟩ projection ["k0"] = [] := by
    intro sql projection
    have hrid : Query.recordId ⟨sql, [("k0", rid.value)]⟩ "k0" = some rid := rfl
    simp [selectKeysRows, hrid, hnone]
  have hexec : ∀ projection r s', recordStore.exec s ⟨.selectKeys projection ["k0"],
      [("k0", rid.value)]⟩ r s' ↔ s' = s ∧ r = .ok (.array []) := by
    intro projection r s'
    show (s' = s ∧ r = .ok (.array (selectKeysRows s _ projection ["k0"]))) ↔ _
    rw [hrows]
  rw [execGetByKey, if_neg (by simp), getQuery, keyBinds, hkey]
  exact reading_runs (hexec _)

omit [Sdk] [Surql] in
theorem keyable_of_not_plainKey (h : ¬ table.PlainKey) : table.Keyable := by
  unfold Table.PlainKey at h
  unfold Table.Keyable
  match hpk : table.primaryKey with
  | [] => rw [hpk] at h; exact absurd (fun _ hcid => absurd hcid List.not_mem_nil) h
  | [cid] =>
      left
      by_contra hj
      rw [hpk] at h
      exact h fun c hc => by rw [List.mem_singleton.mp hc]; exact hj
  | c :: d :: cids => trivial

omit [Surql] in
/-- **A native-JSON key column loses records**: there is one whose key, read and encoded
again, is another. -/
theorem json_key_lost [LawfulSdk] (h : ¬ table.PlainKey) : ∃ rid o fields,
    Populated table [(rid, o)] ∧ rid.table = table.name ∧
    rowToRecord (.object (projectRow (projectColumns table table.primaryKeyColumns) rid o))
      table.primaryKeyColumns = .ok fields ∧ recordId table (.record fields) ≠ .ok rid := by
  obtain ⟨text, htext⟩ := LawfulSdk.print_proper .null .null
  obtain ⟨rid, o, hbuild⟩ := sample_built (keyable_of_not_plainKey h) text
  have hrid := (buildRow_built targets_key.nodup targets_key.known targets_key.keys hbuild).rid
  rw [List.map_congr_left fun cid hcid => valueOf_sample hcid] at hrid
  have htakes : ∀ cid ∈ table.primaryKey, (table.column cid).Takes (sampleValue table text cid) :=
    fun cid _ => sampleValue_takes text cid
  have hstored : ∀ cid ∈ table.primaryKey, toSurreal (sampleValue table text cid) =
      .ok (refValue rid o (columnRef table (table.column cid))) :=
    fun cid hcid => keyValue_read o hrid hcid (htakes cid hcid).isRecord
  have htext' : ∀ cid ∈ table.primaryKey, (table.column cid).storageTy = .json →
      refValue rid o (columnRef table (table.column cid)) = .string text := by
    intro cid hcid hj
    have hval := hstored cid hcid
    rw [sampleValue, if_pos hj, toSurreal] at hval
    injection hval with hval
    exact hval.symm
  -- every key column decodes
  have hdecode : ∀ cid, ∃ v : Value, cid ∈ table.primaryKey →
      keyField table rid o cid = .ok v ∧ v.isRecord = false := by
    intro cid
    by_cases hcid : cid ∈ table.primaryKey
    · by_cases hj : (table.column cid).storageTy = .json
      · obtain ⟨printed, hprint⟩ := LawfulSdk.print_proper (.string text) (.string text)
        refine ⟨.string printed, fun _ => ⟨?_, rfl⟩⟩
        rw [keyField, htext' cid hcid hj, fromSurrealForColumn, fromSurrealWithStorage,
          if_pos (by rw [hj])]
        exact surrealJsonToText_of_print (by simp) (surrealToJsonValue_string text) hprint
      · exact ⟨_, fun _ =>
          ⟨keyField_value o hrid hcid (htakes cid hcid) hj, (htakes cid hcid).isRecord⟩⟩
    · exact ⟨.null, fun hmem => absurd hmem hcid⟩
  choose value hvalue using hdecode
  refine ⟨rid, o, table.primaryKey.map value, ⟨by simp, ?_⟩, buildRow_table hbuild, ?_, ?_⟩
  · intro rec hrec _
    rw [List.mem_singleton.mp hrec]
    exact ⟨_, hrid, htakes⟩
  · rw [keyRow_ok, List.forall₂_map_right_iff, List.forall₂_same]
    exact fun cid hcid => (hvalue cid hcid).1
  · intro hback
    rw [recordId_wrapped fun cid hpk =>
      (hvalue cid (by rw [hpk]; exact List.mem_singleton.mpr rfl)).2] at hback
    unfold Table.PlainKey at h
    push Not at h
    obtain ⟨cid, hcid, hj⟩ := h
    obtain ⟨hread, hscalar⟩ := hvalue cid hcid
    -- what was read is encoded as what was stored, so it is the text itself
    have hsame := keyValue_read o hback hcid hscalar
    rw [htext' cid hcid hj] at hsame
    rw [keyField, htext' cid hcid hj] at hread
    obtain ⟨printed, hprinted⟩ : ∃ printed, value cid = .string printed := by
      rw [fromSurrealForColumn, fromSurrealWithStorage, if_pos (by rw [hj])] at hread
      obtain ⟨_, printed, _, _, hv⟩ := surrealJsonToText_ok (by simp) hread
      exact ⟨printed, hv⟩
    rw [hprinted, toSurreal] at hsame
    injection hsame with hsame; injection hsame with hsame; subst hsame
    rw [hprinted] at hread
    refine json_null_text_ne htext hj hread ?_
    rw [SameValue, if_pos hj]
    exact .inr ⟨_, _, rfl, rfl, .null, LawfulSdk.parse_print_null _ htext, htext⟩

/-- The literal `true` as a predicate. -/
class SqlTrue : Prop where
  holds_true : ∀ rid o, Surql.holds [.atom (.value (.bool true))] rid o = true

omit [Surql] in
/-- A filter that every record satisfies, rendered. -/
theorem render_true : render table .empty (.value (.bool true)) =
    .ok ([.atom (.param "p0")], ⟨[("p0", .bool true)]⟩) := rfl

omit [Sdk] in
theorem matching_true [SqlTrue] {rid : RecordId} {o : Object} (h : rid.table = table.name) :
    matching table (some [.atom (.param "p0")]) ⟨[("p0", .bool true)]⟩ [(rid, o)] = [(rid, o)] := by
  have hholds : Surql.holds [.atom (.value (.bool true))] rid o = true := SqlTrue.holds_true rid o
  refine List.filter_cons_of_pos ?_
  show (rid.table == table.name && (Surql.holds [.atom (.value (.bool true))] rid o && true)) = true
  rw [hholds, h]
  simp

/-- A search by index that finds one record. -/
theorem find_single [SqlTrue] {conn : Connection} {rid : RecordId} {o : Object}
    {fields : List Value}
    {s' : Records} {out : Except Error ExecResponse} (hname : rid.table = table.name)
    (hfields : rowToRecord
      (.object (projectRow (projectColumns table table.primaryKeyColumns) rid o))
      table.primaryKeyColumns = .ok fields) :
    (execFindPkByIndex conn table ⟨.value (.bool true)⟩).Runs recordStore.Handle [(rid, o)] s' out ↔
      s' = [(rid, o)] ∧ out = .ok (.valueStream [.record fields]) := by
  refine (findPkByIndex_runs render_true).trans ?_
  rw [matching_true hname, List.map_cons, List.map_nil, rowsToRecords_single, hfields]
  rfl

theorem plainKey_of_keysLeadBack [LawfulSdk] [SqlTrue] (h : KeysLeadBack table) :
    table.PlainKey := by
  by_contra hplain
  obtain ⟨rid, o, fields, hs, hname, hfields, hlost⟩ := json_key_lost hplain
  obtain ⟨keys, hiff, hall⟩ := h .new _ _ _ _ hs render_true
  obtain ⟨_, hkeys⟩ := (hiff _ _).mp ((find_single hname hfields).mpr ⟨rfl, rfl⟩)
  injection hkeys with hkeys; injection hkeys with hkeys; injection hkeys with hkeys; subst hkeys
  rw [matching_true hname] at hall
  cases hall with
  | cons hkey _ => exact hlost hkey

theorem plainKey_of_indexPathIsScan [LawfulSdk] [SqlTrue] (h : IndexPathIsScan table) :
    table.PlainKey := by
  by_contra hplain
  obtain ⟨rid, o, fields, hs, hname, hfields, hlost⟩ := json_key_lost hplain
  have hfind := (@find_single _ table _ _ .new _ _ _ [(rid, o)] _ hname hfields).mpr ⟨rfl, rfl⟩
  -- the scan finds the record
  have hscan := (@scan_runs _ table _ .new _ _ _ [(rid, o)] [(rid, o)]
    (.ok (.valueStream [.record []])) [] render_true).mpr (by
      refine ⟨rfl, ?_⟩
      rw [matching_true hname]
      rfl)
  have hget := (h .new _ _ _ _ _ [] _ hs render_true hfind _ _).mpr hscan
  -- reading by the key does not
  obtain ⟨q, hq, _⟩ := runs_lift_bind_ok.mp (by rwa [execGetByKey, if_neg (by simp)] at hget)
  obtain ⟨binds, hbinds, _⟩ := bind_eq_ok hq
  obtain ⟨rid', hkey, _⟩ := bind_eq_ok hbinds
  have hne : rid' ≠ rid := fun he => hlost (he ▸ hkey)
  have hnone : AssocMap.lookup rid' [(rid, o)] = none := by
    rw [AssocMap.lookup_eq_none]
    simpa using hne
  obtain ⟨_, hout⟩ := (getByKey_missing hkey hnone).mp hget
  injection hout with hout; injection hout with hout; injection hout with hout
  exact absurd hout (by simp)

/-- **When the index path is the scan path**: exactly when no key column is native JSON.
Then every key read by an index leads back to its record, and reading by the keys gives
the scan's records in the scan's order, or fails as the scan does. -/
theorem indexPath_iff [LawfulSdk] [SqlTrue] (table : Table) :
    (IndexPathIsScan table ↔ table.PlainKey) ∧ (KeysLeadBack table ↔ table.PlainKey) :=
  ⟨⟨plainKey_of_indexPathIsScan, indexPathIsScan_of_plainKey⟩,
    ⟨plainKey_of_keysLeadBack, keysLeadBack_of_plainKey⟩⟩

end Surql

end IndexPath

/-- A table whose key column is native JSON. -/
def profiles : Table where
  id := 0
  name := "profiles"
  columns := [⟨⟨0, 0⟩, "profile", .string, .json⟩]
  primaryKey := [⟨0, 0⟩]
  indices := []

/-- The profile `null`: an index reads its key as the JSON string of four letters, which no
record has, while a scan reads the record. -/
theorem profile_lost : let := plain
    let := plainSurql
    let s : Records := [(⟨"profiles", .string "null"⟩, [])]
    let key : Value := .record [.string "\"null\""]
    Populated profiles s ∧
      (execFindPkByIndex .new profiles ⟨.value (.bool true)⟩).Runs recordStore.Handle s s
        (.ok (.valueStream [key])) ∧
      (execGetByKey .new profiles ⟨[⟨0, 0⟩], [key]⟩).Runs recordStore.Handle s s
        (.ok (.valueStream [])) ∧
      (execScan .new profiles ⟨[0], some (.value (.bool true)), none⟩).Runs recordStore.Handle s s
        (.ok (.valueStream [key])) := by
  intro _ _ s key
  have htrue : SqlTrue := ⟨fun _ _ => rfl⟩
  have hfields : rowToRecord
      (.object (projectRow (projectColumns profiles profiles.primaryKeyColumns)
      ⟨"profiles", .string "null"⟩ [])) profiles.primaryKeyColumns = .ok [.string "\"null\""] := rfl
  refine ⟨⟨by decide, fun rec hrec _ => ?_⟩, (find_single rfl hfields).mpr ⟨rfl, rfl⟩,
    (getByKey_missing rfl rfl).mpr ⟨rfl, rfl⟩, (scan_runs render_true).mpr ⟨rfl, ?_⟩⟩
  · rw [List.mem_singleton.mp hrec]
    refine ⟨fun _ => .string "null", rfl, fun cid hcid => ?_⟩
    rw [List.mem_singleton.mp hcid]
    exact .inr ⟨_, rfl⟩
  · rw [matching_true rfl]
    rfl

/-- The entries of a list are found by their composite keys. -/
theorem entries_index_path : let := plain
    let := plainSurql
    IndexPathIsScan entries ∧ KeysLeadBack entries := by
  intro _ _
  let := plain_lawful
  have : SqlTrue := ⟨fun _ _ => rfl⟩
  have hplain : entries.PlainKey := by
    intro cid hcid
    rcases List.mem_cons.mp hcid with rfl | hcid
    · decide
    · rw [List.mem_singleton.mp hcid]; decide
  exact ⟨(indexPath_iff entries).1.mpr hplain, (indexPath_iff entries).2.mpr hplain⟩

end ToastySurreal
