import ToastySurreal.Proof.IndexPath

/-!
# One record for one key

An insert and an upsert collect the key out of a row, each in its own loop; reads,
updates and deletions are given it. `same_record` says that all of them name one record,
however the row's columns are ordered and the key is written, and that no other typed key
names it.
-/

namespace ToastySurreal

open Results Prog

section OneRecord

variable {table : Table} {value : ColumnId → Value} {columns : List ColumnId} {row : Row}

variable [Sdk]

/-! ## The operations on a record -/

/-- The record id of a key. -/
def keyId (table : Table) (value : ColumnId → Value) : Except Error RecordId :=
  recordId table (keyRecord (table.primaryKey.map value))

/-- The ways the engine writes a key for an operation by key. -/
inductive KeyForm (table : Table) (value : ColumnId → Value) : Value → Prop where
  | record : KeyForm table value (.record (table.primaryKey.map value))
  | scalar {cid : ColumnId} (h : table.primaryKey = [cid]) : KeyForm table value (value cid)

/-- The value of a single key column is no record, which the engine would take for a
wrapped key. -/
def Unwrapped (table : Table) (value : ColumnId → Value) : Prop :=
  ∀ cid, table.primaryKey = [cid] → (value cid).isRecord = false

theorem KeyForm.recordId {key : Value} (h : KeyForm table value key) (hu : Unwrapped table value) :
    recordId table key = keyId table value := by
  cases h with
  | record => exact recordId_wrapped hu
  | scalar hpk => rw [keyId, hpk]; rfl

/-- The operations on the record of a key. -/
inductive Names (table : Table) (value : ColumnId → Value) : Operation → Prop where
  | querySql {stmt : Insert} {row : Row} (ret : Bool) (hrow : stmt.values = some [row])
      (hl : ListsKey table stmt.columns) (hv : GivesKey table value stmt.columns row) :
      Names table value (.querySql (.ok (table, stmt)) ret)
  | insert {stmt : Insert} {row : Row} (ret : Bool) (hrow : stmt.values = some [row])
      (hl : ListsKey table stmt.columns) (hv : GivesKey table value stmt.columns row) :
      Names table value (.insert (some (table, stmt)) ret)
  | upsert {op : Upsert} {row : Row} (hrow : op.insert.values = some [row])
      (hl : ListsKey table op.insert.columns) (hv : GivesKey table value op.insert.columns row) :
      Names table value (.upsert table op)
  | getByKey {select : List ColumnId} {key : Value} (h : KeyForm table value key) :
      Names table value (.getByKey table ⟨select, [key]⟩)
  | updateByKey {op : UpdateByKey} {key : Value} (hkeys : op.keys = [key])
      (h : KeyForm table value key) : Names table value (.updateByKey table op)
  | deleteByKey {op : DeleteByKey} {key : Value} (hkeys : op.keys = [key])
      (h : KeyForm table value key) : Names table value (.deleteByKey table op)

/-- The record ids a statement is about. -/
def Query.recordIds (q : Query) : List (Option RecordId) :=
  match q.sql with
  | .selectKeys _ targets => targets.map q.recordId
  | _ => [q.recordId "rid"]

/-- The operation is about a record and no other: every statement it sends is, and without
a record id it fails before it sends one. -/
def Addresses (conn : Connection) (op : Operation) : Except Error RecordId → Prop
  | .ok rid => (exec conn op).Asks (Routed conn fun q => q.recordIds = [some rid])
  | .error _ => ∃ err, exec conn op = .done (conn, .error err)

theorem buildRow_keyId {op : String} {rid : RecordId} {content : Object}
    (hl : ListsKey table columns) (hv : GivesKey table value columns row)
    (h : buildRow op table columns row = .ok (rid, content)) : keyId table value = .ok rid := by
  rw [buildRow_eq hl hv] at h
  obtain ⟨split, _, h⟩ := bind_eq_ok h
  obtain ⟨rid', hrid, h⟩ := bind_eq_ok h
  injection h with h; injection h with h _; subst h
  exact hrid

theorem deleteQuery_recordId {op : DeleteByKey} {key : Value} {q : Query} {rid : RecordId}
    (hkey : recordId table key = .ok rid) (h : deleteQuery table op key = .ok q) :
    ∃ clauses, q.sql = .delete clauses ∧ q.recordId "rid" = some rid := by
  obtain ⟨clauses, _, rid', _, hrid, hsql, hid, _⟩ := deleteQuery_sent h
  rw [hkey] at hrid
  injection hrid with hrid; subst hrid
  exact ⟨clauses, hsql, hid⟩

/-- **What an operation sends is about its record.** -/
theorem sends_recordIds {op : Operation} {q : Query} {rid : RecordId} (hu : Unwrapped table value)
    (hop : Names table value op) (hrid : keyId table value = .ok rid) (h : op.Sends q) :
    q.recordIds = [some rid] := by
  -- the row's key columns give the record id of its `CREATE`
  have hcreate : ∀ {stmt : Insert} {row : Row}, stmt.values = some [row] →
      ListsKey table stmt.columns → GivesKey table value stmt.columns row → stmt.Sends table q →
      q.recordIds = [some rid] := by
    intro stmt row hrow hl hv hsend
    obtain ⟨rows, row', rid', content, want, hvalues, hmem, hbuild, rfl⟩ := hsend
    rw [hrow] at hvalues
    injection hvalues with hvalues; subst hvalues
    rw [List.mem_singleton.mp hmem] at hbuild
    rw [buildRow_keyId hl hv hbuild] at hrid
    injection hrid with hrid; subst hrid
    rfl
  cases hop with
  | querySql ret hrow hl hv => exact hcreate hrow hl hv h
  | insert ret hrow hl hv => exact hcreate hrow hl hv h
  | @upsert op row hrow hl hv =>
      obtain ⟨clause, row', rid', content, want, hsource, hbuild, hq⟩ := h
      obtain ⟨_, hvalues⟩ := upsertSource_ok hsource
      rw [hrow] at hvalues
      injection hvalues with hvalues; injection hvalues with hvalues; subst hvalues
      rw [buildRow_keyId hl hv hbuild] at hrid
      injection hrid with hrid; subst hrid
      rcases hq with rfl | hq
      · rfl
      · obtain ⟨body, returnAfter, hsql, hid⟩ := upsertQuery_recordId hq
        rw [Query.recordIds, hsql, ← hid]
  | @getByKey select key hkey =>
      have hq : getQuery table ⟨select, [key]⟩ = .ok q := h
      rw [getQuery, keyBinds, hkey.recordId hu, hrid] at hq
      injection hq with hq; subst hq
      rfl
  | updateByKey hkeys hkey =>
      obtain ⟨key', hkeys', hq⟩ := h
      rw [hkeys] at hkeys'
      injection hkeys' with hkeys' _; subst hkeys'
      obtain ⟨sets, clauses, hsql, hid⟩ := updateQuery_recordId ((hkey.recordId hu).trans hrid) hq
      rw [Query.recordIds, hsql, ← hid]
  | deleteByKey hkeys hkey =>
      obtain ⟨key', hkeys', hq⟩ := h
      rw [hkeys] at hkeys'
      injection hkeys' with hkeys' _; subst hkeys'
      obtain ⟨clauses, hsql, hid⟩ := deleteQuery_recordId ((hkey.recordId hu).trans hrid) hq
      rw [Query.recordIds, hsql, ← hid]

/-! ## Without a record id -/

omit [Sdk] in
theorem refuses_keep {conn : Connection} {p : Action ExecResponse} (h : p.Refuses) :
    ∃ err, conn.keep p = .done (conn, .error err) := by
  obtain ⟨err, rfl⟩ := h
  exact ⟨err, rfl⟩

omit [Sdk] in
theorem refuses_guarded {conn : Connection} {name : String} {p : Action ExecResponse}
    (h : p.Refuses) : (guarded conn name p).Refuses := Refuses.lift_bind fun _ _ => h

theorem buildRow_error {op : String} {e : Error} (hl : ListsKey table columns)
    (hv : GivesKey table value columns row) (hkey : keyId table value = .error e) :
    ∃ e', buildRow op table columns row = .error e' := by
  cases h : buildRow op table columns row with
  | error e' => exact ⟨e', rfl⟩
  | ok built =>
      obtain ⟨rid, content⟩ := built
      rw [buildRow_keyId hl hv h] at hkey
      exact absurd hkey (by simp)

/-- **Without a record id** an operation on it fails before it sends anything. -/
theorem exec_unaddressed {conn : Connection} {op : Operation} {e : Error}
    (hu : Unwrapped table value)
    (hop : Names table value op) (hkey : keyId table value = .error e) :
    ∃ err, exec conn op = .done (conn, .error err) := by
  -- an insert fails on its row, before the first `CREATE`
  have hinsert : ∀ {stmt : Insert} {row : Row} {ret : Bool}, stmt.values = some [row] →
      ListsKey table stmt.columns → GivesKey table value stmt.columns row →
      (execInsert conn table stmt ret).Refuses := by
    intro stmt row ret hrow hl hv
    obtain ⟨e', hbuild⟩ := @buildRow_error _ _ _ _ _ "insert" _ hl hv hkey
    rw [execInsert, hrow]
    refine Refuses.lift_bind fun returning _ => ⟨e', ?_⟩
    rw [insertRows, hbuild]
    rfl
  cases hop with
  | querySql ret hrow hl hv => exact refuses_keep (refuses_guarded (hinsert hrow hl hv))
  | insert ret hrow hl hv => exact refuses_keep (refuses_guarded (hinsert hrow hl hv))
  | @upsert op row hrow hl hv =>
      obtain ⟨e', hbuild⟩ := @buildRow_error _ _ _ _ _ "upsert" _ hl hv hkey
      refine refuses_keep (refuses_guarded ?_)
      rw [execUpsert]
      refine Refuses.lift_bind fun source hsource => ⟨e', ?_⟩
      obtain ⟨clause, row'⟩ := source
      obtain ⟨_, hvalues⟩ := upsertSource_ok hsource
      rw [hrow] at hvalues
      injection hvalues with hvalues; injection hvalues with hvalues; subst hvalues
      dsimp only
      rw [hbuild]
      rfl
  | getByKey hform =>
      refine refuses_keep ⟨e, ?_⟩
      rw [execGetByKey, if_neg (by simp), getQuery, keyBinds, hform.recordId hu, hkey]
      rfl
  | updateByKey hkeys hform =>
      refine refuses_keep (refuses_guarded ?_)
      rw [execUpdateByKey]
      refine Refuses.lift_bind fun key' hkey' => Refuses.lift_bind fun q hq => ?_
      have hone := singleKey_ok hkey'
      rw [hkeys] at hone
      injection hone with hone _; subst hone
      -- the key is looked at last, but still before the query is sent
      obtain ⟨_, hrid⟩ := updateQuery_addressed hq
      rw [hform.recordId hu, hkey] at hrid
      exact absurd hrid (by simp)
  | deleteByKey hkeys hform =>
      refine refuses_keep (refuses_guarded ?_)
      rw [execDeleteByKey]
      refine Refuses.lift_bind fun key' hkey' => Refuses.lift_bind fun q hq => ?_
      have hone := singleKey_ok hkey'
      rw [hkeys] at hone
      injection hone with hone _; subst hone
      obtain ⟨_, _, _, _, hrid, _⟩ := deleteQuery_sent hq
      rw [hform.recordId hu, hkey] at hrid
      exact absurd hrid (by simp)

theorem exec_addresses {conn : Connection} {op : Operation} (hu : Unwrapped table value)
    (hop : Names table value op) : Addresses conn op (keyId table value) := by
  cases hkey : keyId table value with
  | error e => exact exec_unaddressed hu hop hkey
  | ok rid =>
      have hdata : ∀ t, op ≠ .transaction t := by
        rintro t rfl
        cases hop
      obtain ⟨p, hp, hasks⟩ := @exec_data conn _ op hdata
      show (exec conn op).Asks _
      rw [hp]
      refine (hasks.mono (Routed.mono fun q hq => ?_)).attempt.bind fun _ => trivial
      exact sends_recordIds hu hop hkey hq

/-! ## No two keys -/

/-- The storage texts of a kind tell its values apart. -/
class TextInjective : Prop where
  inj : ∀ kind code code' text, Sdk.storageText kind code = some text →
    Sdk.storageText kind code' = some text → code = code'

/-- The types whose values a record id tells apart as they are: all but floats, lists and
what no column holds. -/
def Ty.isExact : Ty → Bool
  | .bool | .i8 | .i16 | .i32 | .i64 | .u8 | .u16 | .u32 | .u64 | .string | .bytes | .uuid
  | .text _ => true
  | _ => false

theorem toSurreal_eq_null {v : Value} (h : toSurreal v = .ok .null) : v = .null := by
  cases v with
  | null => rfl
  | u64 v =>
      rw [toSurreal] at h
      split at h <;> exact absurd h (by simp)
  | list items | record items | object entries =>
      rw [toSurreal] at h
      obtain ⟨_, _, h⟩ := bind_eq_ok h
      exact absurd h (by simp)
  | text kind code =>
      rw [toSurreal] at h
      split at h <;> exact absurd h (by simp)
  | _ => exact absurd h (by simp [toSurreal])

/-- **Values of one type with one encoding are equal.** -/
theorem toSurreal_inj [TextInjective] {v w : Value} {ty : Ty} {s : SurValue}
    (hexact : ty.isExact = true) (hv : v.HasTy ty) (hw : w.HasTy ty) (h : toSurreal v = .ok s)
    (h' : toSurreal w = .ok s) : v = w := by
  by_cases hnull : s = .null
  · subst hnull
    rw [toSurreal_eq_null h, toSurreal_eq_null h']
  · cases hv with
    | null => exact absurd (Except.ok.inj h).symm hnull
    | bool v | string v | bytes v | uuid v =>
        cases hw with
        | null => exact absurd (Except.ok.inj h').symm hnull
        | _ =>
            rw [toSurreal] at h h'
            injection h with h; subst h
            injection h' with h'; injection h' with h'
            rw [h']
    -- widening is undone by narrowing
    | i8 v =>
        cases hw with
        | null => exact absurd (Except.ok.inj h').symm hnull
        | i8 w =>
            rw [toSurreal] at h h'
            injection h with h; subst h
            injection h' with h'; injection h' with h'; injection h' with h'
            rw [Function.LeftInverse.injective Int8.toInt8_toInt64 h']
    | i16 v =>
        cases hw with
        | null => exact absurd (Except.ok.inj h').symm hnull
        | i16 w =>
            rw [toSurreal] at h h'
            injection h with h; subst h
            injection h' with h'; injection h' with h'; injection h' with h'
            rw [Function.LeftInverse.injective Int16.toInt16_toInt64 h']
    | i32 v =>
        cases hw with
        | null => exact absurd (Except.ok.inj h').symm hnull
        | i32 w =>
            rw [toSurreal] at h h'
            injection h with h; subst h
            injection h' with h'; injection h' with h'; injection h' with h'
            rw [Function.LeftInverse.injective Int32.toInt32_toInt64 h']
    | i64 v =>
        cases hw with
        | null => exact absurd (Except.ok.inj h').symm hnull
        | i64 w =>
            rw [toSurreal] at h h'
            injection h with h; subst h
            injection h' with h'; injection h' with h'; injection h' with h'
            rw [h']
    | u8 v | u16 v | u32 v =>
        cases hw with
        | null => exact absurd (Except.ok.inj h').symm hnull
        | _ w =>
            rw [toSurreal] at h h'
            injection h with h; subst h
            injection h' with h'; injection h' with h'; injection h' with h'
            have hwide := Function.LeftInverse.injective UInt64.toUInt64_toInt64 h'
            first
              | rw [UInt8.toUInt64_inj.mp hwide]
              | rw [UInt16.toUInt64_inj.mp hwide]
              | rw [UInt32.toUInt64_inj.mp hwide]
    | u64 v =>
        cases hw with
        | null => exact absurd (Except.ok.inj h').symm hnull
        | u64 w =>
            rw [toSurreal] at h h'
            split at h
            · injection h with h; subst h
              split at h'
              · injection h' with h'; injection h' with h'; injection h' with h'
                rw [Function.LeftInverse.injective UInt64.toUInt64_toInt64 h']
              · injection h' with h'; injection h' with h'
                exact absurd h' (by simp)
            · injection h with h; subst h
              split at h'
              · injection h' with h'; injection h' with h'
                exact absurd h' (by simp)
              · injection h' with h'; injection h' with h'; injection h' with h'
                injection h' with h' _
                rw [UInt64.toNat_inj.mp (Int.ofNat.inj h')]
    | text kind code =>
        cases hw with
        | null => exact absurd (Except.ok.inj h').symm hnull
        | text _ code' =>
            rw [toSurreal] at h h'
            split at h
            · rename_i text htext
              injection h with h; subst h
              split at h'
              · rename_i text' htext'
                injection h' with h'; injection h' with h'; subst h'
                rw [TextInjective.inj kind code code' _ htext htext']
              · exact absurd h' (by simp)
            · exact absurd h (by simp)
    | f32 v | f64 v | list items elem hitems => exact absurd hexact (by simp [Ty.isExact])

/-- Values of the key columns' types, none of them a float or a list. -/
def KeyTyped (table : Table) (value : ColumnId → Value) : Prop :=
  ∀ cid ∈ table.primaryKey, (value cid).HasTy (table.column cid).ty ∧
    (table.column cid).ty.isExact = true

omit [Sdk] in
theorem Value.HasTy.isRecord {v : Value} {ty : Ty} (h : v.HasTy ty) : v.isRecord = false := by
  cases h <;> rfl

/-- **Typed keys with one record id are equal.** -/
theorem keyId_inj [TextInjective] {value' : ColumnId → Value} {rid : RecordId}
    (ht : KeyTyped table value) (ht' : KeyTyped table value') (h : keyId table value = .ok rid)
    (h' : keyId table value' = .ok rid) {cid : ColumnId} (hcid : cid ∈ table.primaryKey) :
    value cid = value' cid := by
  obtain ⟨hty, hexact⟩ := ht cid hcid
  obtain ⟨hty', _⟩ := ht' cid hcid
  have hread := keyValue_read [] h hcid hty.isRecord
  have hread' := keyValue_read [] h' hcid hty'.isRecord
  exact toSurreal_inj hexact hty hty' hread hread'

/-- **One record for one key.** Whatever the order of a row's columns and the way a key is
written, an insert, an upsert and the operations by key address one record, or none of
them builds a record id; and two typed keys never have one record. -/
theorem same_record [TextInjective] (table : Table) (value : ColumnId → Value)
    (hu : Unwrapped table value) :
    (∀ op columns row, ListsKey table columns → GivesKey table value columns row →
      (∀ rid content, buildRow op table columns row = .ok (rid, content) →
        keyId table value = .ok rid) ∧
      (Storable table columns row → (buildRow op table columns row).map Prod.fst =
        keyId table value)) ∧
    (∀ key, KeyForm table value key → recordId table key = keyId table value) ∧
    (∀ conn op, Names table value op → Addresses conn op (keyId table value)) ∧
    ∀ value' rid, KeyTyped table value → KeyTyped table value' → keyId table value = .ok rid →
      keyId table value' = .ok rid → ∀ cid ∈ table.primaryKey, value cid = value' cid :=
  ⟨fun _ _ _ hl hv => ⟨fun _ _ => buildRow_keyId hl hv, buildRow_recordId hl hv⟩,
    fun _ hform => hform.recordId hu, fun _ _ => exec_addresses hu,
    fun _ _ ht ht' h h' _ => keyId_inj ht ht' h h'⟩

end OneRecord

/-- A record given for a single key column: an insert takes it for a wrapped key and creates
`notes:1`, an operation by key unwraps the record around it and has no id for it. -/
theorem record_key_disagrees : let := plain
    let value : ColumnId → Value := fun _ => .record [.i64 1]
    ListsKey notes [⟨0, 0⟩] ∧ GivesKey notes value [⟨0, 0⟩] [some (.record [.i64 1])] ∧
      buildRow "insert" notes [⟨0, 0⟩] [some (.record [.i64 1])] = .ok (⟨"notes", .number 1⟩, []) ∧
      KeyForm notes value (.record [.record [.i64 1]]) ∧
      ∃ e, recordId notes (.record [.record [.i64 1]]) = .error e := by
  intro _ value
  refine ⟨⟨by decide, by decide⟩, fun i cid hi _ => ?_, rfl, .record, _, rfl⟩
  match i with
  | 0 => rfl
  | i + 1 => exact absurd hi (by simp)

/-- The third entry of list 7, its columns listed the other way round. -/
theorem entry_addressed : let := plain
    let value : ColumnId → Value := fun cid => if cid.index = 0 then .i64 7 else .i64 3
    let rid : RecordId := ⟨"entries", .array [.number (.int 7), .number (.int 3)]⟩
    (buildRow "upsert" entries [⟨0, 1⟩, ⟨0, 0⟩] [some (.i64 3), some (.i64 7)]).map Prod.fst =
    .ok rid ∧
      Addresses .new (.getByKey entries ⟨[], [.record [.i64 7, .i64 3]]⟩) (.ok rid) ∧
      ∀ value', KeyTyped entries value' → keyId entries value' = .ok rid →
        ∀ cid ∈ entries.primaryKey, value cid = value' cid := by
  intro _ value rid
  have : TextInjective := ⟨fun _ _ _ _ h => absurd h (by simp)⟩
  have hkey : keyId entries value = .ok rid := rfl
  obtain ⟨hrow, _, hops, hinj⟩ := same_record entries value fun cid h =>
    absurd h (by simp [entries])
  refine ⟨?_, hkey ▸ hops .new _ (.getByKey .record), fun value' ht' h' =>
    hinj value' rid ?_ ht' hkey h'⟩
  · refine hkey ▸ (hrow "upsert" _ _ ⟨by decide, by decide⟩ ?_).2 ?_
    · intro i cid hi _
      match i with
      | 0 => injection hi with hi; subst hi; rfl
      | 1 => injection hi with hi; subst hi; rfl
      | i + 2 => exact absurd hi (by simp)
    · intro i cid hi hno
      match i with
      | 0 => injection hi with hi; subst hi; exact absurd (by decide) hno
      | 1 => injection hi with hi; subst hi; exact absurd (by decide) hno
      | i + 2 => exact absurd hi (by simp)
  · intro cid hcid
    rcases List.mem_cons.mp hcid with rfl | hcid
    · exact ⟨.i64 7, rfl⟩
    · rw [List.mem_singleton.mp hcid]; exact ⟨.i64 3, rfl⟩

end ToastySurreal
