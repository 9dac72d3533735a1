import ToastySurreal.Proof.Deeds
import ToastySurreal.Proof.Nulls
import ToastySurreal.Proof.TableMap

/-!
# Operations on the map

The driver's operations are the steps of the map: whatever they find in a store that is a
map, what they answer and leave behind is what the map's operation allows. Since each is one
statement, this goes for any number of them side by side.
-/

namespace ToastySurreal

open Prog Results Lists Simulation

section

variable [Sdk] {table : Table} {row value : ColumnId → Value} {rid : RecordId} {o : Object}

/-! ## Rows in records -/

omit [Sdk] in
theorem keyOf_congr (h : ∀ cid ∈ table.primaryKey, row cid = value cid) :
    keyOf table row = keyOf table value := List.map_congr_left h

theorem keyId_congr (h : keyOf table row = keyOf table value) :
    keyId table row = keyId table value := by
  rw [keyOf, keyOf] at h
  rw [keyId, keyId, h]

omit [Sdk] in
theorem KeyTyped.unwrapped (h : KeyTyped table value) : Unwrapped table value := by
  intro cid hkey
  exact (h cid (by rw [hkey]; exact List.mem_cons_self)).1.isRecord

/-- Keys with one record id are equal. -/
theorem keyOf_inj [TextInjective] (ht : KeyTyped table row) (ht' : KeyTyped table value)
    (h : keyId table row = .ok rid) (h' : keyId table value = .ok rid) :
    keyOf table row = keyOf table value :=
  keyOf_congr fun _ hcid => keyId_inj ht ht' h h' hcid

section Read

variable [LawfulSdk]

/-- What is stored for a value is read as the value. -/
theorem StoredAs.reads {c : Column} {v : Value} {s : SurValue} (h : StoredAs c v s)
    (ht : c.Takes v) : ∃ w, fromSurrealForColumn s c = .ok w ∧ SameValue c v w := by
  by_cases hnull : v = .null
  · rw [h.null hnull, hnull]
    exact ⟨.null, fromSurrealForColumn_none c, .null c⟩
  · exact fromSurrealForColumn_same ht hnull (h.value hnull)

/-- **A column reads the value of the row.** -/
theorem HoldsRow.reads (h : HoldsRow table row rid o) (ht : table.ReadsTrue) {c : Column}
    (hc : c ∈ table.columns) : ∃ w,
    fromSurrealForColumn ((projectColumn table c).value rid o) c = .ok w ∧
    SameValue c (row c.id) w := by
  have hgood := ht.columns c hc
  have htakes := h.takes c hc
  by_cases hk : isPrimaryKey table c = true
  · rw [if_pos hk] at hgood
    have hread := key_read (o := o) (isPrimaryKey_iff.mp hk) htakes.isRecord h.key
    rw [Column.Takes, if_neg hgood] at htakes
    have hsome : ¬ some c.storageTy = some .json := by simpa using hgood
    refine ⟨row c.id, ?_, by rw [SameValue, if_neg hgood]⟩
    rw [projectColumn_key hk, fromSurrealForColumn, fromSurrealWithStorage, if_neg hsome]
    exact fromSurreal_toSurreal htakes hread
  · have hk : isPrimaryKey table c = false := by simpa using hk
    rw [projectColumn_field hk]
    exact (h.stored c hc hk).reads htakes

/-- A selection of columns is read. -/
theorem HoldsRow.readsRow (h : HoldsRow table row rid o) (ht : table.ReadsTrue)
    {select : List ColumnId} (hselect : ∀ cid ∈ select, cid ∈ table.columns.map Column.id) :
    ∃ fields,
    rowToRecord (.object (projectRow (projectColumns table (select.map table.column)) rid o))
      (select.map table.column) = .ok fields ∧ ReadsRow table select row (.record fields) := by
  have hread : ∀ cid ∈ select, ∃ w, fromSurrealForColumn ((projectColumn table
      (table.column cid)).value rid o) (table.column cid) = .ok w ∧
        SameValue (table.column cid) (row cid) w := by
    intro cid hcid
    obtain ⟨hmem, hid⟩ := Table.column_mem (hselect cid hcid)
    have hcol := h.reads ht hmem
    rwa [hid] at hcol
  obtain ⟨fields, hfields⟩ := exists_forall₂ hread
  have hknown : ∀ c ∈ select.map table.column, c ∈ table.columns := by
    intro c hc
    obtain ⟨cid, hcid, rfl⟩ := List.mem_map.mp hc
    exact (Table.column_mem (hselect cid hcid)).1
  refine ⟨fields, rowToRecord_ok.mpr ?_, fields, rfl, hfields.imp fun _ _ h => h.2⟩
  rw [List.forall₂_map_left_iff]
  refine forall₂_imp_mem hfields fun cid hcid w _ hw => ?_
  rw [Object.field, projectRow_read hknown (List.mem_map_of_mem hcid)]
  exact hw.1

/-- **What a write returns** of the record it made. -/
theorem HoldsRow.returned (h : HoldsRow table row rid o) {cids : List ColumnId}
    (hcids : ∀ cid ∈ cids, cid ∈ table.columns.map Column.id ∧
      isPrimaryKey table (table.column cid) = false) :
    ∃ fields, rowToRecord (.object (recordRow rid o)) (cids.map table.column) = .ok fields ∧
      ReadsRow table cids row (.record fields) := by
  have hread : ∀ cid ∈ cids, ∃ w, fromSurrealForColumn (Object.field (recordRow rid o)
      (table.column cid).name) (table.column cid) = .ok w ∧
      SameValue (table.column cid) (row cid) w := by
    intro cid hcid
    obtain ⟨hknown, hk⟩ := hcids cid hcid
    obtain ⟨hmem, hid⟩ := Table.column_mem hknown
    have hcol := (h.stored _ hmem hk).reads (h.takes _ hmem)
    rwa [hid] at hcol
  obtain ⟨fields, hfields⟩ := exists_forall₂ hread
  refine ⟨fields, rowToRecord_ok.mpr ?_, fields, rfl, hfields.imp fun _ _ h => h.2⟩
  rw [List.forall₂_map_left_iff]
  exact hfields.imp fun _ _ h => h.1

end Read

/-! ## The map of a store -/

section Map

variable {s : Records} {m : TableMap}

/-- The record of a row that is there. -/
theorem Represents.found (h : Represents table s m) (hrid : keyId table value = .ok rid)
    (hrow : m (keyOf table value) = some row) :
    keyOf table value = keyOf table row ∧ ∃ o, AssocMap.lookup rid s = some o ∧
    HoldsRow table row rid o := by
  obtain ⟨hkey, rid', o, ho, hholds⟩ := h.present _ _ hrow
  have hid := hholds.key
  rw [← keyId_congr hkey, hrid] at hid
  injection hid with hid; subst hid
  exact ⟨hkey, o, ho, hholds⟩

/-- A record that is there has its row. -/
theorem Represents.row_of_record (h : Represents table s m) (ht : KeyTyped table value)
    (hrid : keyId table value = .ok rid) (ho : AssocMap.lookup rid s = some o) :
    ∃ row, m (keyOf table value) = some row := by
  rw [← Option.ne_none_iff_exists']
  intro hnone
  rw [h.absent value rid ht hnone hrid] at ho
  exact absurd ho (by simp)

variable [TextInjective]

/-- **A record put in place** puts its row in the map. -/
theorem Represents.put (h : Represents table s m) (hholds : HoldsRow table row rid o) :
    Represents table (AssocMap.insert rid o s) (m.put (keyOf table row) (some row)) := by
  refine ⟨fun vs row' hrow => ?_, fun value rid' ht hnone hrid => ?_⟩
  · by_cases hvs : vs = keyOf table row
    · subst hvs
      rw [TableMap.put_self] at hrow
      injection hrow with hrow; subst hrow
      exact ⟨rfl, rid, o, AssocMap.lookup_insert_self .., hholds⟩
    · rw [TableMap.put_ne hvs] at hrow
      obtain ⟨hkey, rid', o', ho', hholds'⟩ := h.present _ _ hrow
      -- two keys have two records
      have hne : rid' ≠ rid := fun he =>
        hvs (hkey.trans (keyOf_inj hholds'.typed hholds.typed hholds'.key (he ▸ hholds.key)))
      exact ⟨hkey, rid', o', by rw [AssocMap.lookup_insert_ne hne]; exact ho', hholds'⟩
  · by_cases hvs : keyOf table value = keyOf table row
    · rw [hvs, TableMap.put_self] at hnone
      exact absurd hnone (by simp)
    · rw [TableMap.put_ne hvs] at hnone
      have hne : rid' ≠ rid := fun he => hvs (keyOf_inj ht hholds.typed hrid (he ▸ hholds.key))
      rw [AssocMap.lookup_insert_ne hne]
      exact h.absent value rid' ht hnone hrid

/-- **A record erased** leaves its row out of the map. -/
theorem Represents.erase (h : Represents table s m) (ht : KeyTyped table value)
    (hrid : keyId table value = .ok rid) :
    Represents table (AssocMap.erase rid s) (m.put (keyOf table value) none) := by
  refine ⟨fun vs row hrow => ?_, fun value' rid' ht' hnone hrid' => ?_⟩
  · by_cases hvs : vs = keyOf table value
    · subst hvs
      rw [TableMap.put_self] at hrow
      exact absurd hrow (by simp)
    · rw [TableMap.put_ne hvs] at hrow
      obtain ⟨hkey, rid', o', ho', hholds'⟩ := h.present _ _ hrow
      have hne : rid' ≠ rid := fun he =>
        hvs (hkey.trans (keyOf_inj hholds'.typed ht hholds'.key (he ▸ hrid)))
      exact ⟨hkey, rid', o', by rw [AssocMap.lookup_erase_ne hne]; exact ho', hholds'⟩
  · by_cases hne : rid' = rid
    · subst hne
      exact AssocMap.lookup_erase_self ..
    · have hvs : keyOf table value' ≠ keyOf table value := by
        intro hvs
        rw [keyId_congr hvs, hrid] at hrid'
        injection hrid' with hrid'
        exact hne hrid'.symm
      rw [TableMap.put_ne hvs] at hnone
      rw [AssocMap.lookup_erase_ne hne]
      exact h.absent value' rid' ht' hnone hrid'

end Map

/-! ## Writes -/

section Writes

variable [LawfulSdk] [TextInjective] [Surql] {conn : Connection} {s s' : Records} {m : TableMap}
variable {out : Except Error ExecResponse} {entry : Row} {content : Object}
  {columns : Option (List ColumnId)}

omit [Sdk] [LawfulSdk] [TextInjective] [Surql] in
theorem Returns.understood {op : String} {returning : Option Returning}
    (h : Returns table returning columns) :
    returningColumns op table returning = .ok (columns.map fun cids => cids.map table.column) := by
  rw [h.clause]
  cases columns with
  | none => rfl
  | some cids =>
      have hcolumns : ∀ cids : List ColumnId,
          returningColumns.columns op table (cids.map some) = .ok (cids.map table.column) := by
        intro cids
        induction cids with
        | nil => rfl
        | cons cid cids ih =>
            rw [List.map_cons, returningColumns.columns, ok_bind ih]
            rfl
      rw [Option.map_some, returningColumns, ok_bind (hcolumns cids)]
      rfl

omit [Sdk] [LawfulSdk] [TextInjective] [Surql] in
/-- The key of a row has the types of the key columns. -/
theorem Table.Mapped.keyTyped (h : table.Mapped)
    (ht : ∀ cid ∈ table.primaryKey, (table.column cid).Takes (row cid)) : KeyTyped table row := by
  intro cid hcid
  obtain ⟨hmem, hid⟩ := Table.column_mem (table.key_ids cid hcid)
  have hgood := h.readsTrue.columns _ hmem
  rw [if_pos (isPrimaryKey_iff.mpr (by rw [hid]; exact hcid))] at hgood
  have htakes := ht cid hcid
  rw [Column.Takes, if_neg hgood] at htakes
  exact ⟨htakes, h.exact cid hcid⟩

omit [LawfulSdk] [TextInjective] [Surql] in
/-- **An insert makes a record of its row.** -/
theorem Built.holdsRow {cids : List ColumnId} (hb : Built table entry cids rid content)
    (hm : table.Mapped) (ht : ∀ cid, (table.column cid).Takes (valueOf entry cids cid)) :
    HoldsRow table (valueOf entry cids) rid content where
  key := hb.rid
  typed := hm.keyTyped fun cid _ => ht cid
  takes := fun c hc => by simpa [Table.column_id hc] using ht c.id
  stored := fun c hc hk => by
    have hgood := hm.readsTrue.columns c hc
    rw [if_neg (by rw [hk]; decide)] at hgood
    rw [recordRow_field hgood, Object.field]
    refine ⟨fun hnull => ?_, fun hvalue => ?_⟩
    · rw [hb.absent c hc hk hnull]
      rfl
    · obtain ⟨stored, hs, hl⟩ := hb.stored c hc hk hvalue
      rw [hs, hl]
      rfl

omit [TextInjective] [Surql] in
/-- The rows a write returns are decoded, or counted. -/
theorem HoldsRow.answers (h : HoldsRow table row rid o)
    (hret : ∀ cids, columns = some cids → ∀ cid ∈ cids,
      cid ∈ table.columns.map Column.id ∧ isPrimaryKey table (table.column cid) = false) :
    ∃ resp, finish (columns.map fun cids => cids.map table.column) [.object (recordRow rid o)] =
      .ok resp ∧ AnswersRow table columns row resp := by
  cases columns with
  | none => exact ⟨.count 1, rfl, rfl⟩
  | some cids =>
      obtain ⟨fields, hfields, hreads⟩ := h.returned (hret cids rfl)
      refine ⟨.valueStream [.record fields], ?_, _, rfl, hreads⟩
      rw [Option.map_some, finish, rowsToRecords_single, hfields]
      rfl

/-- **An insert is the map's.** -/
theorem insert_step {stmt : Insert} {ret : Bool} (hm : table.Mapped) (h : Represents table s m)
    (hrow : stmt.values = some [entry]) (ht : Targets table stmt.columns)
    (htakes : ∀ p ∈ rowPairs entry stmt.columns 0, (table.column p.1).Takes p.2)
    (hret : Returns table stmt.returning columns)
    (hrun : (execInsert conn table stmt ret).Runs recordStore.Handle s s' out) :
    ∃ m', RowStep table m (.insert (some (table, stmt)) ret) out m' ∧ Represents table s' m' := by
  have hrefused : ∀ {err : Error}, s' = s → out = .error err →
      ∃ m', RowStep table m (.insert (some (table, stmt)) ret) out m' ∧ Represents table s' m' := by
    rintro err rfl rfl
    exact ⟨m, .refused, h⟩
  unfold execInsert at hrun
  rw [hrow] at hrun
  dsimp only at hrun
  rw [hret.understood, lift_ok_bind, insertRows] at hrun
  cases hbuild : buildRow "insert" table stmt.columns entry with
  | error e =>
      rw [hbuild] at hrun
      exact hrefused hrun.1 hrun.2
  | ok built =>
  obtain ⟨rid, content⟩ := built
  rw [hbuild, lift_ok_bind, bind_bind] at hrun
  rcases Database.runs_runQuery_bind.mp hrun with ⟨err, hexec, hout⟩ | ⟨v, s₁, hexec, hrest⟩
  · exact hrefused (recordStore.atomic rfl hexec) hout
  obtain ⟨hfree, rfl, rfl⟩ := create_ok.mp hexec
  have hholds := (buildRow_built ht.nodup ht.known ht.keys hbuild).holdsRow hm
    (takes_valueOf ht.nodup htakes)
  -- what was stored is returned as it was given
  have hdone : ∃ resp, s' = AssocMap.insert rid content s ∧ out = .ok resp ∧
      AnswersRow table columns (valueOf entry stmt.columns) resp := by
    cases columns with
    | none => exact ⟨.count 1, hrest.1, hrest.2, rfl⟩
    | some cids =>
        obtain ⟨fields, hfields, hreads⟩ := hholds.returned (hret.plain cids rfl)
        rw [Option.map_some] at hrest
        dsimp only [takeRows] at hrest
        rw [rowsToRecords_single, hfields] at hrest
        exact ⟨.valueStream [.record fields], hrest.1, hrest.2, _, rfl, hreads⟩
  obtain ⟨resp, rfl, rfl, hanswers⟩ := hdone
  refine ⟨_, .inserted hrow hret ?_ hanswers, h.put hholds⟩
  cases hold : m (keyOf table (valueOf entry stmt.columns)) with
  | none => rfl
  | some old =>
      obtain ⟨_, o, ho, _⟩ := h.found hholds.key hold
      rw [hfree] at ho
      exact absurd ho (by simp)

/-! ## Rows that change -/

omit [LawfulSdk] [TextInjective] [Surql] in
/-- A row rewritten outside its key. -/
theorem HoldsRow.rewritten {new : ColumnId → Value} {o' : Object} (h : HoldsRow table row rid o)
    (hkey : ∀ cid ∈ table.primaryKey, new cid = row cid)
    (hnew : ∀ c ∈ table.columns, isPrimaryKey table c = false →
      c.Takes (new c.id) ∧ StoredAs c (new c.id) (Object.field (recordRow rid o') c.name)) :
    HoldsRow table new rid o' where
  key := (keyId_congr (keyOf_congr hkey)).trans h.key
  typed := fun cid hcid => by
    rw [hkey cid hcid]
    exact h.typed cid hcid
  takes := fun c hc => by
    by_cases hk : isPrimaryKey table c = true
    · rw [hkey _ (isPrimaryKey_iff.mp hk)]
      exact h.takes c hc
    · exact (hnew c hc (by simpa using hk)).1
  stored := fun c hc hk => (hnew c hc hk).2

omit [Sdk] [LawfulSdk] [TextInjective] [Surql] in
/-- No key is assigned. -/
theorem SetsOnly.keeps_key {as : List (ColumnId × Assignment)} (h : SetsOnly table as)
    {cid : ColumnId} (hcid : cid ∈ table.primaryKey) : assignedRow as row cid = row cid := by
  rw [assignedRow]
  cases hl : AssocMap.lookup cid as with
  | none => rfl
  | some a =>
      have ha := AssocMap.mem_of_lookup hl
      have hplain := h.plain _ ha
      rw [Bool.eq_false_iff, Ne, isPrimaryKey_iff, (Table.column_mem (h.known _ ha)).2] at hplain
      exact absurd hcid hplain

omit [Sdk] [LawfulSdk] [TextInjective] [Surql] in
/-- **A column is set, or no assignment is to it.** -/
theorem SetsOnly.assigned_cases {as : List (ColumnId × Assignment)} (h : SetsOnly table as)
    (row : ColumnId → Value) {c : Column} (hc : c ∈ table.columns) :
    (∃ v, (c.id, .set v) ∈ as ∧ c.Takes v ∧ assignedRow as row c.id = v) ∨
      (∀ a ∈ as, (table.column a.1).name ≠ c.name) ∧ assignedRow as row c.id = row c.id := by
  rw [assignedRow]
  cases hl : AssocMap.lookup c.id as with
  | none =>
      refine .inr ⟨fun a ha hname => ?_, rfl⟩
      obtain ⟨hmem, hid⟩ := Table.column_mem (h.known a ha)
      have hcol := Table.eq_of_name hmem hc hname
      rw [AssocMap.lookup_eq_none] at hl
      exact hl (List.mem_map.mpr ⟨a, ha, by rw [← hid, hcol]⟩)
  | some a =>
      have ha := AssocMap.mem_of_lookup hl
      obtain ⟨v, rfl, htakes⟩ := h.set _ ha
      rw [Table.column_id hc] at htakes
      exact .inl ⟨v, ha, htakes, rfl⟩

omit [LawfulSdk] [TextInjective] in
/-- A value that is set is stored. -/
theorem Assigns.storedAs {c : Column} {v : Value} {x z : SurValue} (h : Assigns c x z (.set v)) :
    StoredAs c v z := by
  rw [Assigns] at h
  split at h <;> rename_i hnull
  · exact ⟨fun _ => h, fun hv => absurd (Value.isNull_iff.mp hnull) hv⟩
  · exact ⟨fun hv => absurd (Value.isNull_iff.mpr hv) hnull, fun _ => h⟩

omit [LawfulSdk] [TextInjective] [Surql] in
/-- An update answers as every write does. -/
theorem wrote_eq {op : UpdateByKey} {resp : ExecResponse} {row : Object}
    (h : finish (op.returning.map fun cids => cids.map table.column) [.object row] = .ok resp) :
    op.wrote table row = .ok resp := by
  rw [UpdateByKey.wrote]
  cases hcols : op.returning with
  | none =>
      rw [hcols] at h
      exact h
  | some cids =>
      rw [hcols, Option.map_some, finish, rowsToRecords_single] at h
      cases hrow : rowToRecord (.object row) (cids.map table.column) with
      | error e =>
          rw [hrow] at h
          have h : (.error e : Except Error ExecResponse) = .ok resp := h
          exact absurd h (by simp)
      | ok fields =>
          rw [hrow] at h
          dsimp only
          rw [hrow]
          exact h

/-- **An update is the map's.** -/
theorem update_step {op : UpdateByKey} {key : Value} (hm : table.Mapped) (h : Represents table s m)
    (hkeys : op.keys = [key]) (hkey : KeyForm table value key) (ht : KeyTyped table value)
    (hsets : SetsOnly table op.assignments)
    (hret : Returns table (op.returning.map fun cids => .record (cids.map some)) op.returning)
    (hrun : (execUpdateByKey conn table op).Runs recordStore.Handle s s' out) :
    ∃ m', RowStep table m (.updateByKey table op) out m' ∧ Represents table s' m' := by
  rcases update_ran ⟨hsets.known, hsets.once⟩ hrun with
    ⟨rfl, ⟨e, _, rfl⟩ | ⟨err, rfl⟩⟩ | ⟨key', rid, v, hkeys', hrid, hexec, rfl⟩
  · exact ⟨m, .refused, h⟩
  · exact ⟨m, .refused, h⟩
  obtain rfl : key' = key := by rw [hkeys] at hkeys'; injection hkeys' with hk _; exact hk.symm
  rw [hkey.recordId ht.unwrapped] at hrid
  cases hexec with
  | unmatched hnone =>
      rw [updateAnswer_none]
      refine ⟨m, .missed hkeys hkey fun row hrow => ?_, h⟩
      obtain ⟨_, o, ho, hholds⟩ := h.found hrid hrow
      exact ⟨rid, o, hholds, hnone o ho⟩
  | @wrote o o' ho hsel hassigns hframe =>
      obtain ⟨row, hrow⟩ := h.row_of_record ht hrid ho
      obtain ⟨hsame, o₁, ho₁, hold⟩ := h.found hrid hrow
      rw [ho] at ho₁
      injection ho₁ with ho₁; subst ho₁
      have hnew : HoldsRow table (assignedRow op.assignments row) rid o' := by
        refine hold.rewritten (fun cid hcid => hsets.keeps_key hcid) fun c hc hk => ?_
        rcases hsets.assigned_cases row hc with ⟨v, ha, htakes, hv⟩ | ⟨hnone, hv⟩
        · have hid := hm.readsTrue.columns c hc
          rw [if_neg (by rw [hk]; decide)] at hid
          have hassign := hassigns _ ha (by rw [Table.column_id hc]; exact hid)
          rw [Table.column_id hc] at hassign
          rw [hv]
          exact ⟨htakes, hassign.storedAs⟩
        · rw [hv, hframe c.name hnone]
          exact ⟨hold.takes c hc, hold.stored c hc hk⟩
      have hkeyOf : keyOf table (assignedRow op.assignments row) = keyOf table value :=
        (keyOf_congr fun cid hcid => hsets.keeps_key hcid).trans hsame.symm
      obtain ⟨resp, hresp, hanswers⟩ := hnew.answers hret.plain
      rw [updateAnswer_row, wrote_eq hresp]
      refine ⟨_, .updated hkeys hkey hrow ⟨rid, o, hold, hsel⟩ hanswers, ?_⟩
      rw [← hkeyOf]
      exact h.put hnew

omit [LawfulSdk] in
/-- **A deletion is the map's.** -/
theorem delete_step {op : DeleteByKey} {key : Value} (h : Represents table s m)
    (hkeys : op.keys = [key]) (hkey : KeyForm table value key) (ht : KeyTyped table value)
    (hrun : (execDeleteByKey conn table op).Runs recordStore.Handle s s' out) :
    ∃ m', RowStep table m (.deleteByKey table op) out m' ∧ Represents table s' m' := by
  rcases delete_removes hrun with ⟨rfl, ⟨e, _, rfl⟩ | ⟨err, rfl⟩⟩ | hremoves
  · exact ⟨m, .refused, h⟩
  · exact ⟨m, .refused, h⟩
  have hrecord : ∀ {rid}, recordId table key = .ok rid → keyId table value = .ok rid :=
    fun hrid => (hkey.recordId ht.unwrapped).symm.trans hrid
  cases hremoves with
  | @removed rid o hmatch =>
      obtain ⟨key', hkeys', hrid⟩ := hmatch.key
      obtain rfl : key' = key := by rw [hkeys] at hkeys'; injection hkeys' with hk _; exact hk.symm
      obtain ⟨row, hrow⟩ := h.row_of_record ht (hrecord hrid) hmatch.record
      obtain ⟨_, o', ho', hholds⟩ := h.found (hrecord hrid) hrow
      rw [hmatch.record] at ho'
      injection ho' with ho'; subst ho'
      exact ⟨_, .deleted hkeys hkey hrow ⟨rid, o, hholds, hmatch.holds⟩, h.erase ht (hrecord hrid)⟩
  | missed hnone =>
      refine ⟨m, .undeleted hkeys hkey fun row hrow => ?_, h⟩
      obtain ⟨hsame, rid, o, ho, hholds⟩ := h.present _ _ hrow
      have hrid : recordId table key = .ok rid :=
        (hkey.recordId ht.unwrapped).trans ((keyId_congr hsame).trans hholds.key)
      exact ⟨rid, o, hholds, Bool.eq_false_iff.mpr fun hsel =>
        hnone ⟨rid, o, ⟨key, hkeys, hrid⟩, ho, hsel⟩⟩

/-! ## Upserts -/

omit [LawfulSdk] [TextInjective] [Surql] in
/-- A column without anything takes what is stored for the source's value. -/
theorem StoredAs.coalesced {c : Column} {v w : Value} {x z : SurValue} (h : StoredAs c v x)
    (hw : toSurrealForColumn w c = .ok z) (hnull : w ≠ .null) :
    (Blank c v → StoredAs c w (coalesce x z)) ∧ (¬ Blank c v → coalesce x z = x) := by
  have hz : StoredAs c w z := ⟨fun hw => absurd hw hnull, fun _ => hw⟩
  refine ⟨fun hblank => ?_, fun hfull => ?_⟩
  · by_cases hv : v = .null
    · rw [h.null hv]
      exact hz
    · have hx := h.value hv
      rw [hblank.resolve_left hv] at hx
      injection hx with hx; subst hx
      exact hz
  · have hv : v ≠ .null := fun hv => hfull (.inl hv)
    have hx := h.value hv
    have hsome : x ≠ .none :=
      toSurrealWithStorage_ne_none (Bool.eq_false_iff.mpr fun hn => hv (Value.isNull_iff.mp hn)) hx
    cases x with
    | none => exact absurd rfl hsome
    | null => exact absurd (.inr hx) hfull
    | _ => rfl

section Upserts

variable {op : Upsert} {clause : UpsertClause} {q : Query} {body : UpsertBody} {o' : Object}

omit [LawfulSdk] [TextInjective] in
/-- A shared column is set. -/
theorem upsert_sets (hsharing : op.Sharing table clause) (hm : table.Mapped)
    (hsent : SentUpsert table op clause entry content q body)
    (happly : applyBody q rid o body = .ok o') {c : Column} {v : Value} (hc : c ∈ table.columns)
    (hk : isPrimaryKey table c = false) (ha : (c.id, .set v) ∈ clause.shared) :
    StoredAs c v (Object.field (recordRow rid o') c.name) := by
  obtain ⟨z, hz, hfield⟩ := upsertQuery_mutates hsharing hsent happly ha
  have hid := hm.readsTrue.columns c hc
  rw [if_neg (by rw [hk]; decide)] at hid
  rw [Table.column_id hc] at hz hfield
  rw [hfield hid]
  have hassign : Assigns c (Object.field (recordRow rid o) c.name) z (.set v) := hz
  exact hassign.storedAs

omit [LawfulSdk] [TextInjective] in
/-- **The row an upsert creates.** -/
theorem upsert_created (hsharing : op.Sharing table clause) (hm : table.Mapped)
    (hsets : SetsOnly table clause.shared)
    (hbuild : buildRow "upsert" table op.insert.columns entry = .ok (rid, content))
    (hsource : HoldsRow table row rid content)
    (hsent : SentUpsert table op clause entry content q body)
    (happly : applyBody q rid [] body = .ok o') :
    HoldsRow table (assignedRow clause.shared row) rid o' := by
  refine hsource.rewritten (fun cid hcid => hsets.keeps_key hcid) fun c hc hk => ?_
  rcases hsets.assigned_cases row hc with ⟨v, ha, htakes, hv⟩ | ⟨hnone, hv⟩
  · rw [hv]
    exact ⟨htakes, upsert_sets hsharing hm hsent happly hc hk ha⟩
  · rw [hv, created_others hsharing hbuild hsent happly hnone]
    exact ⟨hsource.takes c hc, hsource.stored c hc hk⟩

omit [LawfulSdk] [TextInjective] in
/-- **The row an upsert merges with.** -/
theorem upsert_merged {old : ColumnId → Value} (hsharing : op.Sharing table clause)
    (hm : table.Mapped) (hsets : SetsOnly table clause.shared)
    (hbuild : buildRow "upsert" table op.insert.columns entry = .ok (rid, content))
    (htakes : ∀ cid, (table.column cid).Takes (valueOf entry op.insert.columns cid))
    (hold : HoldsRow table old rid o) (hsent : SentUpsert table op clause entry content q body)
    (happly : applyBody q rid o body = .ok o') :
    HoldsRow table (assignedRow clause.shared (filled table (valueOf entry op.insert.columns) old))
    rid o' := by
  have hkeep : ∀ cid ∈ table.primaryKey,
      filled table (valueOf entry op.insert.columns) old cid = old cid := by
    intro cid hcid
    rw [filled, if_neg]
    rintro ⟨hk, _⟩
    rw [Bool.eq_false_iff, Ne, isPrimaryKey_iff,
      (Table.column_mem (table.key_ids cid hcid)).2] at hk
    exact hk hcid
  refine hold.rewritten (fun cid hcid => (hsets.keeps_key hcid).trans (hkeep cid hcid))
    fun c hc hk => ?_
  rcases hsets.assigned_cases (filled table (valueOf entry op.insert.columns) old) hc with
    ⟨v, ha, hv, hset⟩ | ⟨hnone, hset⟩
  · rw [hset]
    exact ⟨hv, upsert_sets hsharing hm hsent happly hc hk ha⟩
  rw [hset, filled, Table.column_id hc]
  have hid := hm.readsTrue.columns c hc
  rw [if_neg (by rw [hk]; decide)] at hid
  have hnot : mutationOf clause.shared c.id = none := by
    cases hmut : mutationOf clause.shared c.id with
    | none => rfl
    | some a =>
        have ha := mutationOf_mem hsharing.shared hc hmut
        exact absurd (by rw [Table.column_id hc]) (hnone _ ha)
  obtain ⟨hstays, hfills⟩ :=
    upsertQuery_fills hsharing.nodup hsharing.known hsharing.shared hbuild hsent happly hc hnot
  have hcol := htakes c.id
  rw [Table.column_id hc] at hcol
  by_cases hnull : valueOf entry op.insert.columns c.id = .null
  · rw [if_neg (fun hfill => hfill.2.2 hnull), hstays (.inr hnull)]
    exact ⟨hold.takes c hc, hold.stored c hc hk⟩
  obtain ⟨stored, hs, hfield⟩ := hfills hk hnull hid
  obtain ⟨hblank, hfull⟩ := (hold.stored c hc hk).coalesced hs hnull
  rw [hfield]
  by_cases hb : Blank c (old c.id)
  · rw [if_pos ⟨hk, hb, hnull⟩]
    exact ⟨hcol, hblank hb⟩
  · rw [if_neg (fun hfill => hb hfill.2.1), hfull hb]
    exact ⟨hold.takes c hc, hold.stored c hc hk⟩

end Upserts

/-- **An upsert is the map's.** -/
theorem upsert_step {op : Upsert} {clause : UpsertClause} (hm : table.Mapped)
    (h : Represents table s m) (hclause : op.clause = some clause)
    (haction : clause.action = .update) (hrow : op.insert.values = some [entry])
    (ht : Targets table op.insert.columns)
    (htakes : ∀ p ∈ rowPairs entry op.insert.columns 0, (table.column p.1).Takes p.2)
    (hsets : SetsOnly table clause.shared) (hret : Returns table op.insert.returning columns)
    (hrun : (execUpsert conn table op).Runs recordStore.Handle s s' out) :
    ∃ m', RowStep table m (.upsert table op) out m' ∧ Represents table s' m' := by
  have hrefused : ∀ {err : Error}, s' = s → out = .error err →
      ∃ m', RowStep table m (.upsert table op) out m' ∧ Represents table s' m' := by
    rintro err rfl rfl
    exact ⟨m, .refused, h⟩
  have hsharing : op.Sharing table clause := ⟨ht.nodup, ht.known, hsets.known, hsets.once⟩
  have hvalues := takes_valueOf ht.nodup htakes
  unfold execUpsert at hrun
  rcases runs_lift_bind.mp hrun with ⟨e, _, hs, hout⟩ | ⟨⟨clause', entry'⟩, hsource, hrun⟩
  · exact hrefused hs hout
  obtain ⟨hclause', hrow'⟩ := upsertSource_ok hsource
  obtain rfl : clause' = clause := Option.some.inj (hclause'.symm.trans hclause)
  obtain rfl : entry' = entry := by simpa using hrow'.symm.trans hrow
  dsimp only at hrun
  rcases runs_lift_bind.mp hrun with ⟨e, _, hs, hout⟩ | ⟨⟨rid, content⟩, hbuild, hrun⟩
  · exact hrefused hs hout
  dsimp only at hrun
  rw [hret.understood, lift_ok_bind, haction] at hrun
  dsimp only at hrun
  rcases runs_lift_bind.mp hrun with ⟨e, _, hs, hout⟩ | ⟨q, hq, hrun⟩
  · exact hrefused hs hout
  obtain ⟨body, hsql, hqrid, hsent⟩ := upsertQuery_sent hq
  rcases Database.runs_runQuery_bind.mp hrun with ⟨err, hexec, hout⟩ | ⟨v, s₁, hexec, hrun⟩
  · exact hrefused (recordStore.atomic (by rw [hsql]; rfl) hexec) hout
  replace hexec : Records.exec s q (.ok v) s₁ := hexec
  simp only [Records.exec, hsql, hqrid] at hexec
  rcases hexec with ⟨⟨err, herr⟩, _⟩ | ⟨rid', o', hr, happly, rfl, hv⟩
  · exact absurd herr (by simp)
  injection hr with hr; subst hr
  injection hv with hv; subst hv
  have hcontent : HoldsRow table (valueOf entry' op.insert.columns) rid content :=
    (buildRow_built ht.nodup ht.known ht.keys hbuild).holdsRow hm hvalues
  -- the record is a row of the merged values, under the key of the source
  have hnew : HoldsRow table (merged table clause'.shared (valueOf entry' op.insert.columns)
        (m (keyOf table (valueOf entry' op.insert.columns)))) rid o' := by
    cases hold : m (keyOf table (valueOf entry' op.insert.columns)) with
    | none =>
        rw [h.absent _ _ hcontent.typed hold hcontent.key] at happly
        exact upsert_created hsharing hm hsets hbuild hcontent hsent happly
    | some old =>
        obtain ⟨_, o, ho, holds⟩ := h.found hcontent.key hold
        rw [ho] at happly
        exact upsert_merged hsharing hm hsets hbuild hvalues holds hsent happly
  obtain ⟨resp, hresp, hanswers⟩ := hnew.answers hret.plain
  obtain ⟨rfl, rfl⟩ := runs_lift.mp hrun
  refine ⟨_, ?_, h.put hnew⟩
  rw [keyOf_inj hnew.typed hcontent.typed hnew.key hcontent.key]
  have hok : finish (columns.map fun cids => cids.map table.column)
      (takeRows (.array [.object (recordRow rid o')])) = .ok resp := hresp
  rw [hok]
  exact .upserted hclause hrow hret rfl hanswers

end Writes

/-! ## Reads -/

section Reads

variable [LawfulSdk] [Surql] {conn : Connection} {s s' : Records} {m : TableMap}
variable {out : Except Error ExecResponse} {select : List ColumnId}

omit [Sdk] [LawfulSdk] [Surql] in
/-- Selecting from record ids returns the records that are there, in the order of the ids. -/
theorem selectKeysRows_lookup (projection : List ProjItem) (sql : Sql)
    {all : List (String × SurValue)}
    (hn : (all.map Prod.fst).Nodup) : ∀ {binds : List (String × SurValue)} {rids : List RecordId},
    binds ⊆ all → binds.map Prod.snd = rids.map RecordId.value →
    selectKeysRows s ⟨sql, all⟩ projection (binds.map Prod.fst) = rids.filterMap fun rid =>
      (AssocMap.lookup rid s).map fun o => .object (projectRow projection rid o)
  | [], [], _, _ => rfl
  | (p, v) :: binds, rid :: rids, hsub, hvalues => by
      obtain ⟨hv, htail⟩ := List.cons.inj hvalues
      obtain rfl : v = rid.value := hv
      have hrest := selectKeysRows_lookup projection sql hn
        (fun b hb => hsub (List.mem_cons_of_mem _ hb)) htail
      -- the names of the parameters differ, so each finds its own key
      have hparam : Query.param ⟨sql, all⟩ p = rid.value := by
        rw [Query.param, AssocMap.lookup_of_mem hn (hsub List.mem_cons_self)]
        rfl
      have hrid : Query.recordId ⟨sql, all⟩ p = some rid := by
        rw [Query.recordId, hparam]
        rfl
      have hrow : (do
          let rid ← Query.recordId ⟨sql, all⟩ p
          let o ← AssocMap.lookup rid s
          return .object (projectRow projection rid o)) =
            (AssocMap.lookup rid s).map fun o => SurValue.object (projectRow projection rid o) := by
        rw [hrid]
        show (AssocMap.lookup rid s).bind _ = _
        cases AssocMap.lookup rid s <;> rfl
      unfold selectKeysRows at hrest ⊢
      rw [List.map_cons, List.filterMap_cons, List.filterMap_cons, hrest, hrow]

omit [Surql] in
/-- The rows of the keys are decoded. -/
theorem Represents.decodes (h : Represents table s m) (hm : table.Mapped)
    (hselect : ∀ cid ∈ select, cid ∈ table.columns.map Column.id)
    {values : List (ColumnId → Value)} {rids : List RecordId}
    (hids : List.Forall₂ (fun value rid => KeyTyped table value ∧ keyId table value = .ok rid)
      values rids) :
    ∃ records, rowsToRecords (select.map table.column) (rids.filterMap fun rid =>
        (AssocMap.lookup rid s).map fun o =>
          .object (projectRow (projectColumns table (select.map table.column)) rid o)) =
            .ok records ∧
      List.Forall₂ (ReadsRow table select) ((values.map (keyOf table)).filterMap m) records := by
  induction hids with
  | nil => exact ⟨[], rfl, .nil⟩
  | @cons value rid values rids hpair _ ih =>
      obtain ⟨ht, hrid⟩ := hpair
      obtain ⟨records, hrecords, hreads⟩ := ih
      rw [List.map_cons]
      cases hrow : m (keyOf table value) with
      | none =>
          rw [List.filterMap_cons_none hrow,
            List.filterMap_cons_none (by rw [h.absent value rid ht hrow hrid]; rfl)]
          exact ⟨records, hrecords, hreads⟩
      | some row =>
          obtain ⟨_, o, ho, hholds⟩ := h.found hrid hrow
          obtain ⟨fields, hfields, hread⟩ := hholds.readsRow hm.readsTrue hselect
          rw [List.filterMap_cons_some hrow, List.filterMap_cons_some (by rw [ho]; rfl)]
          refine ⟨.record fields :: records, ?_, .cons hread hreads⟩
          rw [rowsToRecords, ok_bind hfields, ok_bind hrecords]

/-- **A read is the map's.** -/
theorem get_step {op : GetByKey} (hm : table.Mapped) (h : Represents table s m)
    (hkeys : ∀ key ∈ op.keys, ∃ value rid, KeyForm table value key ∧ KeyTyped table value ∧
      keyId table value = .ok rid) (hselect : ∀ cid ∈ op.select, cid ∈ table.columns.map Column.id)
    (hrun : (execGetByKey conn table op).Runs recordStore.Handle s s' out) :
    s' = s ∧ RowStep table m (.getByKey table op) out m := by
  obtain ⟨pairs, hpairs⟩ := exists_forall₂ (R := fun key (p : (ColumnId → Value) × RecordId) =>
    KeyForm table p.1 key ∧ KeyTyped table p.1 ∧ keyId table p.1 = .ok p.2) fun key hkey => by
      obtain ⟨value, rid, hforms⟩ := hkeys key hkey
      exact ⟨(value, rid), hforms⟩
  have hvs : List.Forall₂ (fun key vs => ∃ value, KeyForm table value key ∧ vs = keyOf table value)
      op.keys ((pairs.map Prod.fst).map (keyOf table)) := by
    rw [List.map_map, List.forall₂_map_right_iff]
    exact hpairs.imp fun _ p hp => ⟨p.1, hp.1, rfl⟩
  have hids : List.Forall₂ (fun value rid => KeyTyped table value ∧ keyId table value = .ok rid)
      (pairs.map Prod.fst) (pairs.map Prod.snd) := by
    rw [List.forall₂_map_left_iff, List.forall₂_map_right_iff, List.forall₂_same]
    intro p hp
    obtain ⟨_, _, hform⟩ := forall₂_mem_right hpairs hp
    exact hform.2
  have hrids : List.Forall₂ (fun key rid => recordId table key = .ok rid) op.keys
      (pairs.map Prod.snd) := by
    rw [List.forall₂_map_right_iff]
    exact hpairs.imp fun _ p hp => (hp.1.recordId hp.2.1.unwrapped).trans hp.2.2
  obtain ⟨records, hrecords, hreads⟩ := h.decodes hm hselect hids
  have hread : s' = s ∧ out = .ok (.valueStream records) := by
    unfold execGetByKey at hrun
    split at hrun <;> rename_i hempty
    · rw [List.isEmpty_iff] at hempty
      rw [hempty] at hpairs
      cases hpairs
      injection hrecords with hrecords; subst hrecords
      exact hrun
    · obtain ⟨binds, hbinds, hnames, hvalues⟩ := keyBinds_ok (i := 0) hrids
      have hn : (binds.map Prod.fst).Nodup := by
        rw [hnames]
        exact (List.nodup_range' ..).map fun _ _ h => toString_inj (append_left_cancel h)
      have hexec : ∀ r s',
          Records.exec s ⟨.selectKeys (projectColumns table (op.select.map table.column))
          (binds.map Prod.fst), binds⟩ r s' ↔ s' = s ∧ r =
          .ok (.array ((pairs.map Prod.snd).filterMap
            fun rid => (AssocMap.lookup rid s).map fun o =>
              .object (projectRow (projectColumns table (op.select.map table.column)) rid o))) := by
        intro r s'
        show (s' = s ∧ r = .ok (.array (selectKeysRows s _ _ (binds.map Prod.fst)))) ↔ _
        rw [selectKeysRows_lookup _ _ hn (List.Subset.refl binds) hvalues]
      rw [getQuery, hbinds] at hrun
      have hdone := (reading_runs hexec).mp hrun
      rw [hrecords] at hdone
      exact hdone
  exact ⟨hread.1, hread.2 ▸ .read hvs hreads⟩

end Reads

/-! ## Operations in a row -/

section Operations

variable [LawfulSdk] [TextInjective] [Surql] {conn conn' : Connection} {s s' : Records}
  {m : TableMap}
variable {op : Operation} {result : Except Error ExecResponse}

omit [Sdk] [LawfulSdk] [TextInjective] in
/-- A write is refused by its guard, or runs. -/
theorem runs_guarded {name : String} {p : Action ExecResponse}
    (h : (conn.keep (guarded conn name p)).Runs recordStore.Handle s s' (.ok (conn', result))) :
    (s' = s ∧ ∃ err, result = .error err) ∨ p.Runs recordStore.Handle s s' result := by
  obtain ⟨result', hrun, hout⟩ := runs_keep.mp h
  injection hout with hout; injection hout with _ hresult; subst hresult
  rcases runs_lift_bind.mp hrun with ⟨e, _, hs, he⟩ | ⟨_, _, hp⟩
  · exact .inl ⟨hs, e, he⟩
  · exact .inr hp

/-- **Every operation on rows is the map's**, in a transaction or out of it. -/
theorem op_step (hm : table.Mapped) (h : Represents table s m) (hop : OnTable table op)
    (hrun : (exec conn op).Runs recordStore.Handle s s' (.ok (conn', result))) :
    ∃ m', RowStep table m op result m' ∧ Represents table s' m' := by
  have hrefused : s' = s ∧ (∃ err, result = .error err) →
      ∃ m', RowStep table m op result m' ∧ Represents table s' m' := by
    rintro ⟨rfl, err, rfl⟩
    exact ⟨m, .refused, h⟩
  cases hop with
  | insert ret hrow ht htakes hret =>
      rcases runs_guarded hrun with hno | hrun
      · exact hrefused hno
      · exact insert_step hm h hrow ht htakes hret hrun
  | get hkeys hselect =>
      obtain ⟨result', hrun, hout⟩ := runs_keep.mp hrun
      injection hout with hout; injection hout with _ hresult; subst hresult
      obtain ⟨rfl, hstep⟩ := get_step hm h hkeys hselect hrun
      exact ⟨m, hstep, h⟩
  | update hkeys hkey ht hsets hret =>
      rcases runs_guarded hrun with hno | hrun
      · exact hrefused hno
      · exact update_step hm h hkeys hkey ht hsets hret hrun
  | delete hkeys hkey ht =>
      rcases runs_guarded hrun with hno | hrun
      · exact hrefused hno
      · exact delete_step h hkeys hkey ht hrun
  | upsert hclause haction hrow ht htakes hsets hret =>
      rcases runs_guarded hrun with hno | hrun
      · exact hrefused hno
      · exact upsert_step hm h hclause haction hrow ht htakes hsets hret hrun

/-- What a client does on the rows: an operation of the map, or one on transactions that is
refused. -/
def EntryStep (table : Table) (m : TableMap) (entry : Operation × Except Error ExecResponse)
    (m' : TableMap) : Prop :=
  RowStep table m entry.1 entry.2 m' ∨
    (∃ t, entry.1 = .transaction t) ∧ (∃ err, entry.2 = .error err) ∧ m' = m

/-- The operation is on the rows of the table, or on transactions. -/
def OnRows (table : Table) (op : Operation) : Prop := OnTable table op ∨ ∃ t, op = .transaction t

end Operations

/-! ## Operations of one statement -/

section Single

variable {conn : Connection}

omit [Sdk] in
theorem single_keep {α : Type} {p : Action α} (hp : p.AtMostOnce) : (conn.keep p).AtMostOnce :=
  hp.attempt.bind fun _ => ⟨.ok _, rfl⟩

omit [Sdk] in
/-- An operation on transactions is one call. -/
theorem single_transaction (t : Transaction) : (execTransaction conn t).AtMostOnce := by
  have hfinish : ∀ call, (finishTransaction call).AtMostOnce :=
    fun call => (Database.refusable_call call).atMostOnce.attempt.bind fun _ => ⟨.ok _, rfl⟩
  cases t with
  | start isolation readOnly mode =>
      cases isolation with
      | true => trivial
      | false =>
          cases mode with
          | other debug => trivial
          | default =>
              rw [execTransaction, if_neg Bool.false_ne_true]
              split
              · trivial
              · refine (Database.refusable_call .begin).atMostOnce.attempt.bind fun result => ?_
                cases result with
                | ok v => exact ⟨.ok _, rfl⟩
                | error err => exact ⟨.ok _, rfl⟩
  | commit | rollback =>
      rw [execTransaction]
      split
      · exact hfinish _
      · trivial
  | savepoint | releaseSavepoint | rollbackToSavepoint => trivial

/-- **An operation on rows is one statement**, and fails where that is refused. -/
theorem OnTable.statement {op : Operation} (h : OnTable table op) (conn : Connection) :
    ∃ p, exec conn op = conn.keep p ∧ Database.Refusable p := by
  -- nothing is asked before the statement, and nothing after it
  have hquery : ∀ {q : Query} {f : SurValue → Action ExecResponse}, (∀ v, (f v).Ended) →
      Database.Refusable (runQuery conn q >>= f) := fun hf => (Database.refusable_call _).bind hf
  cases h with
  | @insert stmt row columns ret hrow ht htakes hret =>
      refine ⟨_, rfl, .lift_bind fun _ _ => ?_⟩
      show Database.Refusable (execInsert conn table stmt ret)
      rw [execInsert, hrow]
      dsimp only
      refine .lift_bind fun returning _ => ?_
      rw [insertRows, bind_bind]
      refine .lift_bind fun built _ => ?_
      rw [bind_bind]
      exact (Database.refusable_call _).bind fun value =>
        ((Ended.lift _).bind fun _ => ⟨.ok _, rfl⟩).bind fun _ => ⟨.ok _, rfl⟩
  | @get op hkeys hselect =>
      refine ⟨_, rfl, ?_⟩
      rw [execGetByKey]
      split
      · trivial
      · exact .lift_bind fun q _ => hquery fun value => (Ended.lift _).bind fun _ => ⟨.ok _, rfl⟩
  | @update op key value hkeys hkey ht hsets hret =>
      refine ⟨_, rfl, .lift_bind fun _ _ => .lift_bind fun key _ => .lift_bind fun q _ =>
        hquery fun value => ?_⟩
      dsimp only
      split
      · exact ⟨.error _, rfl⟩
      · cases op.returning with
        | none => exact ⟨.ok _, rfl⟩
        | some cids => exact (Ended.lift _).bind fun _ => ⟨.ok _, rfl⟩
  | @delete op key value hkeys hkey ht =>
      refine ⟨_, rfl, .lift_bind fun _ _ => .lift_bind fun key _ => .lift_bind fun q _ =>
        hquery fun value => ?_⟩
      dsimp only
      split
      · exact ⟨.error _, rfl⟩
      · exact ⟨.ok _, rfl⟩
  | @upsert op clause row columns hclause haction hrow ht htakes hsets hret =>
      refine ⟨_, rfl, .lift_bind fun _ _ => .lift_bind fun source hsource =>
        .lift_bind fun built _ =>
        .lift_bind fun returning _ => ?_⟩
      obtain ⟨clause', row'⟩ := source
      obtain rfl : clause' = clause :=
        Option.some.inj ((upsertSource_ok hsource).1.symm.trans hclause)
      dsimp only
      rw [haction]
      exact .lift_bind fun q _ => hquery fun value => .lift _

/-- An operation on rows, or on transactions, asks one question. -/
theorem OnRows.single {op : Operation} (h : OnRows table op) : op.Single := by
  intro conn
  rcases h with hop | ⟨t, rfl⟩
  · obtain ⟨p, hp, hfails⟩ := hop.statement conn
    rw [hp]
    exact single_keep hfails.atMostOnce
  · exact single_transaction t

end Single

/-! ## Statements that may be refused -/

section Refusing

variable [LawfulSdk] [TextInjective] [Surql] {s s' : Records} {m : TableMap}

omit [LawfulSdk] [TextInjective] in
/-- **An operation of one statement** runs as it does on a store that refuses nothing, or it was
refused. -/
theorem runs_statement {op : Operation} {conn conn' : Connection}
    {result : Except Error ExecResponse}
    (hop : ∃ p, exec conn op = conn.keep p ∧ Database.Refusable p)
    (hrun : (exec conn op).Runs recordStore.refusing.Handle s s' (.ok (conn', result))) :
    (exec conn op).Runs recordStore.Handle s s' (.ok (conn', result)) ∨
      s' = s ∧ ∃ err, result = .error (classifyError err) := by
  obtain ⟨p, hp, hfails⟩ := hop
  rw [hp] at hrun ⊢
  obtain ⟨result', hran, hout⟩ := runs_keep.mp hrun
  injection hout with hout; injection hout with hconn hresult; subst hconn hresult
  exact (Database.runs_refusing hfails hran).imp_left fun hran => runs_keep.mpr ⟨result, hran, rfl⟩

/-- **The map follows the store**, where any query may be refused. -/
theorem entry_forward (hm : table.Mapped) (conn : Connection) :
    Forward (RunsAs recordStore.refusing (OnRows table) conn) (EntryStep table)
    (Represents table) := by
  rintro s m ⟨op, result⟩ s' h ⟨hop | ⟨t, rfl⟩, hrun⟩
  · rcases runs_statement (hop.statement conn) hrun with hran | ⟨rfl, err, rfl⟩
    · obtain ⟨m', hstep, h'⟩ := op_step hm h hop hran
      exact ⟨m', .inl hstep, h'⟩
    · exact ⟨m, .inl .refused, h⟩
  · obtain rfl := transaction_keeps hrun
    obtain ⟨_, _, hout, hcases⟩ := exec_leaves hrun
    injection hout with hout; injection hout with hc hr; subst hc hr
    rcases hcases with ⟨_, _, herr⟩ | ⟨_, hin, hnew⟩ | ⟨_, _, _, hidle, hin, _⟩
    · exact ⟨m, .inr ⟨⟨t, rfl⟩, herr ⟨t, rfl⟩, rfl⟩, h⟩
    · exact absurd hin (by rw [hnew]; decide)
    · exact absurd hidle (by rw [hin]; simp)

end Refusing

/-! ## What a commit makes of the map -/

section Merging

/-- What a store has at one key: its row, or no record of it. -/
structure AtKey (table : Table) (s : Records) (vs : List Value)
    (found : Option (ColumnId → Value)) : Prop where
  present : ∀ row, found = some row → vs = keyOf table row ∧
    ∃ rid o, AssocMap.lookup rid s = some o ∧ HoldsRow table row rid o
  absent : ∀ value rid, KeyTyped table value → keyOf table value = vs → found = none →
    keyId table value = .ok rid → AssocMap.lookup rid s = none

theorem represents_iff {s : Records} {m : TableMap} :
    Represents table s m ↔ ∀ vs, AtKey table s vs (m vs) := by
  constructor
  · intro h vs
    refine ⟨h.present vs, fun value rid ht hvs hnone hrid => ?_⟩
    subst hvs
    exact h.absent value rid ht hnone hrid
  · intro h
    exact ⟨fun vs => (h vs).present, fun value rid ht hnone hrid =>
      (h _).absent value rid ht rfl hnone hrid⟩

variable {s s' : Records} {vs : List Value} {found found' : Option (ColumnId → Value)}

/-- The two stores have the same record of a key, or neither has one. -/
def SameAt (table : Table) (vs : List Value) (s s' : Records) : Prop :=
  ∀ value rid, KeyTyped table value → keyOf table value = vs → keyId table value = .ok rid →
    AssocMap.lookup rid s = AssocMap.lookup rid s'

/-- A key has the same row wherever it has the same record. -/
theorem AtKey.congr (h : AtKey table s vs found) (hsame : SameAt table vs s s') :
    AtKey table s' vs found := by
  refine ⟨fun row hrow => ?_, fun value rid ht hvs hnone hrid => ?_⟩
  · obtain ⟨hvs, rid, o, ho, hholds⟩ := h.present row hrow
    exact ⟨hvs, rid, o, by rw [← hsame row rid hholds.typed hvs.symm hholds.key]; exact ho, hholds⟩
  · rw [← hsame value rid ht hvs hrid]
    exact h.absent value rid ht hvs hnone hrid

/-- **Rows of one record are alike.** -/
theorem AtKey.alike (h : AtKey table s vs found) (h' : AtKey table s vs found') :
    Alike table found found' := by
  cases found with
  | none =>
      cases found' with
      | none => trivial
      | some row =>
          obtain ⟨hvs, rid, o, ho, hholds⟩ := h'.present row rfl
          rw [h.absent row rid hholds.typed hvs.symm rfl hholds.key] at ho
          exact absurd ho (by simp)
  | some row =>
      obtain ⟨hvs, rid, o, ho, hholds⟩ := h.present row rfl
      cases found' with
      | none =>
          rw [h'.absent row rid hholds.typed hvs.symm rfl hholds.key] at ho
          exact absurd ho (by simp)
      | some row' =>
          obtain ⟨hvs', rid', o', ho', hholds'⟩ := h'.present row' rfl
          have hid := hholds'.key
          rw [keyId_congr (hvs'.symm.trans hvs), hholds.key] at hid
          injection hid with hid; subst hid
          rw [ho] at ho'
          injection ho' with ho'; subst ho'
          exact ⟨rid, o, hholds, hholds'⟩

/-- A key whose record a transaction has changed has the record it had, and gets the
transaction's. -/
theorem Commits.changed_at {start working : Records} (h : Records.Commits start working s s')
    (hne : ¬ SameAt table vs start working) : SameAt table vs start s ∧
    SameAt table vs working s' := by
  simp only [SameAt, not_forall] at hne
  obtain ⟨value, rid, _, hvs, hrid, hdiffers⟩ := hne
  obtain ⟨hold, hnew⟩ := h.changed rid (Ne.symm hdiffers)
  -- a key has one record id
  have hone : ∀ {value' : ColumnId → Value} {rid' : RecordId}, keyOf table value' = vs →
      keyId table value' = .ok rid' → rid' = rid := by
    intro value' rid' hvs' hrid'
    rw [keyId_congr (hvs'.trans hvs.symm), hrid] at hrid'
    injection hrid' with hrid'
    exact hrid'.symm
  constructor
  · intro value' rid' _ hvs' hrid'
    rw [hone hvs' hrid']
    exact hold.symm
  · intro value' rid' _ hvs' hrid'
    rw [hone hvs' hrid']
    exact hnew.symm

open Classical in
/-- **A commit of records is a merge of rows.** -/
theorem commits_merge {start working : Records} {a a' b : TableMap}
    (h : Records.Commits start working s s') (hstart : Represents table start a)
    (hworking : Represents table working a') (hthere : Represents table s b) :
    ∃ b', TableMerge table a a' b b' ∧ Represents table s' b' := by
  rw [represents_iff] at hstart hworking hthere
  refine ⟨fun vs => if SameAt table vs start working then b vs else a' vs, fun vs => ?_,
    represents_iff.mpr fun vs => ?_⟩
  · by_cases hsame : SameAt table vs start working
    · exact .inl ⟨((hstart vs).congr hsame).alike (hworking vs), if_pos hsame⟩
    · exact .inr ⟨((hstart vs).congr (Commits.changed_at h hsame).1).alike (hthere vs),
        if_neg hsame⟩
  · by_cases hsame : SameAt table vs start working
    · rw [if_pos hsame]
      refine (hthere vs).congr fun value rid ht hvs hrid => ?_
      exact (h.kept rid (hsame value rid ht hvs hrid).symm).symm
    · rw [if_neg hsame]
      exact (hworking vs).congr (Commits.changed_at h hsame).2

theorem merges_rows [Surql] : Merges bySnapshot (TableMerge table) (Represents table) :=
  fun hstart hworking hthere h => commits_merge h hstart hworking hthere

end Merging

/-- A store without records is a map without rows. -/
theorem represents_nil : Represents table [] fun _ => none :=
  ⟨fun _ _ h => absurd h (by simp), fun _ _ _ _ _ => rfl⟩

end

/-- Ada signs up in a transaction, and someone else looks her up. -/
def signUp : Insert :=
  ⟨[⟨0, 0⟩, ⟨0, 1⟩], some [[some (.i64 1), some (.string "Ada")]], none⟩

theorem people_mapped : let := plain
    people.Mapped := ⟨⟨by decide, by decide⟩, by decide, by decide⟩

theorem signUp_onTable [Sdk] : OnTable people (.insert (some (people, signUp)) false) := by
  have hret : Returns people signUp.returning none := ⟨rfl, by simp⟩
  refine .insert false rfl ⟨by decide, by decide, by decide⟩ ?_ hret
  intro p hp
  rcases List.mem_cons.mp hp with rfl | hp
  · exact .i64 1
  · rw [List.mem_singleton.mp hp]
    exact .string "Ada"

end ToastySurreal
