import ToastySurreal.Proof.KeyFields
import ToastySurreal.Proof.Lockstep
import ToastySurreal.Proof.Serializable

/-!
# Tables apart

A statement keeps to one table: it reads and changes records of that table only, and does so
whatever the other tables have. So the records of a table are made by what the clients do to
that table, with everything they do to other tables left out.
-/

namespace ToastySurreal

open Results Prog Prog.Pool

/-! ## Statements -/

def RecordId.isOf (name : String) (rid : RecordId) : Bool := rid.table == name

theorem RecordId.isOf_iff {name : String} {rid : RecordId} :
    rid.isOf name = true ↔ rid.table = name := beq_iff_eq

/-- The records of a table. -/
def Records.ofTable (name : String) (s : Records) : Records := AssocMap.part (RecordId.isOf name) s

/-- The table a statement is about. -/
def Query.table? (q : Query) : Option String :=
  match q.sql with
  | .create _ | .update _ _ _ | .upsert _ _ | .delete _ => (q.recordId "rid").map RecordId.table
  | .selectKeys _ targets => (targets.head?.bind q.recordId).map RecordId.table
  | .select _ _ table _ _ => some table
  | .schema _ | .createMigration | .script _ => none

/-- The statement is about a table and no other. -/
def Query.KeepsTo (name : String) (q : Query) : Prop :=
  match q.sql with
  | .create _ | .update _ _ _ | .upsert _ _ | .delete _ =>
      ∃ rid, q.recordId "rid" = some rid ∧ rid.table = name
  | .selectKeys _ targets => ∀ p ∈ targets, ∃ rid, q.recordId p = some rid ∧ rid.table = name
  | .select _ _ table _ _ => table = name
  | .schema _ | .createMigration | .script _ => False

section Tables

variable [Surql] {name : String} {q : Query} {s s' : Records} {r : Reply}

omit [Surql] in
/-- A statement that keeps to a table is about it, if it is about any. -/
theorem Query.KeepsTo.table {name' : String} (h : q.KeepsTo name) (hq : q.table? = some name') :
    name' = name := by
  cases hsql : q.sql with
  | create | update | upsert | delete =>
      simp only [Query.KeepsTo, hsql] at h
      simp only [Query.table?, hsql] at hq
      obtain ⟨rid, hrid, rfl⟩ := h
      rw [hrid] at hq
      exact (Option.some.inj hq).symm
  | selectKeys projection targets =>
      simp only [Query.KeepsTo, hsql] at h
      simp only [Query.table?, hsql] at hq
      cases targets with
      | nil => cases hq
      | cons p targets =>
          obtain ⟨rid, hrid, rfl⟩ := h p List.mem_cons_self
          rw [List.head?_cons, Option.bind_some, hrid] at hq
          exact (Option.some.inj hq).symm
  | select projection sort table clauses limit =>
      simp only [Query.KeepsTo, hsql] at h
      simp only [Query.table?, hsql] at hq
      exact (Option.some.inj hq).symm.trans h
  | schema | createMigration | script => simp only [Query.KeepsTo, hsql] at h

omit [Surql] in
theorem Rejected.ofTable (h : Rejected s r s') : Rejected (s.ofTable name) r (s'.ofTable name) :=
  ⟨h.1, congrArg _ h.2⟩

omit [Surql] in
theorem lookup_ofTable {rid : RecordId} (hrid : rid.table = name) (s : Records) :
    AssocMap.lookup rid (s.ofTable name) = AssocMap.lookup rid s :=
  AssocMap.lookup_part (RecordId.isOf_iff.mpr hrid) s

omit [Surql] in
/-- Writing a record of another table. -/
theorem ofTable_insert_of_ne {rid : RecordId} (hrid : rid.table ≠ name) (o : Object) (s : Records) :
    Records.ofTable name (AssocMap.insert rid o s) = s.ofTable name :=
  AssocMap.part_insert_of_neg (fun hc => hrid (RecordId.isOf_iff.mp hc)) o s

omit [Surql] in
theorem Wrote.ofTable {rid : RecordId} {o : Object} (hrid : rid.table = name)
    (h : Wrote s rid o r s') : Wrote (s.ofTable name) rid o r (s'.ofTable name) :=
  ⟨h.1 ▸ AssocMap.part_insert (RecordId.isOf_iff.mpr hrid) o s, h.2⟩

/-- **A statement leaves other tables alone.** -/
theorem exec_apart (hq : q.table? ≠ some name) (h : Records.exec s q r s') :
    s'.ofTable name = s.ofTable name := by
  have hwrite : ∀ {rid : RecordId} {o : Object}, q.table? = (q.recordId "rid").map RecordId.table →
      q.recordId "rid" = some rid → Wrote s rid o r s' → s'.ofTable name = s.ofTable name := by
    intro rid o htable hrid hwrote
    rw [htable, hrid] at hq
    rw [hwrote.1]
    exact ofTable_insert_of_ne (fun hc => hq (congrArg some hc)) o s
  cases hsql : q.sql with
  | create returnAfter =>
      simp only [Records.exec, hsql] at h
      obtain h | ⟨rid, o, hrid, _, _, h⟩ := h
      · rw [h.eq]
      · exact hwrite (by simp only [Query.table?, hsql]) hrid h
  | update sets clauses returnAfter =>
      simp only [Records.exec, hsql] at h
      obtain h | ⟨rid, hrid, ⟨o, o', _, _, _, h⟩ | ⟨_, h, _⟩⟩ := h
      · rw [h.eq]
      · exact hwrite (by simp only [Query.table?, hsql]) hrid h
      · rw [h]
  | upsert body returnAfter =>
      simp only [Records.exec, hsql] at h
      obtain h | ⟨rid, o', hrid, _, h⟩ := h
      · rw [h.eq]
      · exact hwrite (by simp only [Query.table?, hsql]) hrid h
  | delete clauses =>
      simp only [Records.exec, hsql] at h
      obtain h | ⟨rid, hrid, ⟨o, _, _, h, _⟩ | ⟨_, h, _⟩⟩ := h
      · rw [h.eq]
      · simp only [Query.table?, hsql, hrid] at hq
        rw [h]
        exact AssocMap.part_erase_of_neg (fun hc => hq (congrArg some (RecordId.isOf_iff.mp hc))) s
      · rw [h]
  | selectKeys projection targets =>
      simp only [Records.exec, hsql] at h
      rw [h.1]
  | select projection sort table clauses limit =>
      simp only [Records.exec, hsql] at h
      rw [h.1]
  | schema statement | createMigration | script text =>
      simp only [Records.exec, hsql] at h
      rw [h.eq]

/-- **A statement is done on its table alone**, with the same reply. -/
theorem exec_within (hq : q.KeepsTo name) (h : Records.exec s q r s') :
    Records.exec (s.ofTable name) q r (s'.ofTable name) := by
  cases hsql : q.sql with
  | create returnAfter =>
      simp only [Query.KeepsTo, hsql] at hq
      simp only [Records.exec, hsql] at h ⊢
      obtain ⟨rid₀, hrid₀, hname⟩ := hq
      refine h.imp Rejected.ofTable ?_
      rintro ⟨rid, o, hrid, ho, hnone, h⟩
      obtain rfl := Option.some.inj (hrid₀.symm.trans hrid)
      exact ⟨rid₀, o, hrid, ho, (lookup_ofTable hname s).trans hnone, h.ofTable hname⟩
  | update sets clauses returnAfter =>
      simp only [Query.KeepsTo, hsql] at hq
      simp only [Records.exec, hsql] at h ⊢
      obtain ⟨rid₀, hrid₀, hname⟩ := hq
      refine h.imp Rejected.ofTable ?_
      rintro ⟨rid, hrid, h⟩
      obtain rfl := Option.some.inj (hrid₀.symm.trans hrid)
      refine ⟨rid₀, hrid, ?_⟩
      rw [lookup_ofTable hname]
      refine h.imp ?_ ?_
      · rintro ⟨o, o', ho, hholds, happly, h⟩
        exact ⟨o, o', ho, hholds, happly, h.ofTable hname⟩
      · rintro ⟨hnone, h, hr⟩
        exact ⟨hnone, congrArg _ h, hr⟩
  | upsert body returnAfter =>
      simp only [Query.KeepsTo, hsql] at hq
      simp only [Records.exec, hsql] at h ⊢
      obtain ⟨rid₀, hrid₀, hname⟩ := hq
      refine h.imp Rejected.ofTable ?_
      rintro ⟨rid, o', hrid, happly, h⟩
      obtain rfl := Option.some.inj (hrid₀.symm.trans hrid)
      exact ⟨rid₀, o', hrid, by rw [lookup_ofTable hname]; exact happly, h.ofTable hname⟩
  | delete clauses =>
      simp only [Query.KeepsTo, hsql] at hq
      simp only [Records.exec, hsql] at h ⊢
      obtain ⟨rid₀, hrid₀, hname⟩ := hq
      refine h.imp Rejected.ofTable ?_
      rintro ⟨rid, hrid, h⟩
      obtain rfl := Option.some.inj (hrid₀.symm.trans hrid)
      refine ⟨rid₀, hrid, ?_⟩
      rw [lookup_ofTable hname]
      refine h.imp ?_ ?_
      · rintro ⟨o, ho, hholds, rfl, hr⟩
        exact ⟨o, ho, hholds, AssocMap.part_erase s, hr⟩
      · rintro ⟨hnone, h, hr⟩
        exact ⟨hnone, congrArg _ h, hr⟩
  | selectKeys projection targets =>
      simp only [Query.KeepsTo, hsql] at hq
      simp only [Records.exec, hsql] at h ⊢
      obtain ⟨rfl, hr⟩ := h
      have hrows : selectKeysRows (s'.ofTable name) q projection targets =
          selectKeysRows s' q projection targets := by
        refine List.filterMap_congr fun p hp => ?_
        obtain ⟨rid, hrid, hname⟩ := hq p hp
        rw [hrid, Option.bind_eq_bind, Option.bind_some, Option.bind_some, lookup_ofTable hname]
      exact ⟨rfl, by rw [hrows]; exact hr⟩
  | select projection sort table clauses limit =>
      simp only [Query.KeepsTo, hsql] at hq
      simp only [Records.exec, hsql] at h ⊢
      obtain ⟨rfl, hr⟩ := h
      have hfound : (s'.ofTable name).filter
          (fun rec => rec.1.table == table && clausesHold q clauses rec.1 rec.2) =
          s'.filter fun rec => rec.1.table == table && clausesHold q clauses rec.1 rec.2 := by
        rw [Records.ofTable, AssocMap.part, List.filter_filter, hq]
        refine List.filter_congr fun rec _ => ?_
        rw [RecordId.isOf]
        cases rec.1.table == name <;> simp
      have hrows : selectRecords (s'.ofTable name) q sort table clauses limit =
          selectRecords s' q sort table clauses limit := by
        unfold selectRecords
        rw [hfound]
      exact ⟨rfl, by rw [hrows]; exact hr⟩
  | schema | createMigration | script => simp only [Query.KeepsTo, hsql] at hq

/-! ## Statements that may be refused -/

theorem refusing_apart (hq : q.table? ≠ some name) (h : recordStore.refusing.exec s q r s') :
    s'.ofTable name = s.ofTable name := by
  rcases h with ⟨_, rfl⟩ | h
  · rfl
  · exact exec_apart hq h

theorem refusing_within (hq : q.KeepsTo name) (h : recordStore.refusing.exec s q r s') :
    recordStore.refusing.exec (s.ofTable name) q r (s'.ofTable name) := by
  rcases h with ⟨hr, rfl⟩ | h
  · exact .inl ⟨hr, rfl⟩
  · exact .inr (exec_within hq h)

omit [Surql] in
/-- **A commit is done on a table alone.** -/
theorem commits_ofTable {start working : Records} (h : Records.Commits start working s s') :
    Records.Commits (start.ofTable name) (working.ofTable name) (s.ofTable name)
    (s'.ofTable name) where
  still kind hkind := by
    rw [Records.ofTable, Records.ofTable, AssocMap.part_part, AssocMap.part_part] at hkind ⊢
    exact h.still _ hkind
  unique kind hkind := by
    rw [Records.ofTable, AssocMap.part_part] at hkind ⊢
    exact h.unique _ hkind
  kept rid hrid := by
    by_cases hof : rid.isOf name = true
    · rw [lookup_ofTable (RecordId.isOf_iff.mp hof),
        lookup_ofTable (RecordId.isOf_iff.mp hof)] at hrid ⊢
      exact h.kept rid hrid
    · rw [Records.ofTable, Records.ofTable, AssocMap.lookup_part_of_neg hof,
        AssocMap.lookup_part_of_neg hof]
  changed rid hrid := by
    by_cases hof : rid.isOf name = true
    · rw [lookup_ofTable (RecordId.isOf_iff.mp hof),
        lookup_ofTable (RecordId.isOf_iff.mp hof)] at hrid ⊢
      rw [lookup_ofTable (RecordId.isOf_iff.mp hof), lookup_ofTable (RecordId.isOf_iff.mp hof)]
      exact h.changed rid hrid
    · rw [Records.ofTable, Records.ofTable, AssocMap.lookup_part_of_neg hof,
        AssocMap.lookup_part_of_neg hof] at hrid
      exact absurd rfl hrid

/-! ## Operations -/

section Operations

variable [Sdk] {conn : Connection} {table : Table}

omit [Surql] in
/-- The parameters of a read by keys are record ids of the table. -/
theorem keyBinds_tables {keys : List Value} {i : Nat} {binds : List (String × SurValue)}
    (h : keyBinds table keys i = .ok binds) : ∀ b ∈ binds, ∃ rid : RecordId, b.2 = rid.value ∧
    rid.table = table.name := by
  induction keys generalizing i binds with
  | nil =>
      injection h with h; subst h
      intro b hb
      cases hb
  | cons key keys ih =>
      rw [keyBinds] at h
      obtain ⟨rid, hrid, h⟩ := bind_eq_ok h
      obtain ⟨rest, hrest, h⟩ := bind_eq_ok h
      injection h with h; subst h
      intro b hb
      rcases List.mem_cons.mp hb with rfl | hb
      · exact ⟨rid, rfl, recordId_table hrid⟩
      · exact ih hrest b hb

omit [Surql] in
theorem getQuery_keepsTo {op : GetByKey} (h : getQuery table op = .ok q) :
    q.KeepsTo table.name := by
  obtain ⟨binds, hbinds, h⟩ := bind_eq_ok h
  injection h with h; subst h
  intro p hp
  obtain ⟨v, hv⟩ := Option.ne_none_iff_exists'.mp fun hnone => AssocMap.lookup_eq_none.mp hnone hp
  obtain ⟨rid, hvalue, hname⟩ := keyBinds_tables hbinds _ (AssocMap.mem_of_lookup hv)
  refine ⟨rid, ?_, hname⟩
  rw [Query.recordId, Query.param, hv, Option.getD_some, show v = rid.value from hvalue]
  rfl

omit [Surql] in
theorem keysetQuery_keepsTo {input : KeysetSelect} (h : keysetQuery input = .ok q) :
    q.KeepsTo input.tableName := by
  obtain ⟨⟨resume, binds⟩, _, h⟩ := bind_eq_ok h
  injection h with h; subst h
  rfl

omit [Surql] [Sdk] in
theorem createQuery_keepsTo {rid : RecordId} {content : Object} {want : Bool}
    (h : rid.table = name) : (createQuery rid content want).KeepsTo name := ⟨rid, rfl, h⟩

omit [Surql] in
/-- What a writing operation sends is about its table. -/
theorem sends_keepsTo {op : Operation} (hop : op.table? = some table) (hwrite : op.Writes)
    (h : op.Sends q) : q.KeepsTo table.name := by
  have hinsert : ∀ {insert : Insert}, insert.Sends table q → q.KeepsTo table.name := by
    rintro insert ⟨rows, row, rid, content, want, _, _, hbuild, rfl⟩
    exact createQuery_keepsTo (buildRow_table hbuild)
  cases op with
  | querySql stmt ret =>
      cases stmt with
      | ok stmt => cases hop; exact hinsert h
      | error name => cases hop
  | insert stmt ret =>
      cases stmt with
      | some stmt => cases hop; exact hinsert h
      | none => cases hop
  | updateByKey t op =>
      cases hop
      obtain ⟨key, _, hq⟩ := h
      obtain ⟨rid, hrid⟩ := updateQuery_addressed hq
      obtain ⟨sets, clauses, hsql, hid⟩ := updateQuery_recordId hrid hq
      simp only [Query.KeepsTo, hsql]
      exact ⟨rid, hid, recordId_table hrid⟩
  | deleteByKey t op =>
      cases hop
      obtain ⟨key, _, hq⟩ := h
      obtain ⟨clauses, _, rid, _, hrid, hsql, hid, _⟩ := deleteQuery_sent hq
      simp only [Query.KeepsTo, hsql]
      exact ⟨rid, hid, recordId_table hrid⟩
  | upsert t op =>
      cases hop
      obtain ⟨clause, row, rid, content, want, _, hbuild, rfl | hq⟩ := h
      · exact createQuery_keepsTo (buildRow_table hbuild)
      · obtain ⟨body, hsql, hid, _⟩ := upsertQuery_sent hq
        simp only [Query.KeepsTo, hsql]
        exact ⟨rid, hid, buildRow_table hbuild⟩
  | getByKey | queryPk | findPkByIndex | scan | rawSql | transaction => exact hwrite.elim

omit [Surql] in
/-- **What an operation sends is about its table.** -/
theorem exec_keepsTo (conn : Connection) {op : Operation} (hop : op.table? = some table) :
    ∃ p, exec conn op = conn.keep p ∧ p.Asks (Routed conn (Query.KeepsTo table.name)) := by
  by_cases hwrite : op.Writes
  · have hdata : ∀ t, op ≠ .transaction t := by
      rintro t rfl
      cases hop
    obtain ⟨p, hp, hasks⟩ := @exec_data conn _ op hdata
    exact ⟨p, hp, hasks.mono (Routed.mono fun q => sends_keepsTo hop hwrite)⟩
  · cases op with
    | getByKey t op =>
        cases hop
        exact ⟨_, rfl, (asks_execGetByKey op).mono (Routed.mono fun q => getQuery_keepsTo)⟩
    | queryPk t op =>
        cases hop
        exact ⟨_, rfl, (Asks.lift _).bind fun _ => asks_keyset fun q => keysetQuery_keepsTo⟩
    | scan t op =>
        cases hop
        exact ⟨_, rfl, (Asks.lift _).bind fun _ => asks_keyset fun q => keysetQuery_keepsTo⟩
    | findPkByIndex t op =>
        cases hop
        refine ⟨_, rfl, (Asks.lift _).bind fun _ => (asks_runQuery ?_).bind fun _ =>
          (Asks.lift _).bind fun _ => trivial⟩
        rfl
    | querySql stmt ret =>
        cases stmt with
        | ok stmt => exact absurd trivial hwrite
        | error name => cases hop
    | insert | updateByKey | deleteByKey | upsert => exact absurd trivial hwrite
    | rawSql | transaction => cases hop

/-- The operation is about the table. -/
def Operation.isOn (name : String) (op : Operation) : Bool := op.table?.map Table.name == some name

variable {conn' : Connection} {op : Operation} {result : Except Error ExecResponse}

/-- An operation on a table is done on its records alone, and returns the same. -/
theorem run_within (hop : op.isOn name = true)
    (h : (exec conn op).Runs recordStore.refusing.Handle s s' (.ok (conn', result))) :
    (exec conn op).Runs recordStore.refusing.Handle (s.ofTable name) (s'.ofTable name)
    (.ok (conn', result)) := by
  obtain ⟨table, htable, rfl⟩ := Option.map_eq_some_iff.mp (beq_iff_eq.mp hop)
  obtain ⟨p, hp, hasks⟩ := exec_keepsTo conn htable
  rw [hp] at h ⊢
  obtain ⟨result', hrun, hout⟩ := runs_keep.mp h
  refine runs_keep.mpr ⟨result', ?_, hout⟩
  refine Runs.view (f := Records.ofTable table.name) ?_ hasks hrun
  rintro x call r x' ⟨q, rfl, hq⟩ hhandle
  have hexec : recordStore.refusing.exec x q r x' := by
    split at hhandle <;> exact hhandle
  split <;> exact refusing_within hq hexec

/-- An operation on another table, or on none, leaves the records alone. -/
theorem run_apart (hop : ¬ op.isOn name = true)
    (h : (exec conn op).Runs recordStore.refusing.Handle s s' (.ok (conn', result))) :
    s'.ofTable name = s.ofTable name := by
  by_cases htx : ∃ t, op = .transaction t
  · obtain ⟨t, rfl⟩ := htx
    rw [transaction_keeps h]
  cases htable : op.table? with
  | none =>
      obtain ⟨p, hp, hasks⟩ := @exec_data conn _ op fun t ht => htx ⟨t, ht⟩
      rw [hp] at h
      obtain ⟨_, hrun, _⟩ := runs_keep.mp h
      refine routed_keeps (I := fun x : Records => x.ofTable name = s.ofTable name) ?_ hasks rfl
        hrun
      intro x q r x' _ hsend _
      cases op with
      | querySql stmt ret =>
          cases stmt with
          | ok stmt => cases htable
          | error e => exact hsend.elim
      | insert stmt ret =>
          cases stmt with
          | some stmt => cases htable
          | none => exact hsend.elim
      | rawSql | transaction => exact hsend.elim
      | getByKey | queryPk | findPkByIndex | scan | updateByKey | deleteByKey | upsert =>
          cases htable
  | some table =>
      obtain ⟨p, hp, hasks⟩ := exec_keepsTo conn htable
      rw [hp] at h
      obtain ⟨_, hrun, _⟩ := runs_keep.mp h
      refine routed_keeps (I := fun x : Records => x.ofTable name = s.ofTable name) ?_ hasks rfl
        hrun
      intro x q r x' hx hq hexec
      have hother : q.table? ≠ some name := by
        intro hname
        rw [Operation.isOn, htable, Option.map_some, hq.table hname, beq_self_eq_true] at hop
        exact hop rfl
      exact (refusing_apart hother hexec).trans hx

/-- What a history has about a table. -/
def History.onTable (name : String) (h : History) : History := h.filter fun entry =>
    entry.1.isOn name

omit [Surql] [Sdk] in
theorem History.onTable_cons_of_pos {h : History} (hop : op.isOn name = true) :
    History.onTable name ((op, result) :: h) = (op, result) :: h.onTable name :=
    List.filter_cons_of_pos hop

omit [Surql] [Sdk] in
theorem History.onTable_cons_of_neg {h : History} (hop : ¬ op.isOn name = true) :
    History.onTable name ((op, result) :: h) = h.onTable name := List.filter_cons_of_neg hop

/-- **A history is done on a table alone**, with what it has about other tables left out. -/
theorem executes_onTable {h : History} (hrun : Executes recordStore.refusing conn s h s') :
    Executes recordStore.refusing conn (s.ofTable name) (h.onTable name) (s'.ofTable name) := by
  induction h generalizing s with
  | nil => exact congrArg _ hrun
  | cons entry h ih =>
      obtain ⟨op, result⟩ := entry
      obtain ⟨s₁, hop, hrest⟩ := hrun
      by_cases hon : op.isOn name = true
      · rw [History.onTable_cons_of_pos hon]
        exact ⟨_, run_within hon hop, ih hrest⟩
      · rw [History.onTable_cons_of_neg hon, ← run_apart hon hop]
        exact ih hrest

end Operations

/-! ## Any number of clients -/

section Clients

variable [Sdk] {ι α : Type}

/-- What a turn has about a table. -/
def Turn.onTable (name : String) : Turn ι → Option (Turn ι)
  | .alone i q r => if q.table? = some name then some (.alone i q r) else none
  | .whole i t => some (.whole i ⟨t.readOnly, History.onTable name t.ops⟩)

/-- The query of a turn is about one table. -/
def Turn.KeepsToTable : Turn ι → Prop
  | .alone _ q _ => ∃ name, q.KeepsTo name
  | .whole _ _ => True

/-- **Turns are taken on a table alone.** -/
theorem turns_ofTable (name : String) :
    Snapshots.Projects (Turn.rules recordStore.refusing bySnapshot)
    (Turn.rules recordStore.refusing bySnapshot) (Turn.KeepsToTable (ι := ι)) (Records.ofTable name)
    (Turn.onTable name) where
  act := by
    rintro s (⟨i, q, r⟩ | ⟨i, t⟩) s' turn ⟨name', hq⟩ hturn h
    · rw [Turn.onTable] at hturn
      split at hturn <;> rename_i htable
      · injection hturn with hturn; subst hturn
        obtain rfl := hq.table htable
        exact refusing_within hq h
      · exact absurd hturn (by simp)
    · exact h.elim
  act_none := by
    rintro s (⟨i, q, r⟩ | ⟨i, t⟩) s' _ hturn h
    · rw [Turn.onTable] at hturn
      split at hturn <;> rename_i htable
      · exact absurd hturn (by simp)
      · exact refusing_apart htable h
    · exact h.elim
  merge := by
    rintro s (⟨i, q, r⟩ | ⟨i, t⟩) tx turn _ hturn h
    · exact h.elim
    · obtain ⟨rfl, hops, hread⟩ := h
      injection hturn with hturn; subst hturn
      refine ⟨⟨Records.ofTable name tx.start, Records.ofTable name tx.working, []⟩,
        ⟨rfl, executes_onTable hops, fun hro => ⟨?_, by simp⟩⟩, fun _ _ => commits_ofTable⟩
      rw [(hread hro).1]
  merge_none := by
    rintro s (⟨i, q, r⟩ | ⟨i, t⟩) tx s₁ s₂ _ hturn h
    · exact h.elim
    · exact absurd hturn (by simp [Turn.onTable])

/-- A plain query that keeps to a table. -/
def PlainKeeps (call : Call) : Prop := ∀ q, call = .plain q → ∃ name, q.KeepsTo name

omit [Surql] [Sdk] in
theorem Routed.plainKeeps {conn : Connection} (call : Call)
    (h : Routed conn (Query.KeepsTo name) call) : PlainKeeps call := by
  rintro q rfl
  obtain ⟨q', hcall, hq⟩ := h
  split at hcall
  · cases hcall
  · cases hcall
    exact ⟨name, hq⟩

omit [Surql] in
theorem exec_plainKeeps (conn : Connection) (op : Operation) : (exec conn op).Asks PlainKeeps := by
  have hkeep : ∀ {p : Action ExecResponse}, p.Asks PlainKeeps → (conn.keep p).Asks PlainKeeps :=
    fun hp => hp.attempt.bind fun _ => trivial
  cases htable : op.table? with
  | some table =>
      obtain ⟨p, hp, hasks⟩ := exec_keepsTo conn htable
      rw [hp]
      exact hkeep (hasks.mono Routed.plainKeeps)
  | none =>
      cases op with
      | transaction t =>
          refine asks_execTransaction.mono fun call hcall => ?_
          rintro q rfl
          unfold Ends at hcall
          split at hcall
          · rcases hcall with hcall | hcall <;> cases hcall
          · cases hcall
      | querySql stmt ret =>
          cases stmt with
          | ok stmt => cases htable
          | error e => exact hkeep trivial
      | insert stmt ret =>
          cases stmt with
          | some stmt => cases htable
          | none => exact hkeep (asks_guarded trivial)
      | rawSql => exact hkeep trivial
      | getByKey | queryPk | findPkByIndex | scan | updateByKey | deleteByKey | upsert =>
          cases htable

omit [Surql] in
/-- **Every query of a client** is about one table. -/
theorem drive_plainKeeps (client : Client α) : ∀ conn, (drive conn client).Asks PlainKeeps := by
  induction client with
  | done a => exact fun _ => trivial
  | fail e => exact fun _ => trivial
  | ask op k ih => exact fun conn => (exec_plainKeeps conn op).bind fun out => ih out.2 out.1

variable [DecidableEq ι]

/-- The turns of any clients are about one table each, but for their transactions. -/
theorem InTurn.keepsToTable {clients : ι → Client α} {p : Clients recordStore.refusing ι α}
    {turns : List (Turn ι × Records)}
    (h : Pool.Steps (Database.StepBy bySnapshot)
      (Clients.begin clients (show recordStore.refusing.State from s)) p)
    (hturns : InTurn bySnapshot clients (show recordStore.refusing.State from s) p turns) :
    ∀ turn ∈ turns, turn.1.KeepsToTable := by
  rintro ⟨turn, made⟩ hturn
  cases turn with
  | whole i t => trivial
  | alone i q r =>
      have hmark : (i, some (q, r)) ∈ p.log.filterMap mark := by
        rw [← hturns.order]
        exact List.mem_map_of_mem hturn
      obtain ⟨⟨j, call, r'⟩, hentry, hcall⟩ := List.mem_filterMap.mp hmark
      cases call with
      | plain q' =>
          cases hcall
          have hown : (Call.plain q, r) ∈ own i p.log :=
            List.mem_filterMap.mpr ⟨_, hentry, if_pos rfl⟩
          have hasks := ((Steps.told h rfl i).asks (drive_plainKeeps (clients i) .new)).1
          exact hasks _ hown q rfl
      | commit => cases r' <;> cases hcall
      | begin | tx | cancel => cases hcall

/-- What the turns have about a table, each with the records of the table after it. -/
abbrev tableTurns (name : String) (turns : List (Turn ι × Records)) : List (Turn ι × Records) :=
  Snapshots.projected (Records.ofTable name) (Turn.onTable name) turns

/-- **Tables are independent.** However any number of clients go on, with operations on any
tables, in transactions or out of them, there are turns that amount to what they did, and the
records of each table are made by the same turns with everything about other tables left out. -/
theorem tables_independent (clients : ι → Client α) (s : Records)
    {p : Clients recordStore.refusing ι α}
    (h : Pool.Steps (Database.StepBy bySnapshot)
      (Clients.begin clients (show recordStore.refusing.State from s)) p) :
    ∃ turns, InTurn bySnapshot clients (show recordStore.refusing.State from s) p turns ∧ ∀ name,
      Snapshots.History (Turn.rules recordStore.refusing bySnapshot) (s.ofTable name)
      (tableTurns name turns) ∧
      Records.ofTable name p.shared.committed =
      Snapshots.now (s.ofTable name) (tableTurns name turns) := by
  obtain ⟨calls, hcalls⟩ := exists_turning h
  obtain ⟨turns, hall, _⟩ := inTurn_of_turning hcalls h
  refine ⟨turns, hall, fun name => ?_⟩
  obtain ⟨hmade, hnow⟩ := (turns_ofTable name).history hall.made (hall.keepsToTable h)
  refine ⟨hmade, ?_⟩
  rw [hall.committed]
  exact (hnow turns (List.prefix_refl _)).symm

end Clients

end Tables

/-- Someone puts five more in stock, and someone else puts down a todo. -/
def newTodo : Insert := ⟨[⟨0, 0⟩, ⟨0, 1⟩], some [[some (.i64 1), some (.bool false)]], none⟩

def twoTables : Bool → Client Unit
  | true => .ask (.updateByKey products restock) fun _ => .done ()
  | false => .ask (.insert (some (todos, newTodo)) false) fun _ => .done ()

/-- What is in stock is made by the update alone, and the todos by the insert. -/
theorem stock_independent : let := plain
    let := countingSurql
    ∃ p : Clients recordStore.refusing Bool Unit, Records.ofTable "products" p.shared.committed =
    restocked ∧
      (Records.ofTable "todos" p.shared.committed).length = 1 ∧
      ∃ turns, InTurn bySnapshot twoTables oneLeft p turns ∧ ∀ name,
        Snapshots.History (Turn.rules recordStore.refusing bySnapshot)
        (Records.ofTable name oneLeft)
          (tableTurns name turns) ∧
        Records.ofTable name p.shared.committed =
          Snapshots.now (Records.ofTable name oneLeft) (tableTurns name turns) := by
  let := plain
  let := countingSurql
  let s₀ : recordStore.refusing.Server Bool := ⟨oneLeft, fun _ => none⟩
  let p₀ : Clients recordStore.refusing Bool Unit :=
    Clients.begin twoTables (show recordStore.refusing.State from oneLeft)
  have hupdate : ∃ q, updateQuery products restock (.i64 1) = .ok q ∧
      recordStore.refusing.exec oneLeft q
      (.ok (.array [.object (recordRow firstProduct [("stock", .number (.int 6))])])) restocked :=
    ⟨_, rfl, .inr (.inr ⟨firstProduct, rfl, .inl ⟨_, _, rfl, rfl, rfl, rfl, rfl⟩⟩)⟩
  obtain ⟨q, hq, hexec⟩ := hupdate
  injection hq with hq; subst hq
  have hplain := @Database.StepBy.plain _ _ _ bySnapshot true s₀ _ _ _ hexec
  have hcreate : recordStore.refusing.exec restocked
      (createQuery ⟨"todos", .number 1⟩ [("done", .bool false)] false)
      (.ok (.array [.object (recordRow ⟨"todos", .number 1⟩ [("done", .bool false)])]))
      (AssocMap.insert ⟨"todos", .number 1⟩ [("done", .bool false)] restocked) :=
    .inr (.inr ⟨_, _, rfl, rfl, rfl, rfl, rfl⟩)
  have hplain' := @Database.StepBy.plain _ _ _ bySnapshot false
    { s₀ with committed := restocked } _ _ _ hcreate
  have hsteps : ∃ p : Clients recordStore.refusing Bool Unit,
      Pool.Steps (Database.StepBy bySnapshot) p₀ p ∧
      Records.ofTable "products" p.shared.committed = restocked ∧
      (Records.ofTable "todos" p.shared.committed).length = 1 :=
    ⟨_, .tail (.single (.ask rfl hplain)) (.ask rfl hplain'), rfl, rfl⟩
  obtain ⟨p, hsteps, hstock, htodos⟩ := hsteps
  exact ⟨p, hstock, htodos, tables_independent twoTables oneLeft hsteps⟩

end ToastySurreal
