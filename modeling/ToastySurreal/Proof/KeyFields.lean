import ToastySurreal.Proof.KeyedWrites
import ToastySurreal.Proof.UpsertFrame

/-!
# Key columns are no fields

A key column lives in the record id and nowhere else: an insert splits its row, and an
upsert passes over the key when it fills a record in. An update and the shared mutations of
an upsert assign whatever they are told to, though, and a key column they are told to assign
becomes a field beside the key. `keys_apart` says that nothing else puts one there.
-/

namespace ToastySurreal

open Results Prog

/-! ## Objects without key columns -/

/-- The object has no field that is called like a key column. -/
def Keyless (table : Table) (o : Object) : Prop :=
  ∀ cid ∈ table.primaryKey, AssocMap.lookup (table.column cid).name o = none

/-- No record of the table has a field that is called like a key column. -/
def KeysApart (table : Table) (s : Records) : Prop :=
  ∀ rec ∈ s, rec.1.table = table.name → Keyless table rec.2

/-- A name that no key column has. -/
def Table.NoKeyName (table : Table) (name : String) : Prop :=
  ∀ cid ∈ table.primaryKey, (table.column cid).name ≠ name

variable {table : Table} {q : Query} {rid : RecordId}

/-- A column that is no key column has a name of its own. -/
theorem noKeyName_of_column {cid : ColumnId} (hknown : cid ∈ table.columns.map Column.id)
    (hno : cid ∉ table.primaryKey) : table.NoKeyName (table.column cid).name := by
  intro key hkey hname
  obtain ⟨hcol, hid⟩ := Table.column_mem hknown
  obtain ⟨hkcol, hkid⟩ := Table.column_mem (table.key_ids key hkey)
  have hsame := Table.eq_of_name hkcol hcol hname
  rw [hsame, hid] at hkid
  exact hno (hkid ▸ hkey)

theorem keyless_nil : Keyless table [] := fun _ _ => rfl

theorem Keyless.set {o : Object} (h : Keyless table o) {name : String}
    (hname : table.NoKeyName name) (v : SurValue) : Keyless table (o.set name v) := by
  intro cid hcid
  have hne := hname cid hcid
  cases v with
  | none => exact (AssocMap.lookup_erase_ne hne o).trans (h cid hcid)
  | _ => exact (AssocMap.lookup_insert_ne hne _ o).trans (h cid hcid)

/-- The fields of an object without key columns. -/
theorem Keyless.names {o : Object} (h : Keyless table o) {name : String} {v : SurValue}
    (hmem : (name, v) ∈ o) : table.NoKeyName name := by
  intro cid hcid hname
  have hnone := AssocMap.lookup_eq_none.mp (h cid hcid)
  rw [hname] at hnone
  exact hnone (List.mem_map_of_mem hmem)

theorem Keyless.merge : ∀ {fields : List (String × SurValue)} {o : Object},
    (∀ f ∈ fields, table.NoKeyName f.1) → Keyless table o → Keyless table (mergeObject o fields)
  | [], _, _, ho => ho
  | (name, v) :: fields, o, hnames, ho => by
      have hrest : ∀ f ∈ fields, table.NoKeyName f.1 := fun f hf =>
        hnames f (List.mem_cons_of_mem _ hf)
      exact @Keyless.merge fields _ hrest (ho.set (hnames _ List.mem_cons_self) v)

section

variable [Surql]

/-- Assignments to other names put no key column in. -/
theorem applySets_keyless : ∀ {sets : List SetClause} {o o' : Object},
    (∀ clause ∈ sets, table.NoKeyName clause.name) → Keyless table o →
    applySets q rid sets o = .ok o' → Keyless table o'
  | [], o, o', _, ho, h => by
      injection h with h; rw [← h]
      exact ho
  | clause :: sets, o, o', hnames, ho, h => by
      rw [applySets] at h
      obtain ⟨v, _, hrest⟩ := bind_eq_ok h
      exact applySets_keyless (fun c hc => hnames c (List.mem_cons_of_mem _ hc))
        (ho.set (hnames clause List.mem_cons_self) v) hrest

end

/-! ## What the operations send -/

section

variable [Sdk] {op : String} {row : Row} {columns : List ColumnId}

/-- **The content of a row has no key columns.** -/
theorem buildRow_keyless {content : Object}
    (hknown : ∀ cid ∈ columns, cid ∈ table.columns.map Column.id)
    (h : buildRow op table columns row = .ok (rid, content)) : Keyless table content := by
  unfold buildRow at h
  obtain ⟨⟨content', pk⟩, hsplit, hrest⟩ := bind_eq_ok h
  obtain ⟨rid', _, hok⟩ := bind_eq_ok hrest
  injection hok with hok; injection hok with _ hcontent; subst hcontent
  intro key hkey
  refine (splitRow_spec hsplit).2 _ fun p hp hname => .inl ?_
  have hmem : p.1 ∈ columns := by
    rw [← rowPairs_keys row columns 0]
    exact List.mem_map_of_mem hp
  by_contra hno
  have hcid : p.1 ∉ table.primaryKey := by
    rw [isPrimaryKey_iff, (Table.column_mem (hknown _ hmem)).2] at hno
    exact hno
  exact noKeyName_of_column (hknown _ hmem) hcid key hkey hname.symm

/-- The create-only assignments are to columns that are no key columns. -/
theorem createOnlySets_names {clause : UpsertClause} : ∀ {columns : List ColumnId} {position : Nat}
    {b b' : Binds} {sets : List SetClause}, (∀ cid ∈ columns, cid ∈ table.columns.map Column.id) →
    createOnlySets table clause row columns position b = .ok (sets, b') →
    ∀ set ∈ sets, table.NoKeyName set.name
  | [], _, b, b', sets, _, h => by
      injection h with h; injection h with h _; subst h
      exact fun _ hset => absurd hset List.not_mem_nil
  | cid :: columns, position, b, b', sets, hknown, h => by
      have hrest' := fun c hc => hknown c (List.mem_cons_of_mem cid hc)
      rcases createOnlySets_cons h with ⟨_, hrest⟩ | ⟨v, rest, hskip, _, rfl, hrest⟩
      · exact createOnlySets_names hrest' hrest
      · intro set hset
        rcases List.mem_cons.mp hset with rfl | hset
        · have hid := hknown cid List.mem_cons_self
          refine noKeyName_of_column hid fun hkey => hskip (.inl ?_)
          rw [isPrimaryKey_iff, (Table.column_mem hid).2]
          exact hkey
        · exact createOnlySets_names hrest' hrest set hset

omit [Sdk] in
/-- Assignments that go by the names of columns that are no key columns. -/
theorem assigned_names {as : List (ColumnId × Assignment)} {sets : List SetClause}
    (hknown : ∀ cid ∈ as.map Prod.fst, cid ∈ table.columns.map Column.id)
    (hno : ∀ cid ∈ as.map Prod.fst, cid ∉ table.primaryKey)
    (hnames : sets.map SetClause.name = as.map fun a => (table.column a.1).name) :
    ∀ set ∈ sets, table.NoKeyName set.name := by
  intro set hset
  have hmem : set.name ∈ sets.map SetClause.name := List.mem_map_of_mem hset
  rw [hnames] at hmem
  obtain ⟨a, ha, haname⟩ := List.mem_map.mp hmem
  have hcid : a.1 ∈ as.map Prod.fst := List.mem_map_of_mem ha
  rw [← haname]
  exact noKeyName_of_column (hknown _ hcid) (hno _ hcid)

end

/-! ## Operations -/

/-- The table an operation is about. -/
def Operation.table? : Operation → Option Table
  | .querySql (.ok (t, _)) _ | .insert (some (t, _)) _ => some t
  | .getByKey t _ | .queryPk t _ | .findPkByIndex t _ | .scan t _ => some t
  | .updateByKey t _ | .deleteByKey t _ | .upsert t _ => some t
  | .querySql (.error _) _ | .insert none _ | .rawSql | .transaction _ => none

/-- The columns that an update assigns, and the shared ones of an upsert. -/
def Operation.assigned : Operation → List ColumnId
  | .updateByKey _ op => op.assignments.map Prod.fst
  | .upsert _ op =>
      match op.clause with
      | some clause => clause.shared.map Prod.fst
      | none => []
  | _ => []

/-- The columns of a new row. -/
def Operation.inserted : Operation → List ColumnId
  | .querySql (.ok (_, stmt)) _ | .insert (some (_, stmt)) _ => stmt.columns
  | .upsert _ op => op.insert.columns
  | _ => []

/-- What Toasty promises of an operation: no other table has this one's name, and it is about
columns of the table. -/
structure Operation.Of (table : Table) (op : Operation) : Prop where
  same : ∀ t, op.table? = some t → t.name = table.name → t = table
  known : op.table? = some table → ∀ cid ∈ op.inserted ++ op.assigned, cid ∈
    table.columns.map Column.id

section

variable [Surql]

/-- The statement puts no key column into a record of the table. -/
def KeepsApart (table : Table) (q : Query) : Prop :=
  ∀ s rid o, KeysApart table s → q.recordId "rid" = some rid → rid.table = table.name →
    Puts s q rid o → Keyless table o

/-- **A statement keeps key columns apart.** -/
theorem keysApart_step {s s' : Records} {r : Reply} (hs : KeysApart table s)
    (hq : KeepsApart table q) (h : Records.exec s q r s') : KeysApart table s' :=
  Records.exec_keeps hs (fun rid o hrid hput htable => hq s rid o hs hrid htable hput) h

omit [Surql] in
/-- The record that was there, or an empty one. -/
theorem KeysApart.base {s : Records} (hs : KeysApart table s) (htable : rid.table = table.name) :
    Keyless table ((AssocMap.lookup rid s).getD []) := by
  cases ho : AssocMap.lookup rid s with
  | none => exact keyless_nil
  | some o => exact hs _ (AssocMap.mem_of_lookup ho) htable

/-- A statement that puts no record in place. -/
theorem keepsApart_none (hcreate : ∀ returnAfter, q.sql ≠ .create returnAfter)
    (hupdate : ∀ sets clauses returnAfter, q.sql ≠ .update sets clauses returnAfter)
    (hupsert : ∀ body returnAfter, q.sql ≠ .upsert body returnAfter) : KeepsApart table q := by
  intro s rid o _ _ _ hput
  cases hput with
  | create hsql _ _ => exact absurd hsql (hcreate _)
  | update hsql _ _ _ => exact absurd hsql (hupdate _ _ _)
  | upsert hsql _ => exact absurd hsql (hupsert _ _)

theorem keepsApart_read (h : ReadOnly q) : KeepsApart table q := by
  have hread : q.sql.isRead = true := h
  refine keepsApart_none ?_ ?_ ?_
  all_goals
    intros
    intro hsql
    rw [hsql] at hread
    exact absurd hread (by simp [Sql.isRead])

/-- A statement about a record of another table. -/
theorem keepsApart_foreign {t : Table} (ht : t.name ≠ table.name)
    (hid : q.recordId "rid" = some rid) (hrid : rid.table = t.name) : KeepsApart table q := by
  intro s rid' o _ hid' htable _
  rw [hid] at hid'
  injection hid' with hsame; subst hsame
  exact absurd (hrid.symm.trans htable) ht

theorem keepsApart_create {content : Object} {want : Bool}
    (h : rid.table = table.name → Keyless table content) :
    KeepsApart table (createQuery rid content want) := by
  intro s rid' o _ hrid htable hput
  obtain rfl : rid = rid' := Option.some.inj hrid
  cases hput with
  | create _ ho _ =>
      injection ho with ho
      rw [← ho]
      exact h htable
  | update hsql _ _ _ => exact absurd hsql (by simp [createQuery])
  | upsert hsql _ => exact absurd hsql (by simp [createQuery])

variable [Sdk]

/-- The `CREATE` of a row of any table. -/
theorem keepsApart_row {t : Table} {name : String} {columns : List ColumnId} {row : Row}
    {content : Object} {want : Bool} (hsame : t.name = table.name → t = table)
    (hknown : t = table → ∀ cid ∈ columns, cid ∈ table.columns.map Column.id)
    (hbuild : buildRow name t columns row = .ok (rid, content)) :
    KeepsApart table (createQuery rid content want) := by
  refine keepsApart_create fun htable => ?_
  obtain rfl := hsame ((buildRow_table hbuild).symm.trans htable)
  exact buildRow_keyless (hknown rfl) hbuild

theorem keepsApart_delete {t : Table} {op : DeleteByKey} {key : Value}
    (h : deleteQuery t op key = .ok q) : KeepsApart table q := by
  unfold deleteQuery at h
  obtain ⟨⟨clauses, binds⟩, _, h₁⟩ := bind_eq_ok h
  obtain ⟨rid, _, h₂⟩ := bind_eq_ok h₁
  injection h₂ with h₂
  rw [← h₂]
  exact keepsApart_none (by simp) (by simp) (by simp)

/-- An upsert whose shared columns are no key columns. -/
theorem keepsApart_upsert {op : Upsert} {clause : UpsertClause} {row : Row} {content : Object}
    {want : Bool} (hcolumns : ∀ cid ∈ op.insert.columns, cid ∈ table.columns.map Column.id)
    (hknown : ∀ cid ∈ clause.shared.map Prod.fst, cid ∈ table.columns.map Column.id)
    (hno : ∀ cid ∈ clause.shared.map Prod.fst, cid ∉ table.primaryKey)
    (hbuild : buildRow "upsert" table op.insert.columns row = .ok (rid, content))
    (h : upsertQuery table op.insert clause row rid content want = .ok q) : KeepsApart table q := by
  obtain ⟨body, hbody, _, hsent⟩ := upsertQuery_sent h
  intro s rid' o hs _ htable hput
  cases hput with
  | create hsql _ _ => rw [hbody] at hsql; exact absurd hsql (by simp)
  | update hsql _ _ _ => rw [hbody] at hsql; exact absurd hsql (by simp)
  | upsert hsql happly =>
      rw [hbody] at hsql
      injection hsql with hsame _; subst hsame
      cases hsent with
      | merge hcreated hshared hp =>
          rw [applyBody, hp] at happly
          injection happly with happly
          rw [← happly]
          have hcontent := buildRow_keyless hcolumns hbuild
          exact Keyless.merge (fun f hf => hcontent.names hf) (hs.base htable)
      | set hcreated hshared _ _ =>
          refine applySets_keyless (fun set hset => ?_) (hs.base htable) happly
          rcases List.mem_append.mp hset with hset | hset
          · exact createOnlySets_names hcolumns hcreated set hset
          · exact assigned_names hknown hno (sharedSets_spec hshared).1 set hset

/-- An update that assigns no key column of a record it matches. -/
theorem update_keysApart {op : UpdateByKey} {key : Value} {s s' : Records} {r : Reply}
    (hs : KeysApart table s) (hkeys : op.keys = [key])
    (hknown : ∀ cid ∈ op.assignments.map Prod.fst, cid ∈ table.columns.map Column.id)
    (hno : ∀ rid o, Matches table op.keys [op.filter, op.condition] s rid o →
      ∀ cid ∈ op.assignments.map Prod.fst, cid ∉ table.primaryKey)
    (hq : updateQuery table op key = .ok q) (h : Records.exec s q r s') : KeysApart table s' := by
  unfold updateQuery at hq
  obtain ⟨⟨sets, binds⟩, hsets, h₁⟩ := bind_eq_ok hq
  obtain ⟨⟨clauses, binds'⟩, hclauses, h₂⟩ := bind_eq_ok h₁
  obtain ⟨rid, hrid, h₃⟩ := bind_eq_ok h₂
  injection h₃ with h₃
  have hnum := (renderAssignments_grows hsets).numbered Binds.numbered_empty
  have hnum' := (renderPredicates_steady hclauses).toGrows.numbered hnum
  refine Records.exec_keeps hs (fun rid' o hid hput htable => ?_) h
  have hgrows : binds'.values <+: q.binds := by rw [← h₃]; exact ⟨_, rfl⟩
  have hid' : q.recordId "rid" = some rid := by rw [← h₃]; exact recordId_pushNamed hnum'
  obtain rfl : rid = rid' := Option.some.inj (hid'.symm.trans hid)
  cases hput with
  | update hsql ho hholds happly =>
      rw [← h₃] at hsql
      injection hsql with hsame hclause; subst hsame hclause
      rw [clausesHold_eq hnum hclauses hgrows] at hholds
      have hmatch : Matches table op.keys [op.filter, op.condition] s rid _ :=
        ⟨⟨key, hkeys, hrid⟩, ho, hholds⟩
      have hnames := assigned_names hknown (hno rid _ hmatch) (renderAssignments_names hsets)
      exact applySets_keyless hnames (hs _ (AssocMap.mem_of_lookup ho) htable) happly
  | create hsql _ _ => rw [← h₃] at hsql; exact absurd hsql (by simp)
  | upsert hsql _ => rw [← h₃] at hsql; exact absurd hsql (by simp)

/-- A statement of an operation that neither updates by key nor upserts. -/
theorem keepsApart_sends {op : Operation} (hof : op.Of table)
    (hupdate : ∀ t u, op ≠ .updateByKey t u)
    (hupsert : ∀ t u, op ≠ .upsert t u) (h : op.Sends q) : KeepsApart table q := by
  have hinsert : ∀ {t : Table} {insert : Insert}, (t.name = table.name → t = table) →
      (t = table → ∀ cid ∈ insert.columns, cid ∈ table.columns.map Column.id) → insert.Sends t q →
      KeepsApart table q := by
    intro t insert hsame hknown hsend
    obtain ⟨rows, row, rid, content, want, _, _, hbuild, rfl⟩ := hsend
    exact keepsApart_row hsame hknown hbuild
  cases op with
  | querySql stmt ret =>
      cases stmt with
      | ok stmt =>
          refine hinsert (hof.same _ rfl) (fun ht cid hcid => ?_) h
          exact hof.known (congrArg some ht) cid (List.mem_append_left _ hcid)
      | error name => exact h.elim
  | insert stmt ret =>
      cases stmt with
      | some stmt =>
          refine hinsert (hof.same _ rfl) (fun ht cid hcid => ?_) h
          exact hof.known (congrArg some ht) cid (List.mem_append_left _ hcid)
      | none => exact h.elim
  | getByKey t op => exact keepsApart_read (getQuery_reads h)
  | queryPk t op | findPkByIndex t op | scan t op => exact keepsApart_read h
  | deleteByKey t op =>
      obtain ⟨key, _, hq⟩ := h
      exact keepsApart_delete hq
  | updateByKey t op => exact absurd rfl (hupdate t op)
  | upsert t op => exact absurd rfl (hupsert t op)
  | rawSql => exact h.elim
  | transaction op => exact h.elim

/-! ## Runs -/

/-- The operation assigns columns of the record: an update that matches it does, and an upsert
that is to update. -/
def Operation.Alters (s : Records) (rid : RecordId) : Operation → Prop
  | .updateByKey t op => ∃ o, Matches t op.keys [op.filter, op.condition] s rid o
  | .upsert t op => ∃ clause row content, upsertSource t op = .ok (clause, row) ∧
      clause.action = .update ∧ buildRow "upsert" t op.insert.columns row = .ok (rid, content)
  | _ => False

/-- The operation assigns no key column of a record of the table. -/
def Operation.SparesKey (table : Table) (s : Records) (op : Operation) : Prop :=
  op.table? = some table → ∀ rid, op.Alters s rid → ∀ cid ∈ op.assigned, cid ∉ table.primaryKey

/-- A key column of a record was to be assigned, and reads as it did. -/
def Operation.Ineffective (table : Table) (s s' : Records) (op : Operation) : Prop :=
  op.table? = some table ∧ ∃ rid o o' cid, op.Alters s rid ∧ AssocMap.lookup rid s = some o ∧
    AssocMap.lookup rid s' = some o' ∧ cid ∈ op.assigned ∧ cid ∈ table.primaryKey ∧
    refValue rid o' (columnRef table (table.column cid)) =
    refValue rid o (columnRef table (table.column cid))

/-- An operation, and the records before and after it. -/
structure OperationStep where
  op : Operation
  before : Records
  after : Records

/-- A run of operations that succeed, from no records at all. -/
inductive Operated (table : Table) : List OperationStep → Records → Prop where
  | start : Operated table [] []
  | step {steps : List OperationStep} {conn conn' : Connection} {op : Operation} {s s' : Records}
      {answer : ExecResponse} (hrun : Operated table steps s) (hof : op.Of table)
      (h : (exec conn op).Runs recordStore.Handle s s' (.ok (conn', .ok answer))) :
      Operated table (steps ++ [⟨op, s, s'⟩]) s'

/-- **One operation** that assigns no key column keeps them apart. -/
theorem keysApart_exec {conn : Connection} {op : Operation} {s s' : Records}
    {out : Except Error (Outcome ExecResponse)} (hof : op.Of table) (hspares : op.SparesKey table s)
    (hs : KeysApart table s) (h : (exec conn op).Runs recordStore.Handle s s' out) :
    KeysApart table s' := by
  by_cases htx : ∃ t, op = .transaction t
  · obtain ⟨t, rfl⟩ := htx
    rw [transaction_keeps h]
    exact hs
  -- whether an update spares the key depends on the record it finds, so its one query is looked at
  by_cases hupdate : ∃ t u, op = .updateByKey t u
  · obtain ⟨t, u, rfl⟩ := hupdate
    obtain ⟨result, hrun, _⟩ := runs_keep.mp h
    rcases runs_lift_bind.mp hrun with ⟨_, _, rfl, _⟩ | ⟨_, _, hrun⟩
    · exact hs
    rcases execUpdateByKey_runs hrun with ⟨rfl, _⟩ | ⟨key, q, r, hkeys, hq, hexec, _⟩
    · exact hs
    by_cases ht : t.name = table.name
    · obtain rfl := hof.same t rfl ht
      exact update_keysApart hs hkeys (hof.known rfl)
        (fun rid o hm => hspares rfl rid ⟨o, hm⟩) hq hexec
    · obtain ⟨rid, hrid⟩ := updateQuery_addressed hq
      obtain ⟨_, _, _, hid⟩ := updateQuery_recordId hrid hq
      exact keysApart_step hs (keepsApart_foreign ht hid (recordId_table hrid)) hexec
  by_cases hupsert : ∃ t u, op = .upsert t u
  · obtain ⟨t, u, rfl⟩ := hupsert
    obtain ⟨result, hrun, _⟩ := runs_keep.mp h
    -- of an upsert every query is looked at, with the row it comes from
    refine routed_keeps (I := KeysApart table) ?_ (asks_guarded (asks_upsert_action u)) hs hrun
    intro x q r x' hx hsend hexec
    refine keysApart_step hx ?_ hexec
    obtain ⟨clause, row, rid, content, want, hsource, hbuild, ⟨_, rfl⟩ | ⟨haction, hq⟩⟩ := hsend
    · refine keepsApart_row (hof.same t rfl) (fun ht cid hcid => ?_) hbuild
      exact hof.known (congrArg some ht) cid (List.mem_append_left _ hcid)
    · by_cases ht : t.name = table.name
      · obtain rfl := hof.same t rfl ht
        have hassigned : (Operation.upsert t u).assigned = clause.shared.map Prod.fst := by
          rw [Operation.assigned, (upsertSource_ok hsource).1]
        have hno := hspares rfl rid ⟨clause, row, content, hsource, haction, hbuild⟩
        have hknown := hof.known rfl
        rw [hassigned] at hno hknown
        exact keepsApart_upsert (fun cid hcid => hknown cid (List.mem_append_left _ hcid))
          (fun cid hcid => hknown cid (List.mem_append_right _ hcid)) hno hbuild hq
      · obtain ⟨_, _, _, hid⟩ := upsertQuery_recordId hq
        exact keepsApart_foreign ht hid (buildRow_table hbuild)
  obtain ⟨p, hp, hasks⟩ := @exec_data conn _ op fun t ht => htx ⟨t, ht⟩
  rw [hp] at h
  obtain ⟨result, hrun, _⟩ := runs_keep.mp h
  refine routed_keeps (I := KeysApart table) (fun x q r x' hx hsend hexec => ?_) hasks hs hrun
  exact keysApart_step hx (keepsApart_sends hof (fun t u hop => hupdate ⟨t, u, hop⟩)
    (fun t u hop => hupsert ⟨t, u, hop⟩) hsend) hexec

/-- **Key columns are stored in record ids alone**, and no assignment to one is reported as done
in vain, in a run whose operations assign no key column of a record. -/
theorem keys_apart {steps : List OperationStep} {s : Records} (hrun : Operated table steps s)
    (hspares : ∀ step ∈ steps, step.op.SparesKey table step.before) :
    KeysApart table s ∧ ∀ step ∈ steps, ¬ step.op.Ineffective table step.before step.after := by
  refine ⟨?_, fun step hstep hvain => ?_⟩
  · induction hrun with
    | start => exact fun rec hrec => absurd hrec List.not_mem_nil
    | step hrun hof h ih =>
        have hbefore := ih fun step hstep => hspares step (List.mem_append_left _ hstep)
        have hlast := hspares _ (List.mem_append_right _ (List.mem_singleton.mpr rfl))
        exact keysApart_exec hof hlast hbefore h
  · obtain ⟨ht, rid, _, _, cid, halters, _, _, hcid, hkey, _⟩ := hvain
    exact hspares step hstep ht rid halters cid hcid hkey

end

/-! ## A number that is changed -/

/-- Product 1 is new, with one in stock. -/
def newProduct : Operation :=
  .insert (some (products, ⟨[⟨0, 0⟩, ⟨0, 2⟩], some [[some (.i64 1), some (.i64 1)]], none⟩)) false

/-- Product 1 is to be product 2. -/
def renumber : Operation :=
  .updateByKey products ⟨[.i64 1], [(⟨0, 0⟩, .set (.i64 2))], none, none, none⟩

theorem newProduct_of : newProduct.Of products :=
  ⟨fun t ht _ => (Option.some.inj ht).symm, fun _ => by decide⟩

theorem newProduct_run : let := plain
    let := countingSurql
    Operated products [⟨newProduct, [], shop [("stock", .number (.int 1))]⟩]
      (shop [("stock", .number (.int 1))]) := by
  let := plain
  let := countingSurql
  have hrun : (exec .new newProduct).Runs recordStore.Handle [] (shop [("stock", .number (.int 1))])
      (.ok (.new, .ok (.count 1))) := by
    refine runs_keep.mpr ⟨_, ?_, rfl⟩
    exact ⟨_, _, .inr ⟨firstProduct, _, rfl, rfl, rfl, rfl, rfl⟩, rfl, rfl⟩
  exact .step .start newProduct_of hrun

/-- **An insert and an update of the stock** keep the number in the record id. -/
theorem restocked_apart : let := plain
    let := countingSurql
    KeysApart products (shop [("stock", .number (.int 6))]) := by
  let := plain
  let := countingSurql
  have hrun : (exec .new (.updateByKey products restock)).Runs recordStore.Handle
      (shop [("stock", .number (.int 1))]) (shop [("stock", .number (.int 6))])
      (.ok (.new, .ok (.valueStream [.record [.i64 6]]))) := by
    refine runs_keep.mpr ⟨_, ?_, rfl⟩
    exact ⟨_, _, .inr ⟨firstProduct, rfl, .inl ⟨_, _, rfl, rfl, rfl, rfl, rfl⟩⟩, rfl, rfl⟩
  have hof : (Operation.updateByKey products restock).Of products :=
    ⟨fun t ht _ => (Option.some.inj ht).symm, fun _ => by decide⟩
  refine (keys_apart (.step newProduct_run hof hrun) fun step hstep => ?_).1
  rcases List.mem_cons.mp hstep with rfl | hstep
  · exact fun _ rid halters => halters.elim
  · rw [List.mem_singleton.mp hstep]
    exact fun _ rid _ => by decide

/-- **A number stored beside the key.** The update of the number succeeds, the record is product 1
still, and its new number is a field that no statement reads. -/
theorem number_stored : let := plain
    let := countingSurql
    let before := shop [("stock", .number (.int 1))]
    let after := shop [("stock", .number (.int 1)), ("number", .number (.int 2))]
    Operated products [⟨newProduct, [], before⟩, ⟨renumber, before, after⟩] after ∧
      ¬ KeysApart products after ∧ renumber.Ineffective products before after := by
  let := plain
  let := countingSurql
  have hrun : (exec .new renumber).Runs recordStore.Handle (shop [("stock", .number (.int 1))])
      (shop [("stock", .number (.int 1)), ("number", .number (.int 2))])
      (.ok (.new, .ok (.count 1))) := by
    refine runs_keep.mpr ⟨_, ?_, rfl⟩
    exact ⟨_, _, .inr ⟨firstProduct, rfl, .inl ⟨_, _, rfl, rfl, rfl, rfl, rfl⟩⟩, rfl, rfl⟩
  have hof : renumber.Of products := ⟨fun t ht _ => (Option.some.inj ht).symm, fun _ => by decide⟩
  refine ⟨.step newProduct_run hof hrun, fun hapart => ?_, rfl, ?_⟩
  · have hnone := hapart _ List.mem_cons_self rfl ⟨0, 0⟩ (by decide)
    exact absurd hnone (by decide)
  · exact ⟨firstProduct, _, _, ⟨0, 0⟩, ⟨_, ⟨_, rfl, rfl⟩, rfl, rfl⟩, rfl, rfl, by
      decide, by decide, rfl⟩

end ToastySurreal
