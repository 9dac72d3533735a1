import ToastySurreal.Proof.IndexPath
import ToastySurreal.Proof.Refinement

/-!
# Queries on the map

A scan, a query by key filter and a search by index answer with rows of the map: exactly
those that the filter holds of, each once, in the order that was asked for, from the offset
on. The store holds no records of the table but the rows of the map, because every record
was put there under a key of the columns' types. So this too holds of any number of clients,
whatever they write in between.
-/

namespace ToastySurreal

open Prog Results Lists Simulation

section

variable [Sdk] {table : Table}

/-! ## What a query asks for -/

/-- What a query selects, from which records, in which order and how many. -/
structure Wanted where
  select : List ColumnId
  predicate : Option (List Token)
  binds : Binds
  order : Option Direction
  limit : Option Pagination

/-- The operation is a query for these. -/
inductive Wants (table : Table) : Operation → Wanted → Prop where
  | scan {op : Scan} {predicate : Option (List Token)} {binds : Binds}
      (h : scanPredicate table op.filter = .ok (predicate, binds)) :
      Wants table (.scan table op)
      ⟨op.columns.map (ColumnId.mk table.id), predicate, binds, none, op.limit⟩
  | queryPk {op : QueryPk} {predicate : List Token} {binds : Binds}
      (h : queryPkPredicate table op = .ok (predicate, binds)) :
      Wants table (.queryPk table op) ⟨op.select, some predicate, binds, op.order, op.limit⟩
  | findPkByIndex {op : FindPkByIndex} {predicate : List Token} {binds : Binds}
      (h : render table .empty op.filter = .ok (predicate, binds)) :
      Wants table (.findPkByIndex table op) ⟨table.primaryKey, some predicate, binds, none, none⟩

/-- The rows of a page. -/
def pageOf {α : Type} (limit : Option Pagination) (rows : List α) : List α :=
  match limit with
  | some (.offset n start) => (rows.drop (start.getD 0)).take n
  | _ => rows

section Surql

variable [Surql]

/-- The predicate says of a record what `p` says of its row. -/
def Decides (table : Table) (w : Wanted) (p : (ColumnId → Value) → Prop) : Prop :=
  ∀ row rid o, HoldsRow table row rid o → (w.predicate.toList.all (fun toks =>
    Surql.holds (toks.map (Precedence.Tok.map (resolve w.binds))) rid o) = true ↔ p row)

/-- Values in a direction of the database's order. -/
def Direction.le : Direction → SurValue → SurValue → Bool
  | .asc, v, w => Surql.le v w
  | .desc, v, w => Surql.le w v

/-- The rows of the map that `p` holds of, each once, in the order of the last key column
where one is asked for. -/
structure RowsOf (table : Table) (m : TableMap) (p : (ColumnId → Value) → Prop)
    (order : Option Direction) (rows : List (ColumnId → Value)) : Prop where
  mem : ∀ row, row ∈ rows ↔ m (keyOf table row) = some row ∧ p row
  nodup : (rows.map (keyOf table)).Nodup
  ordered : ∀ dir c, order = some dir → sortColumn table = some c → rows.Pairwise fun a b =>
    ∀ v w, toSurreal (a c.id) = .ok v → toSurreal (b c.id) = .ok w → dir.le v w = true

/-- A query without a cursor, on columns of the table. A sorted one selects no column of the
name that its sort key goes by. -/
structure Wanted.Plain (table : Table) (w : Wanted) : Prop where
  known : ∀ cid ∈ w.select, cid ∈ table.columns.map Column.id
  free : w.order.isSome → ∀ cid ∈ w.select, (table.column cid).name ≠ sortAlias
  limit : w.limit = none ∨ ∃ n start, w.limit = some (.offset n start)

/-- **What a query answers**: the page of the rows that its filter holds of, unless it is
refused. -/
inductive QueryStep (table : Table) (m : TableMap) :
    Operation → Except Error ExecResponse → Prop where
  | refused {op : Operation} {err : Error} : QueryStep table m op (.error err)
  | answered {op : Operation} {w : Wanted} {p : (ColumnId → Value) → Prop}
      {rows : List (ColumnId → Value)}
      {records : List Value} (hw : Wants table op w) (hp : Decides table w p)
      (hrows : RowsOf table m p w.order rows)
      (hrecords : List.Forall₂ (ReadsRow table w.select) (pageOf w.limit rows) records) :
      QueryStep table m op (.ok (.valueStream records))

/-- The operation is a query on the table. -/
def OnQuery (table : Table) (op : Operation) : Prop :=
  ∃ w p, Wants table op w ∧ Decides table w p ∧ w.Plain table

/-! ## The records of a table are rows -/

variable [LawfulSdk] [TextInjective] {s : Records} {m : TableMap} {rid : RecordId} {o : Object}

omit [LawfulSdk] [TextInjective] [Surql] in
/-- **Every record of the table holds a row of the map.** -/
theorem Represents.row_of_recorded (h : Represents table s m) (hm : table.Mapped)
    (hrec : Recorded table rid)
    (ho : AssocMap.lookup rid s = some o) : ∃ row, m (keyOf table row) = some row ∧
    HoldsRow table row rid o := by
  obtain ⟨value, hid, htakes⟩ := hrec
  obtain ⟨row, hrow⟩ := h.row_of_record (hm.keyTyped htakes) hid ho
  obtain ⟨hkey, o', ho', hholds⟩ := h.found hid hrow
  rw [ho] at ho'
  injection ho' with ho'; subst ho'
  exact ⟨row, by rw [← hkey, hrow], hholds⟩

omit [LawfulSdk] [TextInjective] [Surql] in
theorem nodup_keys {rows : List (ColumnId → Value)} {recs : Records}
    (h : List.Forall₂ (fun row rec => HoldsRow table row rec.1 rec.2) rows recs)
    (hn : (recs.map Prod.fst).Nodup) : (rows.map (keyOf table)).Nodup := by
  induction h with
  | nil => exact List.nodup_nil
  | cons hrow hrows ih =>
      obtain ⟨hne, hrest⟩ := List.nodup_cons.mp hn
      refine List.nodup_cons.mpr ⟨fun hmem => ?_, ih hrest⟩
      obtain ⟨row', hrow', hkey⟩ := List.mem_map.mp hmem
      obtain ⟨rec', hrec', hholds⟩ := forall₂_mem_left hrows hrow'
      have hid := hholds.key
      rw [keyId_congr hkey, hrow.key] at hid
      injection hid with hid
      exact hne (List.mem_map.mpr ⟨rec', hrec', hid.symm⟩)

omit [LawfulSdk] [TextInjective] in
/-- Rows follow the order of their records. -/
theorem pairwise_rows {rows : List (ColumnId → Value)} {recs : Records} {dir : Direction}
    {c : Column} (hc : sortColumn table = some c)
    (h : List.Forall₂ (fun row rec => HoldsRow table row rec.1 rec.2) rows recs)
    (ho : recs.Pairwise fun a b =>
      dir.le (refValue a.1 a.2 (sortRef table)) (refValue b.1 b.2 (sortRef table)) = true) :
    rows.Pairwise fun a b => ∀ v w, toSurreal (a c.id) = .ok v → toSurreal (b c.id) = .ok w →
      dir.le v w = true := by
  obtain ⟨hmem, hkey, href⟩ := sortColumn_mem hc
  have hread : ∀ {row : ColumnId → Value} {rec : RecordId × Object},
      HoldsRow table row rec.1 rec.2 →
      toSurreal (row c.id) = .ok (refValue rec.1 rec.2 (sortRef table)) := by
    intro row rec hholds
    have hvalue := keyValue_read rec.2 hholds.key hkey (hholds.typed c.id hkey).1.isRecord
    rwa [Table.column_id hmem, ← href] at hvalue
  induction h with
  | nil => exact .nil
  | cons hrow hrows ih =>
      obtain ⟨hfirst, hrest⟩ := List.pairwise_cons.mp ho
      refine .cons (fun row' hrow' v w hv hw => ?_) (ih hrest)
      obtain ⟨rec', hrec', hholds⟩ := forall₂_mem_left hrows hrow'
      rw [hread hrow] at hv
      rw [hread hholds] at hw
      injection hv with hv; injection hw with hw
      rw [← hv, ← hw]
      exact hfirst rec' hrec'

omit [LawfulSdk] in
/-- **The records a filter holds of are the rows it holds of.** -/
theorem Represents.rowsOf (h : Represents table s m) (hm : table.Mapped) (hs : Populated table s)
    {w : Wanted} {p : (ColumnId → Value) → Prop} (hp : Decides table w p) {recs : Records}
    (hperm : recs.Perm (matching table w.predicate w.binds s))
    (ho : ∀ dir c, w.order = some dir → sortColumn table = some c → recs.Pairwise fun a b =>
      dir.le (refValue a.1 a.2 (sortRef table)) (refValue b.1 b.2 (sortRef table)) = true) :
    ∃ rows, RowsOf table m p w.order rows ∧
      List.Forall₂ (fun row rec => HoldsRow table row rec.1 rec.2) rows recs := by
  have hmatch : ∀ rec, rec ∈ recs ↔ rec ∈ s ∧ rec.1.table = table.name ∧
      w.predicate.toList.all (fun toks =>
      Surql.holds (toks.map (Precedence.Tok.map (resolve w.binds))) rec.1 rec.2) = true := by
    intro rec
    rw [hperm.mem_iff, matching, List.mem_filter, Bool.and_eq_true, beq_iff_eq]
  have hrow : ∀ rec ∈ recs, ∃ row, m (keyOf table row) = some row ∧
      HoldsRow table row rec.1 rec.2 := by
    intro rec hrec
    obtain ⟨hmem, hname, _⟩ := (hmatch rec).mp hrec
    exact h.row_of_recorded hm (hs.recorded rec hmem hname) (hs.lookup hmem)
  obtain ⟨rows, hrows⟩ := exists_forall₂ hrow
  have hholds : List.Forall₂ (fun row rec => HoldsRow table row rec.1 rec.2) rows recs :=
    hrows.flip.imp fun _ _ h => h.2
  have hnodup : (recs.map Prod.fst).Nodup := by
    rw [(hperm.map Prod.fst).nodup_iff]
    exact hs.nodup.sublist (List.filter_sublist.map Prod.fst)
  refine ⟨rows, ⟨fun row => ⟨fun hmem => ?_, fun hwanted => ?_⟩, nodup_keys hholds hnodup,
    fun dir c hdir hc => pairwise_rows hc hholds (ho dir c hdir hc)⟩, hholds⟩
  · obtain ⟨rec, hrec, hthere, hrow⟩ := forall₂_mem_right hrows hmem
    exact ⟨hthere, (hp row rec.1 rec.2 hrow).mp ((hmatch rec).mp hrec).2.2⟩
  · obtain ⟨hthere, hsel⟩ := hwanted
    obtain ⟨_, rid, o, ho, hrow⟩ := h.present _ _ hthere
    have hrec : (rid, o) ∈ recs :=
      (hmatch (rid, o)).mpr
        ⟨AssocMap.mem_of_lookup ho, recordId_table hrow.key, (hp row rid o hrow).mpr hsel⟩
    obtain ⟨row', hrow', hthere', hholds'⟩ := forall₂_mem_left hrows hrec
    have hsame : keyOf table row' = keyOf table row :=
      keyOf_inj hholds'.typed hrow.typed hholds'.key hrow.key
    rw [hsame, hthere] at hthere'
    injection hthere' with he
    rw [he]
    exact hrow'

/-- The select of a query. -/
def Wanted.input (table : Table) (w : Wanted) : KeysetSelect where
  tableName := table.name
  projection := projectColumns table (w.select.map table.column)
  predicate := w.predicate
  sortRef := sortRef table
  sortColumn := sortColumn table
  order := w.order
  limit := w.limit
  binds := w.binds
  select := w.select.map table.column

variable {w : Wanted} {row : ColumnId → Value}

omit [Surql] [TextInjective] in
/-- A selected record is read as its row, with or without its sort key. -/
theorem HoldsRow.selected (h : HoldsRow table row rid o) (hm : table.Mapped) (hw : w.Plain table)
    {sort : Option (ColumnRef × Direction)} (hsort : sort.isSome → w.order.isSome) : ∃ fields,
    rowToRecord (selectRow (projectColumns table (w.select.map table.column)) sort (rid, o))
      (w.select.map table.column) = .ok fields ∧ ReadsRow table w.select row (.record fields) := by
  obtain ⟨fields, hfields, hreads⟩ := h.readsRow hm.readsTrue hw.known
  refine ⟨fields, ?_, hreads⟩
  cases sort with
  | none => exact hfields
  | some sort =>
      rw [← hfields]
      refine rowToRecord_congr fun c hc => ?_
      obtain ⟨cid, hcid, rfl⟩ := List.mem_map.mp hc
      rw [Object.field_insert_ne (hw.free (hsort rfl) cid hcid)]

omit [Surql] [TextInjective] in
/-- The selected records are read as their rows. -/
theorem selected_rows (hm : table.Mapped) (hw : w.Plain table)
    {sort : Option (ColumnRef × Direction)} (hsort : sort.isSome → w.order.isSome)
    {rows : List (ColumnId → Value)} {recs : Records}
    (h : List.Forall₂ (fun row rec => HoldsRow table row rec.1 rec.2) rows recs) : ∃ records,
    rowsToRecords (w.select.map table.column)
      (recs.map (selectRow (projectColumns table (w.select.map table.column)) sort)) = .ok records ∧
      List.Forall₂ (ReadsRow table w.select) rows records := by
  induction h with
  | nil => exact ⟨[], rfl, .nil⟩
  | cons hrow _ ih =>
      obtain ⟨fields, hfields, hread⟩ := hrow.selected hm hw hsort
      obtain ⟨records, hrecords, hreads⟩ := ih
      refine ⟨.record fields :: records, ?_, .cons hread hreads⟩
      rw [List.map_cons, rowsToRecords, hfields, hrecords]
      rfl

omit [Sdk] [Surql] [LawfulSdk] [TextInjective] in
theorem forall₂_pageOf {α β : Type} {R : α → β → Prop} {as : List α} {bs : List β}
    (limit : Option Pagination)
    (h : List.Forall₂ R as bs) : List.Forall₂ R (pageOf limit as) (pageOf limit bs) := by
  cases limit with
  | none => exact h
  | some limit =>
      cases limit with
      | offset n start => exact List.forall₂_take n (List.forall₂_drop (start.getD 0) h)
      | cursor n after => exact h

omit [Sdk] [Surql] [LawfulSdk] [TextInjective] in
theorem effectiveOrder_input
    (hlimit : w.limit = none ∨ ∃ n start, w.limit = some (.offset n start)) :
    effectiveOrder (w.input table) = w.order := by
  unfold effectiveOrder Wanted.input
  rcases hlimit with hlimit | ⟨n, start, hlimit⟩ <;> rw [hlimit] <;> cases w.order <;> rfl

/-- Records in the order of a select. -/
def inOrder (sort : Option (ColumnRef × Direction)) (found : Records) : Records :=
  match sort with
  | none => found
  | some (r, dir) => (directedReading r dir).sort found

omit [Sdk] [LawfulSdk] [TextInjective] in
theorem inOrder_perm (sort : Option (ColumnRef × Direction)) (found : Records) :
    (inOrder sort found).Perm found := by
  cases sort with
  | none => exact .refl found
  | some sort => exact (directedReading sort.1 sort.2).perm found

omit [Sdk] [LawfulSdk] [TextInjective] in
/-- The order of a query is that of its last key column. -/
theorem inOrder_pairwise (hlimit : w.limit = none ∨ ∃ n start, w.limit = some (.offset n start))
    {found : Records} {dir : Direction} {c : Column} (hdir : w.order = some dir)
    (hc : sortColumn table = some c) :
    (inOrder (sortOf (w.input table)) found).Pairwise fun a b =>
      dir.le (refValue a.1 a.2 (sortRef table)) (refValue b.1 b.2 (sortRef table)) = true := by
  have hsort : sortOf (w.input table) = some (sortRef table, dir) := by
    rw [sortOf, effectiveOrder_input hlimit, hdir, Wanted.input, hc]
  rw [hsort, inOrder]
  have hsorted := (directedReading (sortRef table) dir).sorted found
  cases dir <;> exact hsorted

/-! ## The queries -/

variable {conn conn' : Connection} {s' : Records} {out result : Except Error ExecResponse}
  {op : Operation}

/-- What a query finds in the store is what it answers on the map. -/
theorem Represents.answers (h : Represents table s m) (hm : table.Mapped) (hs : Populated table s)
    {p : (ColumnId → Value) → Prop} (hq : Wants table op w) (hp : Decides table w p)
    (hw : w.Plain table)
    (sort : Option (ColumnRef × Direction)) (hsort : sort.isSome → w.order.isSome)
    (horder : ∀ dir c, w.order = some dir → sortColumn table = some c →
      sort = sortOf (w.input table)) :
    ∃ records, rowsToRecords (w.select.map table.column)
      ((pageOf w.limit (inOrder sort (matching table w.predicate w.binds s))).map
        (selectRow (projectColumns table (w.select.map table.column)) sort)) = .ok records ∧
      QueryStep table m op (.ok (.valueStream records)) := by
  obtain ⟨rows, hrows, hholds⟩ := h.rowsOf hm hs hp (inOrder_perm sort _) fun dir c hdir hc => by
    rw [horder dir c hdir hc]
    exact inOrder_pairwise hw.limit hdir hc
  obtain ⟨records, hread, hreads⟩ := selected_rows hm hw hsort (forall₂_pageOf w.limit hholds)
  exact ⟨records, hread, .answered hq hp hrows hreads⟩

omit [Surql] [LawfulSdk] [TextInjective] in
/-- An operation on rows writes rows of the columns' types. -/
theorem OnRows.typed (h : OnRows table op) : op.Typed table := by
  have htyped : ∀ {insert : Insert} {row : Row}, insert.values = some [row] →
      Targets table insert.columns →
      (∀ p ∈ rowPairs row insert.columns 0, (table.column p.1).Takes p.2) → insert.Typed table := by
    intro insert row hrow ht htakes
    refine ⟨ht, fun rows hrows row' hrow' => ?_⟩
    rw [hrow] at hrows
    injection hrows with hrows; subst hrows
    rw [List.mem_singleton.mp hrow']
    exact htakes
  rcases h with hop | ⟨t, rfl⟩
  · cases hop with
    | insert ret hrow ht htakes hret => exact fun _ => ⟨rfl, htyped hrow ht htakes⟩
    | upsert hclause haction hrow ht htakes hshared hret =>
        exact fun _ => ⟨rfl, htyped hrow ht htakes⟩
    | get | update | delete => trivial
  · trivial

omit [LawfulSdk] [TextInjective] in
/-- A query is one statement, and fails where that is refused. -/
theorem OnQuery.statement (h : OnQuery table op) (conn : Connection) :
    ∃ p, exec conn op = conn.keep p ∧ Database.Refusable p := by
  obtain ⟨w, p, hq, _⟩ := h
  cases hq with
  | scan => exact ⟨_, rfl, .lift_bind fun _ _ => refusable_keyset _ _⟩
  | queryPk => exact ⟨_, rfl, .lift_bind fun _ _ => refusable_keyset _ _⟩
  | findPkByIndex =>
      exact ⟨_, rfl, .lift_bind fun _ _ => (Database.refusable_call _).bind fun value =>
      (Ended.lift _).bind fun _ => ⟨.ok _, rfl⟩⟩

omit [LawfulSdk] [TextInjective] in
theorem OnQuery.single (h : OnQuery table op) : op.Single := fun conn => by
  obtain ⟨p, hp, hfails⟩ := h.statement conn
  rw [hp]
  exact single_keep hfails.atMostOnce

omit [LawfulSdk] [TextInjective] [Surql] in
/-- A commit leaves the records so. -/
theorem Populated.commits {start working : Records} (hs : Populated table s)
    (hworking : Populated table working)
    (h : Records.Commits start working s s') : Populated table s' := by
  refine ⟨h.nodup hs.nodup, fun rec hrec hname => ?_⟩
  have hlookup := AssocMap.lookup_of_mem (h.nodup hs.nodup) hrec
  by_cases hsame : AssocMap.lookup rec.1 working = AssocMap.lookup rec.1 start
  · rw [h.kept rec.1 hsame] at hlookup
    exact hs.recorded _ (AssocMap.mem_of_lookup hlookup) hname
  · rw [(h.changed rec.1 hsame).2] at hlookup
    exact hworking.recorded _ (AssocMap.mem_of_lookup hlookup) hname

end Surql

end

end ToastySurreal
