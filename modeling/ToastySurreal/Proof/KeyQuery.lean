import ToastySurreal.Proof.OneRecord
import ToastySurreal.Proof.Paging

/-!
# Reading a partition page by page

The records a key query selects agree on every key column but the last, so that the last
one tells them apart: no two share the key a page ends with, and nothing is lost between
two pages, whichever way they are read. `partition_visited_iff` says that a query by
cursor then visits the partition once and in order, exactly when its rows can be listed.
-/

namespace ToastySurreal

open Results Prog Lists

section KeyQuery

variable [Surql]

/-- `<` on a column reference follows the order, as `>` does. -/
class SqlLess : Prop where
  holds_lt : ∀ r v rid o, Surql.holds [.atom (.ref r []), .op .lt, .atom (.value v)] rid o =
    !Surql.le v (refValue rid o r)

theorem resumeFollows [SqlLess] (r : ColumnRef) : ∀ dir, ResumeFollows r dir
  | .asc => resumeFollows_asc r
  | .desc => SqlLess.holds_lt r

variable [Sdk] {conn : Connection} {table : Table} {op : QueryPk} {predicate : List Token}
  {binds : Binds} {n : Nat} {s found : Records}

/-- The order tells the values of a type apart. -/
def Separates (ty : Ty) : Prop :=
  ∀ (v w : Value) (a b : SurValue), v.HasTy ty → w.HasTy ty → toSurreal v = .ok a →
    toSurreal w = .ok b → Surql.le a b = true → Surql.le b a = true → a = b

/-! ## What a key query is to do -/

/-- A key query that asks for a page. -/
def QueryPk.page (op : QueryPk) (n : Nat) (after : Option Value) : QueryPk :=
  { op with limit := some (.cursor n after) }

/-- Records as the driver leaves them: one under an id, and every id of the table made of
values of the key columns' types. -/
structure KeyedBy (table : Table) (s : Records) : Prop where
  nodup : (s.map Prod.fst).Nodup
  keyed : ∀ rec ∈ s, rec.1.table = table.name →
    ∃ value, KeyTyped table value ∧ keyId table value = .ok rec.1

/-- The records agree on every key column but the last. -/
def OnePartition (table : Table) (found : Records) : Prop :=
  ∀ a ∈ found, ∀ b ∈ found, ∀ cid ∈ table.primaryKey.dropLast,
    refValue a.1 a.2 (columnRef table (table.column cid)) =
      refValue b.1 b.2 (columnRef table (table.column cid))

/-- The records are in the order of the last key column, in a direction. -/
def InOrder (table : Table) : Direction → Records → Prop
  | .asc, recs => recs.Pairwise fun a b =>
      Surql.le (refValue a.1 a.2 (sortRef table)) (refValue b.1 b.2 (sortRef table)) = true
  | .desc, recs => recs.Pairwise fun a b =>
      Surql.le (refValue b.1 b.2 (sortRef table)) (refValue a.1 a.2 (sortRef table)) = true

/-- A record as a query lists it: every selected column decoded from where it is kept. -/
def Listed (table : Table) (select : List Column) (rec : RecordId × Object) (v : Value) : Prop :=
  ∃ fields, v = .record fields ∧ List.Forall₂ (fun c w =>
    fromSurrealForColumn (refValue rec.1 rec.2 (columnRef table c)) c = .ok w) select fields

/-- **The pages visit the records once, in order**: following the cursors ends, with one
list of pages, and these list every record exactly once. -/
def VisitedOnce (conn : Connection) (table : Table) (op : QueryPk) (n : Nat) (s found : Records) :
    Prop :=
  ∃ (pages : List (List Value)) (recs : Records),
    (∀ out, Followed (fun after => execQueryPk conn table (op.page n after)) s none out ↔
      out = .ok pages) ∧
    recs.Perm found ∧ InOrder table (op.order.getD .asc) recs ∧
    List.Forall₂ (Listed table (op.select.map table.column)) recs pages.flatten

/-- Every selected column decodes, and one called as the sort key's alias does so from the
sort key, which hides it. -/
def Legible (table : Table) (select : List Column) (rec : RecordId × Object) : Prop :=
  ∀ c ∈ select, ∃ w, fromSurrealForColumn (refValue rec.1 rec.2 (columnRef table c)) c = .ok w ∧
    (c.name = sortAlias → fromSurrealForColumn (refValue rec.1 rec.2 (sortRef table)) c = .ok w)

/-! ## Rows -/

variable {select : List Column}

omit [Surql] [Sdk] in
/-- A projected column is what its reference reads. -/
theorem projectColumn_read {rid : RecordId} {o : Object} (c : Column) :
    (projectColumn table c).value rid o = refValue rid o (columnRef table c) := by
  by_cases hk : isPrimaryKey table c = true
  · exact projectColumn_key hk
  · have hk : isPrimaryKey table c = false := by simpa using hk
    rw [columnRef, if_neg (by simp [hk])]
    exact projectColumn_field hk

omit [Surql] [Sdk] in
/-- What a selected row has under a column's name. -/
theorem selectRow_read {c : Column} {rec : RecordId × Object}
    (hsel : ∀ c ∈ select, c ∈ table.columns) (hc : c ∈ select) :
    Object.field (AssocMap.insert sortAlias (refValue rec.1 rec.2 (sortRef table))
        (projectRow (projectColumns table select) rec.1 rec.2)) c.name =
      if c.name = sortAlias then refValue rec.1 rec.2 (sortRef table)
      else refValue rec.1 rec.2 (columnRef table c) := by
  by_cases halias : c.name = sortAlias
  · rw [if_pos halias, halias]
    exact Object.field_insert_self ..
  · rw [if_neg halias, Object.field_insert_ne halias, Object.field, projectRow_read hsel hc]
    exact projectColumn_read c

omit [Surql] in
/-- A row decodes to what its record is listed as, up to the alias. -/
theorem rowDecodes_iff {rec : RecordId × Object} {dir : Direction} {v : Value}
    (hsel : ∀ c ∈ select, c ∈ table.columns) :
    RowDecodes table select (some (sortRef table, dir)) rec v ↔ ∃ fields, v = .record fields ∧
      List.Forall₂ (fun c w => fromSurrealForColumn (if c.name = sortAlias then
        refValue rec.1 rec.2 (sortRef table) else refValue rec.1 rec.2 (columnRef table c)) c =
        .ok w) select fields := by
  have hread : ∀ fields,
      rowToRecord (selectRow (projectColumns table select) (some (sortRef table, dir)) rec)
      select = .ok fields ↔
      List.Forall₂ (fun c w => fromSurrealForColumn (if c.name = sortAlias then
        refValue rec.1 rec.2 (sortRef table) else refValue rec.1 rec.2 (columnRef table c)) c =
        .ok w) select fields := by
    intro fields
    refine rowToRecord_ok.trans ?_
    constructor
    · intro h
      refine forall₂_imp_mem h fun c hc w _ hw => ?_
      rwa [selectRow_read hsel hc] at hw
    · intro h
      refine forall₂_imp_mem h fun c hc w _ hw => ?_
      rwa [selectRow_read hsel hc]
  constructor
  · intro h
    obtain ⟨fields, hfields, hv⟩ := h
    exact ⟨fields, hv, (hread fields).mp hfields⟩
  · intro h
    obtain ⟨fields, hv, hfields⟩ := h
    exact ⟨fields, (hread fields).mpr hfields, hv⟩

omit [Surql] in
/-- **A legible record is listed**, and one that is listed as its row decodes is legible. -/
theorem legible_iff {rec : RecordId × Object} (dir : Direction)
    (hsel : ∀ c ∈ select, c ∈ table.columns) :
    Legible table select rec ↔
      ∃ v, RowDecodes table select (some (sortRef table, dir)) rec v ∧
      Listed table select rec v := by
  constructor
  · intro h
    obtain ⟨fields, hfields⟩ := exists_forall₂ h
    refine ⟨.record fields, (rowDecodes_iff hsel).mpr ⟨fields, rfl, hfields.imp fun c w hw => ?_⟩,
      fields, rfl, hfields.imp fun c w hw => hw.1⟩
    by_cases halias : c.name = sortAlias
    · rw [if_pos halias]; exact hw.2 halias
    · rw [if_neg halias]; exact hw.1
  · rintro ⟨v, hdec, fields, rfl, hlisted⟩ c hc
    obtain ⟨fields', hsame, hrow⟩ := (rowDecodes_iff hsel).mp hdec
    injection hsame with hsame; subst hsame
    obtain ⟨w, hw, hw'⟩ := forall₂_both hlisted hrow hc
    refine ⟨w, hw, fun halias => ?_⟩
    rwa [if_pos halias] at hw'

omit [Surql] in
/-- A record whose row an insert built is legible, where no selected column is hidden behind
the record id or the sort key, and no key column is native JSON. -/
theorem built_legible [LawfulSdk] {row : Row} {columns : List ColumnId} {rid : RecordId}
    {content : Object}
    (hb : Built table row columns rid content) (hsel : ∀ c ∈ select, c ∈ table.columns)
    (htakes : ∀ c ∈ select, c.Takes (valueOf row columns c.id))
    (hseen : ∀ c ∈ select, c.name ≠ sortAlias ∧
      if isPrimaryKey table c then c.storageTy ≠ .json else c.name ≠ "id") :
    Legible table select (rid, content) := by
  intro c hc
  obtain ⟨w, hw, _⟩ := column_read hb (hsel c hc) (htakes c hc) (hseen c hc).2
  rw [projectColumn_read] at hw
  exact ⟨w, hw, fun halias => absurd halias (hseen c hc).1⟩

/-! ## Keys -/

omit [Surql] [Sdk] in
theorem RecordIdKey.value_inj {k k' : RecordIdKey} (h : k.value = k'.value) : k = k' := by
  cases k <;> cases k' <;> simp_all [RecordIdKey.value]

omit [Surql] in
theorem toSurrealList_alike {value value' : ColumnId → Value} : ∀ {cids : List ColumnId},
    (∀ cid ∈ cids, toSurreal (value cid) = toSurreal (value' cid)) →
    toSurrealList (cids.map value) = toSurrealList (cids.map value')
  | [], _ => rfl
  | cid :: cids, h => by
      rw [List.map_cons, List.map_cons, toSurrealList, toSurrealList, h cid List.mem_cons_self,
        toSurrealList_alike fun d hd => h d (List.mem_cons_of_mem cid hd)]

omit [Surql] in
/-- Keys of one encoding have one record id. -/
theorem keyId_alike {value value' : ColumnId → Value} {rid rid' : RecordId}
    (ht : KeyTyped table value) (ht' : KeyTyped table value')
    (halike : ∀ cid ∈ table.primaryKey, toSurreal (value cid) = toSurreal (value' cid))
    (h : keyId table value = .ok rid) (h' : keyId table value' = .ok rid') : rid = rid' := by
  rw [keyId, recordId] at h h'
  obtain ⟨k, hk, hrid⟩ := bind_eq_ok h
  obtain ⟨k', hk', hrid'⟩ := bind_eq_ok h'
  injection hrid with hrid; injection hrid' with hrid'; subst hrid hrid'
  congr 1
  cases hpk : table.primaryKey with
  | nil =>
      rw [hpk] at hk
      exact absurd hk (by simp [keyRecord, recordIdKey])
  | cons cid cids =>
      cases cids with
      | nil =>
          have hmem : cid ∈ table.primaryKey := by rw [hpk]; exact List.mem_singleton.mpr rfl
          rw [hpk] at hk hk'
          rw [List.map_cons, List.map_nil, keyRecord,
            recordIdKey_scalar (ht cid hmem).1.isRecord] at hk
          rw [List.map_cons, List.map_nil, keyRecord,
            recordIdKey_scalar (ht' cid hmem).1.isRecord] at hk'
          have hsame := halike cid hmem
          rw [scalarToKey_value hk, scalarToKey_value hk'] at hsame
          exact RecordIdKey.value_inj (Except.ok.inj hsame)
      | cons d ds =>
          have harity : ¬ table.primaryKey.length ≤ 1 := by rw [hpk]; simp
          have hrec : ∀ value : ColumnId → Value, keyRecord (table.primaryKey.map value) =
              .record (table.primaryKey.map value) := by
            intro value
            rw [hpk]
            rfl
          rw [hrec, recordIdKey_record harity] at hk hk'
          rw [toSurrealList_alike halike, hk'] at hk
          exact (Except.ok.inj hk).symm

omit [Surql] in
/-- The sort key of a record the driver left is the encoding of a typed value. -/
theorem KeyedBy.sortTyped (hs : KeyedBy table s) {rec : RecordId × Object} (hrec : rec ∈ s)
    (ht : rec.1.table = table.name) : SortTyped table rec := by
  intro c hc
  obtain ⟨value, htyped, hid⟩ := hs.keyed rec hrec ht
  obtain ⟨hmem, hkey, href⟩ := sortColumn_mem hc
  obtain ⟨hty, _⟩ := htyped c.id hkey
  rw [Table.column_id hmem] at hty
  refine ⟨value c.id, hty, ?_⟩
  rw [href]
  exact key_read hkey hty.isRecord hid

/-- **The last key column tells the records of a partition apart.** -/
theorem partition_inj {c : Column} (hc : sortColumn table = some c) (hsep : Separates c.ty)
    (hs : KeyedBy table s) (hfound : ∀ rec ∈ found, rec ∈ s ∧ rec.1.table = table.name)
    (hone : OnePartition table found) {a b : RecordId × Object} (ha : a ∈ found) (hb : b ∈ found)
    (hab : Surql.le (refValue a.1 a.2 (sortRef table)) (refValue b.1 b.2 (sortRef table)) = true)
    (hba : Surql.le (refValue b.1 b.2 (sortRef table)) (refValue a.1 a.2 (sortRef table)) = true) :
    a = b := by
  obtain ⟨hsa, hta⟩ := hfound a ha
  obtain ⟨hsb, htb⟩ := hfound b hb
  obtain ⟨value, htyped, hid⟩ := hs.keyed a hsa hta
  obtain ⟨value', htyped', hid'⟩ := hs.keyed b hsb htb
  -- the two agree on the last key column as well
  have hlast : refValue a.1 a.2 (sortRef table) = refValue b.1 b.2 (sortRef table) := by
    obtain ⟨v, hv, hva⟩ := hs.sortTyped hsa hta c hc
    obtain ⟨w, hw, hwb⟩ := hs.sortTyped hsb htb c hc
    exact hsep v w _ _ hv hw hva hwb hab hba
  have hreads : ∀ cid ∈ table.primaryKey, refValue a.1 a.2 (columnRef table (table.column cid)) =
      refValue b.1 b.2 (columnRef table (table.column cid)) := by
    intro cid hcid
    rw [sortRef, hc] at hlast
    obtain ⟨last, hgetLast, hcol⟩ := Option.map_eq_some_iff.mp hc
    obtain ⟨front, hfront⟩ := List.getLast?_eq_some_iff.mp hgetLast
    rw [hfront] at hcid
    rcases List.mem_append.mp hcid with hcid | hcid
    · refine hone a ha b hb cid ?_
      rw [hfront, List.dropLast_concat]
      exact hcid
    · rw [List.mem_singleton.mp hcid, hcol]
      exact hlast
  have hsame : a.1 = b.1 := by
    refine keyId_alike htyped htyped' (fun cid hcid => ?_) hid hid'
    rw [keyValue_read a.2 hid hcid (htyped cid hcid).1.isRecord,
      keyValue_read b.2 hid' hcid (htyped' cid hcid).1.isRecord, hreads cid hcid]
  exact List.inj_on_of_nodup_map hs.nodup hsa hsb hsame

/-! ## The pages -/

omit [Surql] in
/-- A rendered predicate and its parameters. -/
theorem queryPkPredicate_steady (h : queryPkPredicate table op = .ok (predicate, binds)) :
    Steady .empty binds predicate := by
  rw [queryPkPredicate] at h
  obtain ⟨⟨toks, b⟩, hfilter, h⟩ := bind_eq_ok h
  have hsteady : Steady .empty b toks := renderWithStorage_steady _ hfilter
  cases hop : op.filter with
  | none =>
      rw [hop] at h
      injection h with h; injection h with h1 h2; subst h1 h2
      exact hsteady
  | some filter =>
      rw [hop] at h
      obtain ⟨⟨extra, b'⟩, hextra, h⟩ := bind_eq_ok h
      injection h with h; injection h with h1 h2; subst h1 h2
      have hmore : Steady b b' extra := renderWithStorage_steady _ hextra
      exact ⟨hsteady.toGrows.trans hmore.toGrows, bound_append.mpr
        ⟨bound_parens (hsteady.bound.mono hmore.grows),
          (bound_cons rfl).mpr (bound_parens hmore.bound)⟩⟩

omit [Surql] in
/-- A request of a key query is a keyset select. -/
theorem queryPage_eq (hpred : queryPkPredicate table op = .ok (predicate, binds))
    (after : Option Value) :
    execQueryPk conn table (op.page n after) = runKeysetSelect conn (keysetPage table
      (op.select.map table.column) (some predicate) binds op.order n after) := by
  have hsame : queryPkPredicate table (op.page n after) = .ok (predicate, binds) := hpred
  rw [execQueryPk, hsame]
  rfl

omit [Sdk] in
theorem inOrder_iff (dir : Direction) (recs : Records) : InOrder table dir recs ↔
    recs.Pairwise fun a b => (directedReading (sortRef table) dir).le
      ((directedReading (sortRef table) dir).key a) ((directedReading (sortRef table) dir).key b) =
      true := by
  cases dir <;> rfl

variable [LawfulSdk] [SqlLess]

omit [Sdk] [LawfulSdk] [SqlLess] in
theorem matching_mem {rec : RecordId × Object} (h : rec ∈ matching table (some predicate) binds s) :
    rec ∈ s ∧ rec.1.table = table.name := by
  obtain ⟨hmem, hkeep⟩ := List.mem_filter.mp h
  rw [Bool.and_eq_true, beq_iff_eq] at hkeep
  exact ⟨hmem, hkeep.1⟩

/-- **The requests read the partition in order**: page after page of the one arrangement of
its records that is in order. -/
theorem partition_pages {c : Column} (hc : sortColumn table = some c) (hn : 0 < n)
    (hpred : queryPkPredicate table op = .ok (predicate, binds)) (hs : KeyedBy table s)
    (hsep : Separates c.ty) (hone : OnePartition table (matching table (some predicate) binds s)) :
    ∃ ps : List Records,
      (∀ out, Followed (fun after => execQueryPk conn table (op.page n after)) s none out ↔
        out = listPages table (op.select.map table.column)
        (some (sortRef table, op.order.getD .asc)) ps) ∧
      ps.flatten.Perm (matching table (some predicate) binds s) ∧
      InOrder table (op.order.getD .asc) ps.flatten ∧
      ∀ recs, recs.Perm (matching table (some predicate) binds s) →
        InOrder table (op.order.getD .asc) recs → recs = ps.flatten := by
  have hsteady := queryPkPredicate_steady hpred
  have hnodup : (matching table (some predicate) binds s).Nodup :=
    (List.Nodup.of_map _ hs.nodup).filter _
  simp only [inOrder_iff, queryPage_eq hpred]
  generalize hR : directedReading (sortRef table) (op.order.getD .asc) = R
  -- inside a partition no two records have one sort key
  have hinj : ∀ a ∈ matching table (some predicate) binds s, ∀ b ∈
      matching table (some predicate) binds s,
      R.le (R.key a) (R.key b) = true → R.le (R.key b) (R.key a) = true → a = b := by
    intro a ha b hb hab hba
    subst hR
    have hboth := fun h h' => partition_inj hc hsep hs (fun _ => matching_mem) hone ha hb h h'
    cases hdir : op.order.getD .asc with
    | asc => rw [hdir] at hab hba; exact hboth hab hba
    | desc => rw [hdir] at hab hba; exact hboth hba hab
  obtain ⟨ps, hps⟩ :=
    Keyset.Reading.exists_pages (R := R) hn (matching table (some predicate) binds s)
  have hperm := Keyset.Reading.pages_perm hps (Keyset.Reading.noTieAcross_of_injective hnodup hinj)
  have hsorted := Keyset.Reading.pages_sorted hps
  have hstart : StartsAt R (matching table (some predicate) binds s) none
      (matching table (some predicate) binds s) := rfl
  refine ⟨ps, fun out => ?_, hperm, hsorted, fun recs hrecs horder => ?_⟩
  · refine followed_pages hn hc (hsteady.numbered Binds.numbered_empty) (fun toks htoks => ?_)
      (resumeFollows _ _) hR hps hstart (fun rec hrec => ?_) out
    · rw [List.mem_singleton.mp htoks]
      exact hsteady.bound
    · exact hs.sortTyped (matching_mem hrec).1 (matching_mem hrec).2
  · refine List.Perm.eq_of_pairwise (fun a b ha hb => ?_) horder hsorted (hrecs.trans hperm.symm)
    exact hinj a (hrecs.subset ha) b (hperm.subset hb)

omit [LawfulSdk] [SqlLess] in
/-- No record the driver left is of a table without a key column. -/
theorem KeyedBy.unkeyed (hs : KeyedBy table s) (hc : sortColumn table = none) :
    matching table (some predicate) binds s = [] := by
  refine List.eq_nil_iff_forall_not_mem.mpr fun rec hrec => ?_
  obtain ⟨value, _, hid⟩ := hs.keyed rec (matching_mem hrec).1 (matching_mem hrec).2
  have hpk : table.primaryKey = [] := by
    rw [sortColumn, Option.map_eq_none_iff] at hc
    exact List.getLast?_eq_none_iff.mp hc
  rw [keyId, recordId, hpk] at hid
  obtain ⟨_, hkey, _⟩ := bind_eq_ok hid
  exact absurd hkey (by simp [keyRecord, recordIdKey])

omit [Surql] [Sdk] [LawfulSdk] [SqlLess] in
/-- The columns a query selects are the table's. -/
theorem selected_mem (hselect : ∀ cid ∈ op.select, cid ∈ table.columns.map Column.id) :
    ∀ c ∈ op.select.map table.column, c ∈ table.columns := by
  intro c hc
  obtain ⟨cid, hcid, rfl⟩ := List.mem_map.mp hc
  exact (Table.column_mem (hselect cid hcid)).1

variable (hn : 0 < n) (hselect : ∀ cid ∈ op.select, cid ∈ table.columns.map Column.id)
  (hpred : queryPkPredicate table op = .ok (predicate, binds)) (hs : KeyedBy table s)
  (hsep : ∀ c, sortColumn table = some c → Separates c.ty)
  (hone : OnePartition table (matching table (some predicate) binds s))

include hn hselect hpred hs hsep hone

/-- What is visited is legible: the pages are the rows of the one arrangement in order, so
each record is listed as its own row decodes. -/
theorem legible_of_visited
    (h : VisitedOnce conn table op n s (matching table (some predicate) binds s)) :
    ∀ rec ∈ matching table (some predicate) binds s,
    Legible table (op.select.map table.column) rec := by
  intro rec hrec
  cases hc : sortColumn table with
  | none =>
      rw [hs.unkeyed hc] at hrec
      exact absurd hrec List.not_mem_nil
  | some c =>
      obtain ⟨pages, recs, hpages, hrecs, horder, hlisted⟩ := h
      obtain ⟨ps, hiff, hperm, _, hunique⟩ := partition_pages hc hn hpred hs (hsep c hc) hone
      have hlist := ((hiff _).mp ((hpages _).mpr rfl)).symm
      have hrows := List.rel_flatten (listPages_ok.mp hlist)
      rw [hunique recs hrecs horder] at hlisted
      exact (legible_iff (op.order.getD .asc) (selected_mem hselect)).mpr
        (forall₂_both hrows hlisted (hperm.symm.subset hrec))

/-- What is legible is visited. -/
theorem visited_of_legible
    (h : ∀ rec ∈ matching table (some predicate) binds s,
      Legible table (op.select.map table.column) rec) :
    VisitedOnce conn table op n s (matching table (some predicate) binds s) := by
  cases hc : sortColumn table with
  | none =>
      have hnone : matching table (some predicate) binds s = [] := hs.unkeyed hc
      refine ⟨[[]], [], fun out => ?_, by rw [hnone], ?_, .nil⟩
      · simp only [queryPage_eq hpred]
        rw [followed_single hc, hnone, List.take_nil]
        rfl
      · exact (inOrder_iff _ _).mpr .nil
  | some c =>
      obtain ⟨ps, hiff, hperm, horder, _⟩ := partition_pages hc hn hpred hs (hsep c hc) hone
      obtain ⟨pages, hpages⟩ := exists_forall₂ fun page hpage => exists_forall₂ fun rec hrec =>
        (legible_iff (op.order.getD .asc) (selected_mem hselect)).mp
          (h rec (hperm.subset (List.mem_flatten.mpr ⟨page, hpage, hrec⟩)))
      refine ⟨pages, ps.flatten, fun out => ?_, hperm, horder, ?_⟩
      · have hlist := listPages_ok.mpr
          (hpages.imp fun _ _ hpage => hpage.imp fun _ _ hrec => hrec.1)
        rw [hiff, hlist]
      · exact (List.rel_flatten hpages).imp fun _ _ hrec => hrec.2

/-- **When a partition is visited.** A key query of a partition, by cursor, in any direction
and by pages of any size, visits every record it selects once and in the order of the last
key column, exactly when every selected record is legible. -/
theorem partition_visited_iff :
    VisitedOnce conn table op n s (matching table (some predicate) binds s) ↔
      ∀ rec ∈ matching table (some predicate) binds s,
      Legible table (op.select.map table.column) rec :=
  ⟨legible_of_visited hn hselect hpred hs hsep hone,
    visited_of_legible hn hselect hpred hs hsep hone⟩

end KeyQuery

/-! ## A store that compares -/

namespace Plain

/-- Comparisons of a column with a value; other predicates are taken to hold. -/
def orders (toks : List (Precedence.Tok Operand Op Bracket Closer)) (rid : RecordId) (o : Object) :
    Bool :=
  match toks with
  | [.atom (.ref r []), .op .gt, .atom (.value v)] => !placeLe (refValue rid o r) v
  | [.atom (.ref r []), .op .lt, .atom (.value v)] => !placeLe v (refValue rid o r)
  | [.atom (.ref r []), .op .eq, .atom (.value v)] => decide (place (refValue rid o r) = place v)
  | _ => true

def sortByPlace (key : RecordId × Object → SurValue) (records : Records) : Records :=
  records.insertionSort fun a b => place (key a) ≤ place (key b)

theorem sortByPlace_sorted (key : RecordId × Object → SurValue) (records : Records) :
    (sortByPlace key records).Pairwise fun a b => placeLe (key a) (key b) = true := by
  have htotal : Std.Total fun a b : RecordId × Object => place (key a) ≤ place (key b) :=
    ⟨fun a b => Int.le_total _ _⟩
  have htrans : IsTrans (RecordId × Object) fun a b => place (key a) ≤ place (key b) :=
    ⟨fun a b c hab hbc => Int.le_trans hab hbc⟩
  exact (List.pairwise_insertionSort _ records).imp fun {a b} h => decide_eq_true h

end Plain

/-- Computations on values in their order. -/
@[reducible] def orderedSurql : Surql where
  le := Plain.placeLe
  le_total := Plain.placeLe_total
  le_trans := Plain.placeLe_trans
  holds := Plain.orders
  holds_gt _ _ _ _ := rfl
  sortBy := Plain.sortByPlace
  sortBy_perm _ records := List.perm_insertionSort _ records
  sortBy_sorted := Plain.sortByPlace_sorted
  add := Plain.arith (· + ·)
  sub := Plain.arith (· - ·)
  concat := Plain.concat

theorem orderedSurql_less : @SqlLess orderedSurql :=
  let := orderedSurql
  { holds_lt := fun _ _ _ _ => rfl }

theorem orderedSurql_separates : @Separates orderedSurql plain .i64 := by
  intro v w a b hv hw ha hb hab hba
  have hplace : Plain.place a = Plain.place b :=
    Int.le_antisymm (of_decide_eq_true hab) (of_decide_eq_true hba)
  cases hv with
  | null =>
      injection ha with ha; subst ha
      cases hw with
      | null => injection hb
      | i64 w =>
          injection hb with hb; subst hb
          have hw : -2 ^ 63 ≤ w.toInt := Int64.le_toInt w
          simp only [Plain.place] at hplace
          omega
  | i64 v =>
      injection ha with ha; subst ha
      cases hw with
      | null =>
          injection hb with hb; subst hb
          have hv : -2 ^ 63 ≤ v.toInt := Int64.le_toInt v
          simp only [Plain.place] at hplace
          omega
      | i64 w =>
          injection hb with hb; subst hb
          simp only [Plain.place] at hplace
          have hsame : v = w := Int64.toInt_inj.mp (by omega)
          rw [hsame]

/-! ## Two queries -/

/-- An entry of a list. -/
def placedEntry (list position : Int64) : RecordId × Object :=
  (⟨"entries", .array [.number (.int list), .number (.int position)]⟩, [])

/-- The entries of the first list, backwards. -/
def firstList : QueryPk where
  select := [⟨0, 0⟩, ⟨0, 1⟩]
  pkFilter := .binaryOp .eq (.reference ⟨⟨0, 0⟩, "list", .i64, .integer 8⟩) (.value (.i64 1))
  filter := none
  order := some .desc
  limit := none

theorem placedEntries_keyed : let := plain
    KeyedBy entries [placedEntry 1 2, placedEntry 2 1, placedEntry 1 3, placedEntry 1 1] := by
  intro _
  refine ⟨by decide, fun rec hrec _ => ?_⟩
  have hkeyed : ∀ list position : Int64, ∃ value, KeyTyped entries value ∧
      keyId entries value = .ok (placedEntry list position).1 := by
    intro list position
    refine ⟨fun cid => if cid.index = 0 then .i64 list else .i64 position, fun cid hcid => ?_, rfl⟩
    rcases List.mem_cons.mp hcid with rfl | hcid
    · exact ⟨.i64 list, rfl⟩
    · rw [List.mem_singleton.mp hcid]; exact ⟨.i64 position, rfl⟩
  simp only [List.mem_cons, List.not_mem_nil, or_false] at hrec
  rcases hrec with rfl | rfl | rfl | rfl <;> exact hkeyed _ _

/-- The first list's three entries, read backwards by pages of two. -/
theorem first_list_visited : let := plain
    let := orderedSurql
    VisitedOnce .new entries firstList 2
      [placedEntry 1 2, placedEntry 2 1, placedEntry 1 3, placedEntry 1 1]
      [placedEntry 1 2, placedEntry 1 3, placedEntry 1 1] := by
  intro _ _
  let := plain_lawful
  let := orderedSurql_less
  have hpred : queryPkPredicate entries firstList =
      .ok ([.atom (.ref (.keyElem 0) []), .op .eq, .atom (.param "p0")],
        ⟨[("p0", .number (.int 1))]⟩) := rfl
  have hfound : matching entries (some [.atom (.ref (.keyElem 0) []), .op .eq, .atom (.param "p0")])
      ⟨[("p0", .number (.int 1))]⟩
      [placedEntry 1 2, placedEntry 2 1, placedEntry 1 3, placedEntry 1 1] =
        [placedEntry 1 2, placedEntry 1 3, placedEntry 1 1] := rfl
  rw [← hfound]
  refine (partition_visited_iff Nat.two_pos (by decide) hpred placedEntries_keyed ?_ ?_).mpr ?_
  · intro c hc
    injection hc with hc; subst hc
    exact orderedSurql_separates
  · have hlist : ∀ rec ∈ [placedEntry 1 2, placedEntry 1 3, placedEntry 1 1], ∀ cid ∈
        entries.primaryKey.dropLast, refValue rec.1 rec.2 (columnRef entries (entries.column cid)) =
          .number (.int 1) := by
      intro rec hrec cid hcid
      rw [List.mem_singleton.mp hcid]
      simp only [List.mem_cons, List.not_mem_nil, or_false] at hrec
      rcases hrec with rfl | rfl | rfl <;> rfl
    rw [hfound]
    intro a ha b hb cid hcid
    rw [hlist a ha cid hcid, hlist b hb cid hcid]
  · have hkeys : ∀ list position : Int64, Legible entries (firstList.select.map entries.column)
        (placedEntry list position) := by
      intro list position c hc
      rcases List.mem_cons.mp hc with rfl | hc
      · exact ⟨.i64 list, rfl, fun h => absurd h (by decide)⟩
      · rw [List.mem_singleton.mp hc]
        exact ⟨.i64 position, rfl, fun h => absurd h (by decide)⟩
    rw [hfound]
    intro rec hrec
    simp only [List.mem_cons, List.not_mem_nil, or_false] at hrec
    rcases hrec with rfl | rfl | rfl <;> exact hkeys _ _

/-- A table with an ordinary column called `id`. -/
def labels : Table where
  id := 0
  name := "labels"
  columns := [⟨⟨0, 0⟩, "key", .i64, .integer 8⟩, ⟨⟨0, 1⟩, "id", .string, .text⟩]
  primaryKey := [⟨0, 0⟩]
  indices := []

def labelQuery : QueryPk where
  select := [⟨0, 0⟩, ⟨0, 1⟩]
  pkFilter := .binaryOp .eq (.reference ⟨⟨0, 0⟩, "key", .i64, .integer 8⟩) (.value (.i64 1))
  filter := none
  order := none
  limit := none

/-- The row of key 1, its `id` null: the column reads the record id, which is no string, and
the query fails. -/
theorem label_unlisted : let := plain
    let := orderedSurql
    ¬ ∀ (table : Table) (op : QueryPk) (predicate : List Token) (binds : Binds) (n : Nat)
    (s : Records),
      0 < n → (∀ cid ∈ op.select, cid ∈ table.columns.map Column.id) →
      queryPkPredicate table op = .ok (predicate, binds) → KeyedBy table s →
      (∀ c, sortColumn table = some c → Separates c.ty) →
      OnePartition table (matching table (some predicate) binds s) →
      VisitedOnce .new table op n s (matching table (some predicate) binds s) := by
  intro _ _ h
  let := plain_lawful
  let := orderedSurql_less
  have hpred : queryPkPredicate labels labelQuery =
      .ok ([.atom (.ref .key []), .op .eq, .atom (.param "p0")], ⟨[("p0", .number (.int 1))]⟩) :=
      rfl
  have hfound : matching labels (some [.atom (.ref .key []), .op .eq, .atom (.param "p0")])
      ⟨[("p0", .number (.int 1))]⟩ [(⟨"labels", .number 1⟩, [])] = [(⟨"labels", .number 1⟩, [])] :=
      rfl
  have hkeyed : KeyedBy labels [(⟨"labels", .number 1⟩, [])] := by
    refine ⟨by decide, fun rec hrec _ => ⟨fun _ => .i64 1, fun cid hcid => ?_, ?_⟩⟩
    · rw [List.mem_singleton.mp hcid]; exact ⟨.i64 1, rfl⟩
    · rw [List.mem_singleton.mp hrec]; rfl
  have hsep : ∀ c, sortColumn labels = some c → Separates c.ty := by
    intro c hc
    injection hc with hc; subst hc
    exact orderedSurql_separates
  have hone : OnePartition labels
      (matching labels (some [.atom (.ref .key []), .op .eq, .atom (.param "p0")])
      ⟨[("p0", .number (.int 1))]⟩ [(⟨"labels", .number 1⟩, [])]) :=
    fun _ _ _ _ cid hcid => absurd hcid List.not_mem_nil
  have hvisited := h labels labelQuery _ _ 1 _ Nat.one_pos (by decide) hpred hkeyed hsep hone
  have hlegible := legible_of_visited Nat.one_pos (by decide) hpred hkeyed hsep hone hvisited
  rw [hfound] at hlegible
  obtain ⟨w, hw, _⟩ :=
    hlegible _ (List.mem_singleton.mpr rfl) _ (List.mem_cons_of_mem _ List.mem_cons_self)
  cases hw

end ToastySurreal
