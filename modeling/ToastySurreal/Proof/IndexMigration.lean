import ToastySurreal.Proof.DataMigration
import ToastySurreal.Lib.Catalog
import ToastySurreal.Lib.Lists

/-!
# What a generated migration does to the indices

Index statements come from two places: the index diff, and the pass over the
renamed columns, which rebuilds indices the diff reports as unchanged because the
database stores field names in them. Deduplication merges the two. The migration
turns the catalog of the previous table into the catalog of the next one; an
instance of `Catalog.rebuild`, once it is known which entries are left standing.
-/

namespace ToastySurreal

open Lists

/-! ## The index catalog -/

/-- What the database stores of an index. -/
structure IndexDef where
  columns : List String
  unique : Bool
  deriving DecidableEq, Repr

/-- The defined indices, by table and index name. -/
abbrev IndexCatalog := String × String → Option IndexDef

/-- What a statement does to the catalog; `none` when the database refuses it. -/
def Statement.runCatalog (s : Statement) (c : IndexCatalog) : Option IndexCatalog :=
  match s with
  | .removeTable table => some fun k => if k.1 = table then none else c k
  | .defineIndex index table columns unique ifNotExists =>
      if ifNotExists ∧ (c (table, index)).isSome then some c
      else Catalog.define (table, index) ⟨columns, unique⟩ c
  | .removeIndex index table => Catalog.remove (table, index) c
  | _ => some c

/-- A list of statements, run in order; the first refusal stops it. -/
def runCatalog : List Statement → IndexCatalog → Option IndexCatalog
  | [], c => some c
  | s :: ss, c => (s.runCatalog c).bind (runCatalog ss)

theorem runCatalog_append : ∀ (ss ts : List Statement) (c : IndexCatalog),
    runCatalog (ss ++ ts) c = (runCatalog ss c).bind (runCatalog ts)
  | [], _, _ => rfl
  | s :: ss, ts, c => by
      simp only [List.cons_append, runCatalog]
      cases s.runCatalog c with
      | none => rfl
      | some c' => simp [runCatalog_append ss ts c']

/-- Statements that are not about indices leave the catalog alone. -/
theorem runCatalog_frame : ∀ {ss : List Statement} {c : IndexCatalog},
    (∀ s ∈ ss, ∀ c, s.runCatalog c = some c) → runCatalog ss c = some c
  | [], _, _ => rfl
  | s :: ss, c, h => by
      rw [runCatalog, h s (List.mem_cons_self ..), Option.bind_some]
      exact runCatalog_frame fun t ht => h t (List.mem_cons_of_mem _ ht)

/-- The indices a table defines; the primary key's is the record id's. -/
def Table.secondary (t : Table) : List Index := t.indices.filter fun ix => !ix.primaryKey

/-- The field names an index lists. -/
def Table.indexFields (t : Table) (ix : Index) : List String :=
  ix.columns.map fun cid => (t.column cid).name

/-- The catalog entry of an index. -/
def Table.indexEntry (t : Table) (ix : Index) : (String × String) × IndexDef :=
  ((t.name, ix.name), ⟨t.indexFields ix, ix.unique⟩)

theorem mem_secondary {t : Table} {ix : Index} :
    ix ∈ t.secondary ↔ ix ∈ t.indices ∧ ix.primaryKey = false := by
  simp [Table.secondary]

theorem secondary_eq_of_name {t : Table} {ix jx : Index} (hi : ix ∈ t.secondary)
    (hj : jx ∈ t.secondary) (h : ix.name = jx.name) : ix = jx :=
  List.inj_on_of_nodup_map t.index_names hi hj h

theorem nodup_entries {t : Table} {ixs : List Index} (hs : ∀ ix ∈ ixs, ix ∈ t.secondary)
    (hn : ixs.Nodup) : ((ixs.map t.indexEntry).map Prod.fst).Nodup := by
  rw [List.map_map]
  refine hn.map_on fun ix hi jx hj h => secondary_eq_of_name (hs ix hi) (hs jx hj) ?_
  exact (Prod.mk.inj h).2

theorem secondary_nodup (t : Table) : t.secondary.Nodup := List.Nodup.of_map _ t.index_names

theorem runCatalog_removals (t : Table) : ∀ (ixs : List Index) (c : IndexCatalog),
    runCatalog (ixs.map (removeIndexStatement t)) c =
      Catalog.removeAll (ixs.map fun ix => (t.name, ix.name)) c
  | [], _ => rfl
  | ix :: ixs, c => by
      simp only [List.map_cons, runCatalog, Catalog.removeAll]
      congr 1
      funext c'
      exact runCatalog_removals t ixs c'

theorem runCatalog_definitions (t : Table) : ∀ (ixs : List Index) (c : IndexCatalog),
    runCatalog (ixs.map fun ix => defineIndexStatement t ix false) c =
      Catalog.defineAll (ixs.map t.indexEntry) c
  | [], _ => rfl
  | ix :: ixs, c => by
      have hone : (defineIndexStatement t ix false).runCatalog c =
          Catalog.define (t.name, ix.name) ⟨t.indexFields ix, ix.unique⟩ c := by
        simp [defineIndexStatement, Statement.runCatalog, Table.indexFields]
      simp only [List.map_cons, runCatalog, hone, Catalog.defineAll, Table.indexEntry]
      congr 1
      funext c'
      exact runCatalog_definitions t ixs c'

/-- Where nothing is defined yet, `IF NOT EXISTS` makes no difference. -/
theorem runCatalog_fresh (t : Table) (b : Bool) : ∀ {ixs : List Index} {c : IndexCatalog},
    ((ixs.map t.indexEntry).map Prod.fst).Nodup → (∀ ix ∈ ixs, c (t.name, ix.name) = none) →
    runCatalog (ixs.map fun ix => defineIndexStatement t ix b) c =
      Catalog.defineAll (ixs.map t.indexEntry) c
  | [], _, _, _ => rfl
  | ix :: ixs, c, hn, hc => by
      have hfree : c (t.name, ix.name) = none := hc ix (List.mem_cons_self ..)
      have hone : (defineIndexStatement t ix b).runCatalog c =
          Catalog.define (t.name, ix.name) ⟨t.indexFields ix, ix.unique⟩ c := by
        simp [defineIndexStatement, Statement.runCatalog, Table.indexFields, hfree]
      obtain ⟨hix, hixs⟩ := List.nodup_cons.mp hn
      simp only [List.map_cons, runCatalog, hone, Catalog.defineAll, Table.indexEntry,
        Catalog.define, hfree, Option.isSome_none, if_neg Bool.false_ne_true, Option.bind_some]
      refine runCatalog_fresh t b hixs fun jx hj => ?_
      have hne : (t.name, jx.name) ≠ (t.name, ix.name) := by
        intro he
        exact hix (List.mem_map.mpr ⟨_, List.mem_map_of_mem hj, he⟩)
      rw [Function.update_of_ne hne]
      exact hc jx (List.mem_cons_of_mem _ hj)

/-- The catalog a table's definition creates on an empty database. -/
theorem runCatalog_defineTable (t : Table) (b : Bool) :
    runCatalog (defineTableStatements t b) (fun _ => none) =
      some (Catalog.ofList (t.secondary.map t.indexEntry)) := by
  have hn := nodup_entries (fun _ h => h) (secondary_nodup t)
  have hrun := runCatalog_fresh t b (c := fun _ => none) hn (fun _ _ => rfl)
  rw [Catalog.defineAll_ofList hn] at hrun
  simpa [defineTableStatements, runCatalog, Statement.runCatalog, Table.secondary] using hrun

/-! ## Index diffs -/

/-- Two indices are the same up to the column mapping. -/
structure SameIndex (previous next : Table) (columns : List ColumnDiff) (ix jx : Index) : Prop where
  name_eq : ix.name = jx.name
  unique_eq : ix.unique = jx.unique
  key_eq : ix.primaryKey = jx.primaryKey
  columns_map : List.Forall₂
    (fun cid cid' => Image next columns (previous.column cid) (next.column cid')) ix.columns
    jx.columns

/-- A list of index changes between two tables, for a matching of their indices:
what has no counterpart is dropped or created, a matched pair is altered unless it
is the same up to the column mapping. -/
structure IsIndexDiff (previous next : Table) (columns : List ColumnDiff) (indices : List IndexDiff)
    (Matched : Index → Index → Prop) : Prop where
  matched_mem : ∀ ix jx, Matched ix jx → ix ∈ previous.indices ∧ jx ∈ next.indices
  matched_fun : ∀ ix jx kx, Matched ix jx → Matched ix kx → jx = kx
  matched_inj : ∀ ix kx jx, Matched ix jx → Matched kx jx → ix = kx
  create_iff : ∀ jx, IndexDiff.create jx ∈ indices ↔ jx ∈ next.indices ∧ ∀ ix, ¬ Matched ix jx
  drop_iff : ∀ ix, IndexDiff.drop ix ∈ indices ↔ ix ∈ previous.indices ∧ ∀ jx, ¬ Matched ix jx
  alter_iff : ∀ ix jx, IndexDiff.alter ix jx ∈ indices ↔
    Matched ix jx ∧ ¬ SameIndex previous next columns ix jx

/-- Secondary indices list stored columns. -/
def StoredIndices (t : Table) : Prop :=
  ∀ ix ∈ t.secondary, ∀ cid ∈ ix.columns, isPrimaryKey t (t.column cid) = false

variable {previous next : Table} {columns : List ColumnDiff} {indices : List IndexDiff}
  {Matched : Index → Index → Prop}

/-- A previous index lists a column that is renamed. -/
def Touched (previous next : Table) (columns : List ColumnDiff) (ix : Index) : Prop :=
  ∃ r ∈ renamedColumns previous next columns, r.1.id ∈ ix.columns

/-- A next index lists a column that has been renamed. -/
def Touching (previous next : Table) (columns : List ColumnDiff) (jx : Index) : Prop :=
  ∃ r ∈ renamedColumns previous next columns, r.2.id ∈ jx.columns

theorem mem_renamedColumns {r : Column × Column} : r ∈ renamedColumns previous next columns ↔
    ColumnDiff.alter r.1 r.2 ∈ columns ∧ r.1.name ≠ r.2.name ∧ isPrimaryKey previous r.1 = false ∧
      isPrimaryKey next r.2 = false := by
  unfold renamedColumns
  rw [List.mem_flatMap]
  constructor
  · rintro ⟨d, hd, hr⟩
    cases d with
    | add c => simp [renameOf] at hr
    | drop c => simp [renameOf] at hr
    | alter p n =>
        simp only [renameOf] at hr
        split at hr
        · rename_i hcond
          obtain rfl := List.mem_singleton.mp hr
          exact ⟨hd, hcond.1, by simpa using hcond.2.1, by simpa using hcond.2.2⟩
        · exact absurd hr List.not_mem_nil
  · rintro ⟨hd, hne, hp, hn⟩
    exact ⟨_, hd, by simp [renameOf, hne, hp, hn]⟩

theorem mem_indicesOn {t : Table} {c : Column} {ix : Index} :
    ix ∈ indicesOn t c ↔ ix ∈ t.secondary ∧ c.id ∈ ix.columns := by
  simp [indicesOn, mem_secondary, and_assoc]

/-- A previous index is removed when the diff says so or a column of it is renamed. -/
def Removed (previous next : Table) (columns : List ColumnDiff) (indices : List IndexDiff)
    (ix : Index) : Prop :=
  IndexDiff.drop ix ∈ indices ∨ (∃ jx, IndexDiff.alter ix jx ∈ indices) ∨
    Touched previous next columns ix

/-- A next index is defined when the diff says so or a column of it was renamed. -/
def Defined (previous next : Table) (columns : List ColumnDiff) (indices : List IndexDiff)
    (jx : Index) : Prop :=
  IndexDiff.create jx ∈ indices ∨ (∃ ix, IndexDiff.alter ix jx ∈ indices) ∨
    Touching previous next columns jx

theorem mem_allRemovals (hx : IsIndexDiff previous next columns indices Matched) {s : Statement} :
    s ∈ allRemovals previous next columns indices ↔
      ∃ ix ∈ previous.secondary, Removed previous next columns indices ix ∧
        s = removeIndexStatement previous ix := by
  unfold allRemovals
  rw [List.mem_append, List.mem_flatMap, List.mem_flatMap]
  constructor
  · rintro (⟨d, hd, hs⟩ | ⟨r, hr, hs⟩)
    -- a removal comes from a dropped or altered index, unless it is the primary key
    · cases d with
      | create jx => simp [removalsOf] at hs
      | drop ix =>
          simp only [removalsOf] at hs
          split at hs
          · exact absurd hs List.not_mem_nil
          · rename_i hk
            exact ⟨ix, mem_secondary.mpr ⟨((hx.drop_iff ix).mp hd).1, by simpa using hk⟩,
              Or.inl hd, List.mem_singleton.mp hs⟩
      | alter ix jx =>
          simp only [removalsOf] at hs
          split at hs
          · exact absurd hs List.not_mem_nil
          · rename_i hk
            have hm := (hx.matched_mem ix jx ((hx.alter_iff ix jx).mp hd).1).1
            exact ⟨ix, mem_secondary.mpr ⟨hm, by simpa using hk⟩, Or.inr (Or.inl ⟨jx, hd⟩),
              List.mem_singleton.mp hs⟩
    -- or from a renamed column of the index
    · obtain ⟨ix, hix, rfl⟩ := List.mem_map.mp hs
      obtain ⟨hsec, hcol⟩ := mem_indicesOn.mp hix
      exact ⟨ix, hsec, Or.inr (Or.inr ⟨r, hr, hcol⟩), rfl⟩
  · rintro ⟨ix, hsec, hrem, rfl⟩
    have hk := (mem_secondary.mp hsec).2
    rcases hrem with h | ⟨jx, h⟩ | ⟨r, hr, hcol⟩
    · exact Or.inl ⟨_, h, by simp [removalsOf, hk]⟩
    · exact Or.inl ⟨_, h, by simp [removalsOf, hk]⟩
    · exact Or.inr ⟨r, hr, List.mem_map.mpr ⟨ix, mem_indicesOn.mpr ⟨hsec, hcol⟩, rfl⟩⟩

theorem mem_allDefinitions (hx : IsIndexDiff previous next columns indices Matched)
    {s : Statement} : s ∈ allDefinitions previous next columns indices ↔
      ∃ jx ∈ next.secondary, Defined previous next columns indices jx ∧
        s = defineIndexStatement next jx false := by
  unfold allDefinitions
  rw [List.mem_append, List.mem_flatMap, List.mem_flatMap]
  constructor
  · rintro (⟨d, hd, hs⟩ | ⟨r, hr, hs⟩)
    · cases d with
      | drop ix => simp [definitionsOf] at hs
      | create jx =>
          simp only [definitionsOf] at hs
          split at hs
          · exact absurd hs List.not_mem_nil
          · rename_i hk
            exact ⟨jx, mem_secondary.mpr ⟨((hx.create_iff jx).mp hd).1, by simpa using hk⟩,
              Or.inl hd, List.mem_singleton.mp hs⟩
      | alter ix jx =>
          simp only [definitionsOf] at hs
          split at hs
          · exact absurd hs List.not_mem_nil
          · rename_i hk
            have hm := (hx.matched_mem ix jx ((hx.alter_iff ix jx).mp hd).1).2
            exact ⟨jx, mem_secondary.mpr ⟨hm, by simpa using hk⟩, Or.inr (Or.inl ⟨ix, hd⟩),
              List.mem_singleton.mp hs⟩
    · obtain ⟨jx, hjx, rfl⟩ := List.mem_map.mp hs
      obtain ⟨hsec, hcol⟩ := mem_indicesOn.mp hjx
      exact ⟨jx, hsec, Or.inr (Or.inr ⟨r, hr, hcol⟩), rfl⟩
  · rintro ⟨jx, hsec, hdef, rfl⟩
    have hk := (mem_secondary.mp hsec).2
    rcases hdef with h | ⟨ix, h⟩ | ⟨r, hr, hcol⟩
    · exact Or.inl ⟨_, h, by simp [definitionsOf, hk]⟩
    · exact Or.inl ⟨_, h, by simp [definitionsOf, hk]⟩
    · exact Or.inr ⟨r, hr, List.mem_map.mpr ⟨jx, mem_indicesOn.mpr ⟨hsec, hcol⟩, rfl⟩⟩

/-! ## Which indices are left standing -/

/-- An unchanged pair lists a renamed column on both sides or on neither. -/
theorem touched_iff (hd : IsColumnDiff previous next columns) {ix jx : Index}
    (hi : ix ∈ previous.indices) (hj : jx ∈ next.indices)
    (hs : SameIndex previous next columns ix jx) :
    Touched previous next columns ix ↔ Touching previous next columns jx := by
  constructor
  · rintro ⟨r, hr, hcol⟩
    have halt := (mem_renamedColumns.mp hr).1
    obtain ⟨hp, hn⟩ := hd.alter_mem _ _ halt
    obtain ⟨cid, hcid, himg⟩ := forall₂_mem_left hs.columns_map hcol
    rw [Table.column_id hp] at himg
    have hsame : next.column cid = r.2 := by
      rcases himg with h | ⟨hun, _⟩
      · have hone := hd.unique h halt (p := r.1) rfl rfl
        exact (ColumnDiff.alter.inj hone).2
      · exact absurd rfl (hun _ halt)
    have hid := (Table.column_mem (next.index_ids jx hj cid hcid)).2
    rw [hsame] at hid
    exact ⟨r, hr, hid ▸ hcid⟩
  · rintro ⟨r, hr, hcol⟩
    have halt := (mem_renamedColumns.mp hr).1
    obtain ⟨hp, hn⟩ := hd.alter_mem _ _ halt
    obtain ⟨cid, hcid, himg⟩ := forall₂_mem_right hs.columns_map hcol
    rw [Table.column_id hn] at himg
    obtain ⟨hmem, hid⟩ := Table.column_mem (previous.index_ids ix hi cid hcid)
    have hsame := hd.image_inj _ hmem _ hp r.2 himg (image_of_alter halt)
    rw [hsame] at hid
    exact ⟨r, hr, hid ▸ hcid⟩

/-- Without a renamed column, an unchanged pair lists the same fields. -/
theorem same_fields {ix jx : Index} (hi : ix ∈ previous.indices)
    (hip : ∀ cid ∈ ix.columns, isPrimaryKey previous (previous.column cid) = false)
    (hjp : ∀ cid ∈ jx.columns, isPrimaryKey next (next.column cid) = false)
    (hs : SameIndex previous next columns ix jx) (hno : ¬ Touched previous next columns ix) :
    previous.indexFields ix = next.indexFields jx := by
  have hall : List.Forall₂ (fun cid cid' => (previous.column cid).name = (next.column cid').name)
      ix.columns jx.columns := by
    refine forall₂_imp_mem hs.columns_map fun cid hcid cid' hcid' himg => ?_
    rcases himg with halt | ⟨_, _, hname⟩
    · by_contra hne
      have hid := (Table.column_mem (previous.index_ids ix hi cid hcid)).2
      exact hno ⟨(previous.column cid, next.column cid'), mem_renamedColumns.mpr
        ⟨halt, hne, hip cid hcid, hjp cid' hcid'⟩, hid.symm ▸ hcid⟩
    · exact hname.symm
  unfold Table.indexFields
  rw [← List.forall₂_eq_eq_eq, List.forall₂_map_left_iff, List.forall₂_map_right_iff]
  exact hall

theorem same_entry (hname : previous.name = next.name) (hp : StoredIndices previous)
    (hn : StoredIndices next) {ix jx : Index} (hi : ix ∈ previous.secondary)
    (hj : jx ∈ next.secondary) (hs : SameIndex previous next columns ix jx)
    (hno : ¬ Touched previous next columns ix) : previous.indexEntry ix = next.indexEntry jx := by
  have hf := same_fields (mem_secondary.mp hi).1 (hp ix hi) (hn jx hj) hs hno
  rw [Table.indexEntry, Table.indexEntry, hf, hname, hs.name_eq, hs.unique_eq]

/-- **An index left standing is an index of the next table** that is not defined anew. -/
theorem standing_left (hd : IsColumnDiff previous next columns)
    (hx : IsIndexDiff previous next columns indices Matched) (hname : previous.name = next.name)
    (hp : StoredIndices previous) (hn : StoredIndices next) {ix : Index}
    (hi : ix ∈ previous.secondary) (hno : ¬ Removed previous next columns indices ix) :
    ∃ jx ∈ next.secondary, ¬ Defined previous next columns indices jx ∧
      previous.indexEntry ix = next.indexEntry jx := by
  simp only [Removed, not_or, not_exists] at hno
  obtain ⟨hdrop, halter, htouch⟩ := hno
  obtain ⟨himem, hik⟩ := mem_secondary.mp hi
  have hmatched : ∃ jx, Matched ix jx := by
    by_contra h
    exact hdrop ((hx.drop_iff ix).mpr ⟨himem, not_exists.mp h⟩)
  obtain ⟨jx, hm⟩ := hmatched
  have hs : SameIndex previous next columns ix jx := by
    by_contra h
    exact halter jx ((hx.alter_iff ix jx).mpr ⟨hm, h⟩)
  have hjmem := (hx.matched_mem ix jx hm).2
  have hj : jx ∈ next.secondary := mem_secondary.mpr ⟨hjmem, by rw [← hs.key_eq, hik]⟩
  refine ⟨jx, hj, ?_, same_entry hname hp hn hi hj hs htouch⟩
  rintro (h | ⟨kx, h⟩ | h)
  · exact ((hx.create_iff jx).mp h).2 ix hm
  · obtain ⟨hkm, hks⟩ := (hx.alter_iff kx jx).mp h
    obtain rfl := hx.matched_inj kx ix jx hkm hm
    exact hks hs
  · exact htouch ((touched_iff hd himem hjmem hs).mpr h)

/-- **An index of the next table that is not defined anew was left standing.** -/
theorem standing_right (hd : IsColumnDiff previous next columns)
    (hx : IsIndexDiff previous next columns indices Matched) (hname : previous.name = next.name)
    (hp : StoredIndices previous) (hn : StoredIndices next) {jx : Index}
    (hj : jx ∈ next.secondary) (hno : ¬ Defined previous next columns indices jx) :
    ∃ ix ∈ previous.secondary, ¬ Removed previous next columns indices ix ∧
      previous.indexEntry ix = next.indexEntry jx := by
  simp only [Defined, not_or, not_exists] at hno
  obtain ⟨hcreate, halter, htouch⟩ := hno
  obtain ⟨hjmem, hjk⟩ := mem_secondary.mp hj
  have hmatched : ∃ ix, Matched ix jx := by
    by_contra h
    exact hcreate ((hx.create_iff jx).mpr ⟨hjmem, not_exists.mp h⟩)
  obtain ⟨ix, hm⟩ := hmatched
  have hs : SameIndex previous next columns ix jx := by
    by_contra h
    exact halter ix ((hx.alter_iff ix jx).mpr ⟨hm, h⟩)
  have himem := (hx.matched_mem ix jx hm).1
  have hi : ix ∈ previous.secondary := mem_secondary.mpr ⟨himem, by rw [hs.key_eq, hjk]⟩
  have hun : ¬ Touched previous next columns ix :=
    fun h => htouch ((touched_iff hd himem hjmem hs).mp h)
  refine ⟨ix, hi, ?_, same_entry hname hp hn hi hj hs hun⟩
  rintro (h | ⟨kx, h⟩ | h)
  · exact ((hx.drop_iff ix).mp h).2 jx hm
  · obtain ⟨hkm, hks⟩ := (hx.alter_iff ix kx).mp h
    obtain rfl := hx.matched_fun ix kx jx hkm hm
    exact hks hs
  · exact hun h

/-! ## The two statement lists -/

theorem removeIndexStatement_inj {t : Table} {ix jx : Index} (hi : ix ∈ t.secondary)
    (hj : jx ∈ t.secondary) (h : removeIndexStatement t ix = removeIndexStatement t jx) : ix = jx :=
  secondary_eq_of_name hi hj (Statement.removeIndex.inj h).1

theorem defineIndexStatement_inj {t : Table} {ix jx : Index} (hi : ix ∈ t.secondary)
    (hj : jx ∈ t.secondary)
    (h : defineIndexStatement t ix false = defineIndexStatement t jx false) : ix = jx :=
  secondary_eq_of_name hi hj (Statement.defineIndex.inj h).1

/-- The removals are those of the removed indices, each once. -/
theorem removals_eq (hx : IsIndexDiff previous next columns indices Matched) :
    ∃ ixs : List Index, pushAll [] (allRemovals previous next columns indices) =
        ixs.map (removeIndexStatement previous) ∧ ixs.Nodup ∧
      ∀ ix, ix ∈ ixs ↔ ix ∈ previous.secondary ∧ Removed previous next columns indices ix := by
  have hmem : ∀ s, s ∈ pushAll [] (allRemovals previous next columns indices) ↔
      s ∈ allRemovals previous next columns indices := by
    intro s
    refine mem_pushAll_nil fun s hs t ht h => ?_
    obtain ⟨ix, _, _, rfl⟩ := (mem_allRemovals hx).mp hs
    obtain ⟨jx, _, _, rfl⟩ := (mem_allRemovals hx).mp ht
    rw [removeIndexStatement, removeIndexStatement, (removeIndex_text_inj h).1]
  have hfrom : ∀ s ∈ pushAll [] (allRemovals previous next columns indices), ∃ ix,
      (ix ∈ previous.secondary ∧ Removed previous next columns indices ix) ∧
        s = removeIndexStatement previous ix := by
    intro s hs
    obtain ⟨ix, hi, hr, rfl⟩ := (mem_allRemovals hx).mp ((hmem s).mp hs)
    exact ⟨ix, ⟨hi, hr⟩, rfl⟩
  obtain ⟨ixs, hmap, hixs⟩ := exists_map_of_forall_mem hfrom
  have htexts : ((pushAll [] (allRemovals previous next columns indices)).map
    Statement.text).Nodup := nodup_pushAll List.nodup_nil
  refine ⟨ixs, hmap, ?_, fun ix => ⟨hixs ix, fun ⟨hi, hr⟩ => ?_⟩⟩
  · rw [hmap] at htexts
    exact List.Nodup.of_map _ (List.Nodup.of_map _ htexts)
  · have hs := (hmem _).mpr ((mem_allRemovals hx).mpr ⟨ix, hi, hr, rfl⟩)
    rw [hmap] at hs
    obtain ⟨jx, hj, he⟩ := List.mem_map.mp hs
    obtain rfl := removeIndexStatement_inj (hixs jx hj).1 hi he
    exact hj

/-- The definitions are those of the defined indices, each once. -/
theorem definitions_eq (hx : IsIndexDiff previous next columns indices Matched) :
    ∃ jxs : List Index, pushAll [] (allDefinitions previous next columns indices) =
        jxs.map (fun jx => defineIndexStatement next jx false) ∧ jxs.Nodup ∧
      ∀ jx, jx ∈ jxs ↔ jx ∈ next.secondary ∧ Defined previous next columns indices jx := by
  have hmem : ∀ s, s ∈ pushAll [] (allDefinitions previous next columns indices) ↔
      s ∈ allDefinitions previous next columns indices := by
    intro s
    refine mem_pushAll_nil fun s hs t ht h => ?_
    obtain ⟨ix, _, _, rfl⟩ := (mem_allDefinitions hx).mp hs
    obtain ⟨jx, _, _, rfl⟩ := (mem_allDefinitions hx).mp ht
    obtain ⟨hi, _, hc, hu⟩ := defineIndex_text_inj h
    rw [defineIndexStatement, defineIndexStatement, hi, hc, hu]
  have hfrom : ∀ s ∈ pushAll [] (allDefinitions previous next columns indices), ∃ jx,
      (jx ∈ next.secondary ∧ Defined previous next columns indices jx) ∧
        s = defineIndexStatement next jx false := by
    intro s hs
    obtain ⟨jx, hj, hr, rfl⟩ := (mem_allDefinitions hx).mp ((hmem s).mp hs)
    exact ⟨jx, ⟨hj, hr⟩, rfl⟩
  obtain ⟨jxs, hmap, hjxs⟩ := exists_map_of_forall_mem hfrom
  have htexts : ((pushAll [] (allDefinitions previous next columns indices)).map
    Statement.text).Nodup := nodup_pushAll List.nodup_nil
  refine ⟨jxs, hmap, ?_, fun jx => ⟨hjxs jx, fun ⟨hj, hr⟩ => ?_⟩⟩
  · rw [hmap] at htexts
    exact List.Nodup.of_map _ (List.Nodup.of_map _ htexts)
  · have hs := (hmem _).mpr ((mem_allDefinitions hx).mpr ⟨jx, hj, hr, rfl⟩)
    rw [hmap] at hs
    obtain ⟨kx, hk, he⟩ := List.mem_map.mp hs
    obtain rfl := defineIndexStatement_inj (hjxs kx hk).1 hj he
    exact hk

theorem dataOf_runCatalog {d : ColumnDiff} {s : Statement} (h : s ∈ dataOf previous next d)
    (c : IndexCatalog) : s.runCatalog c = some c := by
  cases d with
  | add col => simp [dataOf] at h
  | drop col =>
      simp only [dataOf] at h
      split at h
      · exact absurd h List.not_mem_nil
      · rw [List.mem_singleton.mp h]; rfl
  | alter p n =>
      obtain ⟨r, _, hs⟩ := List.mem_flatMap.mp h
      simp only [List.mem_cons, List.not_mem_nil, or_false] at hs
      rcases hs with rfl | rfl <;> rfl

/-! ## The catalog of the next table -/

/-- A guard-free migration removes, then defines; its data statements leave the catalog alone. -/
theorem runCatalog_guardFree {ixs jxs : List Index} {c : IndexCatalog}
    (hg : GuardFree (renderAlterTable previous next columns indices []))
    (hrem : pushAll [] (allRemovals previous next columns indices) =
      ixs.map (removeIndexStatement previous))
    (hdef : pushAll [] (allDefinitions previous next columns indices) =
      jxs.map fun jx => defineIndexStatement next jx false) :
    runCatalog (renderAlterTable previous next columns indices []) c =
      (Catalog.removeAll (ixs.map fun ix => (previous.name, ix.name)) c).bind
        (Catalog.defineAll (jxs.map next.indexEntry)) := by
  have hdata : ∀ c, runCatalog (columns.flatMap (dataOf previous next)) c = some c := by
    intro c
    refine runCatalog_frame fun s hs c' => ?_
    obtain ⟨d, _, hsd⟩ := List.mem_flatMap.mp hs
    exact dataOf_runCatalog hsd c'
  rw [renderAlterTable_of_guardFree hg, hrem, hdef, runCatalog_append, runCatalog_append,
    runCatalog_removals]
  cases Catalog.removeAll (ixs.map fun ix => (previous.name, ix.name)) c with
  | none => rfl
  | some c =>
      rw [Option.bind_some, Option.bind_some, runCatalog_definitions]
      cases Catalog.defineAll (jxs.map next.indexEntry) c with
      | none => rfl
      | some c' => rw [Option.bind_some, hdata]

/-- **A migration without guards turns the index catalog of the previous table into
that of the next one**, and every statement of it is accepted. -/
theorem runCatalog_renderAlterTable (hd : IsColumnDiff previous next columns)
    (hx : IsIndexDiff previous next columns indices Matched) (hp : StoredIndices previous)
    (hn : StoredIndices next) (hg : GuardFree (renderAlterTable previous next columns indices [])) :
    runCatalog (renderAlterTable previous next columns indices [])
        (Catalog.ofList (previous.secondary.map previous.indexEntry)) =
      some (Catalog.ofList (next.secondary.map next.indexEntry)) := by
  have hname := (unguarded_of_guardFree hg).name_eq
  obtain ⟨ixs, hrem, hixn, hixs⟩ := removals_eq hx
  obtain ⟨jxs, hdef, hjxn, hjxs⟩ := definitions_eq hx
  rw [runCatalog_guardFree hg hrem hdef]
  -- the name tells the index, so a removal takes the one it is for
  have hkey : ∀ ix, ix ∈ previous.secondary →
      ((previous.name, ix.name) ∈ ixs.map (fun ix => (previous.name, ix.name)) ↔ ix ∈ ixs) := by
    intro ix hi
    constructor
    · intro h
      obtain ⟨kx, hk, he⟩ := List.mem_map.mp h
      have hik := secondary_eq_of_name ((hixs kx).mp hk).1 hi (Prod.mk.inj he).2
      exact hik ▸ hk
    · exact fun h => List.mem_map.mpr ⟨ix, h, rfl⟩
  -- what is left standing has to be what the next schema keeps
  refine Catalog.rebuild (nodup_entries (fun _ h => h) (secondary_nodup previous))
    (nodup_entries (fun _ h => h) (secondary_nodup next)) ?_ ?_
    (nodup_entries (fun jx hj => ((hjxs jx).mp hj).1) hjxn) ?_ ?_
  · refine hixn.map_on fun ix hi kx hk he => ?_
    exact secondary_eq_of_name ((hixs ix).mp hi).1 ((hixs kx).mp hk).1 (Prod.mk.inj he).2
  · intro k hk
    obtain ⟨ix, hi, rfl⟩ := List.mem_map.mp hk
    exact List.mem_map.mpr ⟨_, List.mem_map_of_mem ((hixs ix).mp hi).1, rfl⟩
  · intro e he
    obtain ⟨jx, hj, rfl⟩ := List.mem_map.mp he
    exact List.mem_map_of_mem ((hjxs jx).mp hj).1
  · intro k v
    constructor
    · rintro ⟨hmem, hno⟩
      obtain ⟨ix, hi, he⟩ := List.mem_map.mp hmem
      obtain ⟨rfl, rfl⟩ := Prod.mk.inj he
      rw [hkey ix hi, hixs ix] at hno
      -- an index that is not removed is one of the next schema that is not defined
      obtain ⟨jx, hj, hnd, hsame⟩ := standing_left hd hx hname hp hn hi fun h => hno ⟨hi, h⟩
      rw [Table.indexEntry] at hsame
      rw [hsame]
      refine ⟨List.mem_map_of_mem hj, fun hdm => ?_⟩
      obtain ⟨kx, hk, hke⟩ := List.mem_map.mp hdm
      have hjk := secondary_eq_of_name ((hjxs kx).mp hk).1 hj (Prod.mk.inj (Prod.mk.inj hke).1).2
      exact hnd (hjk ▸ ((hjxs kx).mp hk).2)
    · rintro ⟨hmem, hno⟩
      obtain ⟨jx, hj, he⟩ := List.mem_map.mp hmem
      rw [← he] at hno ⊢
      have hnd : ¬ Defined previous next columns indices jx :=
        fun h => hno (List.mem_map_of_mem ((hjxs jx).mpr ⟨hj, h⟩))
      -- and the other way round
      obtain ⟨ix, hi, hnr, hsame⟩ := standing_right hd hx hname hp hn hj hnd
      rw [← hsame] at he ⊢
      obtain ⟨rfl, rfl⟩ := Prod.mk.inj he
      refine ⟨List.mem_map_of_mem hi, ?_⟩
      rw [hkey ix hi, hixs ix]
      exact fun h => hnr h.2

theorem removal_not_data {d : ColumnDiff} {t : Table} {ix : Index} :
    removeIndexStatement t ix ∉ dataOf previous next d := by
  intro h
  have hrun := dataOf_runCatalog h (fun _ => none)
  simp [removeIndexStatement, Statement.runCatalog, Catalog.remove] at hrun

theorem definition_not_data {d : ColumnDiff} {t : Table} {jx : Index} :
    defineIndexStatement t jx false ∉ dataOf previous next d := by
  intro h
  have hrun := dataOf_runCatalog h
    (fun k => if k = (t.name, jx.name) then some ⟨[], false⟩ else none)
  simp [defineIndexStatement, Statement.runCatalog, Catalog.define] at hrun

/-- An unchanged index whose fields have other names now is removed once and defined
once. -/
theorem count_rebuilt (hd : IsColumnDiff previous next columns)
    (hx : IsIndexDiff previous next columns indices Matched) (hp : StoredIndices previous)
    (hn : StoredIndices next) (hg : GuardFree (renderAlterTable previous next columns indices []))
    {ix jx : Index} (hm : Matched ix jx) (hs : SameIndex previous next columns ix jx)
    (hk : ix.primaryKey = false) (hne : previous.indexFields ix ≠ next.indexFields jx) :
    (renderAlterTable previous next columns indices []).count (removeIndexStatement previous ix) =
    1 ∧
      (renderAlterTable previous next columns indices []).count
        (defineIndexStatement next jx false) = 1 := by
  obtain ⟨himem, hjmem⟩ := hx.matched_mem ix jx hm
  have hi : ix ∈ previous.secondary := mem_secondary.mpr ⟨himem, hk⟩
  have hj : jx ∈ next.secondary := mem_secondary.mpr ⟨hjmem, by rw [← hs.key_eq, hk]⟩
  -- different fields mean that a column of the index was renamed
  have htouch : Touched previous next columns ix := by
    by_contra h
    exact hne (same_fields himem (hp ix hi) (hn jx hj) hs h)
  obtain ⟨ixs, hrem, hixn, hixs⟩ := removals_eq hx
  obtain ⟨jxs, hdef, hjxn, hjxs⟩ := definitions_eq hx
  rw [renderAlterTable_of_guardFree hg, hrem, hdef]
  simp only [List.count_append]
  -- neither statement is one of the data's
  have hnodata : ∀ s : Statement, (∀ d, s ∉ dataOf previous next d) →
      (columns.flatMap (dataOf previous next)).count s = 0 := by
    intro s h
    refine List.count_eq_zero.mpr fun hmem => ?_
    obtain ⟨d, _, hs⟩ := List.mem_flatMap.mp hmem
    exact h d hs
  rw [hnodata _ fun _ => removal_not_data, hnodata _ fun _ => definition_not_data]
  constructor
  · have hin : ix ∈ ixs := (hixs ix).mpr ⟨hi, Or.inr (Or.inr htouch)⟩
    -- no two indices have one statement
    have hone : (ixs.map (removeIndexStatement previous)).count (removeIndexStatement previous ix) =
        1 := by
      refine List.count_eq_one_of_mem (hixn.map_on ?_) (List.mem_map_of_mem hin)
      exact fun a ha b hb he => removeIndexStatement_inj ((hixs a).mp ha).1 ((hixs b).mp hb).1 he
    have hother : (jxs.map fun jx => defineIndexStatement next jx false).count
        (removeIndexStatement previous ix) = 0 := by
      refine List.count_eq_zero.mpr fun hmem => ?_
      obtain ⟨_, _, he⟩ := List.mem_map.mp hmem
      exact absurd he (by simp [defineIndexStatement, removeIndexStatement])
    omega
  · have hin : jx ∈ jxs :=
      (hjxs jx).mpr ⟨hj, Or.inr (Or.inr ((touched_iff hd himem hjmem hs).mp htouch))⟩
    have hone : (jxs.map fun jx => defineIndexStatement next jx false).count
        (defineIndexStatement next jx false) = 1 := by
      refine List.count_eq_one_of_mem (hjxn.map_on ?_)
        (List.mem_map_of_mem (f := fun jx => defineIndexStatement next jx false) hin)
      exact fun a ha b hb he => defineIndexStatement_inj ((hjxs a).mp ha).1 ((hjxs b).mp hb).1 he
    have hother : (ixs.map (removeIndexStatement previous)).count
        (defineIndexStatement next jx false) = 0 := by
      refine List.count_eq_zero.mpr fun hmem => ?_
      obtain ⟨_, _, he⟩ := List.mem_map.mp hmem
      exact absurd he (by simp [defineIndexStatement, removeIndexStatement])
    omega

/-- **The index catalog refines the diff.** From what the previous table's definition
creates, a migration without guards runs through and ends in what the next table's
definition creates; an unchanged index on renamed fields is rebuilt exactly once. -/
theorem index_migration_refines (hd : IsColumnDiff previous next columns)
    (hx : IsIndexDiff previous next columns indices Matched) (hp : StoredIndices previous)
    (hn : StoredIndices next) (hg : GuardFree (renderAlterTable previous next columns indices []))
    (b b' : Bool) :
    ∃ before after, runCatalog (defineTableStatements previous b) (fun _ => none) = some before ∧
      runCatalog (defineTableStatements next b') (fun _ => none) = some after ∧
      runCatalog (renderAlterTable previous next columns indices []) before = some after ∧
      ∀ ix jx, Matched ix jx → SameIndex previous next columns ix jx → ix.primaryKey = false →
        previous.indexFields ix ≠ next.indexFields jx →
        (renderAlterTable previous next columns indices []).count
            (removeIndexStatement previous ix) = 1 ∧
          (renderAlterTable previous next columns indices []).count
            (defineIndexStatement next jx false) = 1 :=
  ⟨_, _, runCatalog_defineTable previous b, runCatalog_defineTable next b',
    runCatalog_renderAlterTable hd hx hp hn hg,
    fun _ _ hm hs hk hne => count_rebuilt hd hx hp hn hg hm hs hk hne⟩

/-! ### A renamed column with an index on it -/

def valueIndex : Index := ⟨"items_value", [⟨0, 1⟩], true, false⟩

def itemsPrevious : Table where
  id := 0
  name := "items"
  columns := [⟨⟨0, 0⟩, "id", .i64, .integer 8⟩, ⟨⟨0, 1⟩, "value", .string, .text⟩]
  primaryKey := [⟨0, 0⟩]
  indices := [valueIndex]

def itemsNext : Table where
  id := 0
  name := "items"
  columns := [⟨⟨0, 0⟩, "id", .i64, .integer 8⟩, ⟨⟨0, 1⟩, "title", .string, .text⟩]
  primaryKey := [⟨0, 0⟩]
  indices := [valueIndex]

def renameValue : ColumnDiff :=
  .alter ⟨⟨0, 1⟩, "value", .string, .text⟩ ⟨⟨0, 1⟩, "title", .string, .text⟩

theorem renameValue_isColumnDiff : IsColumnDiff itemsPrevious itemsNext [renameValue] := by
  refine ⟨by simp [renameValue], ?_, by simp, ?_, ?_⟩ <;>
  simp [renameValue, itemsPrevious, itemsNext, Untouched, Image, ColumnDiff.previous?]

theorem valueIndex_same : SameIndex itemsPrevious itemsNext [renameValue] valueIndex valueIndex :=
  ⟨rfl, rfl, rfl, .cons (Or.inl (List.mem_singleton.mpr rfl)) .nil⟩

theorem valueIndex_isIndexDiff : IsIndexDiff itemsPrevious itemsNext [renameValue] []
    (fun ix jx => ix = valueIndex ∧ jx = valueIndex) := by
  have hmem : ∀ ix, (ix ∈ itemsPrevious.indices ↔ ix = valueIndex) ∧
      (ix ∈ itemsNext.indices ↔ ix = valueIndex) := by
    intro ix; simp [itemsPrevious, itemsNext]
  refine ⟨?_, ?_, ?_, ?_, ?_, ?_⟩
  · rintro ix jx ⟨rfl, rfl⟩; exact ⟨(hmem _).1.mpr rfl, (hmem _).2.mpr rfl⟩
  · rintro ix jx kx ⟨rfl, rfl⟩ ⟨_, rfl⟩; rfl
  · rintro ix kx jx ⟨rfl, rfl⟩ ⟨rfl, _⟩; rfl
  · intro jx; simp [hmem]
  · intro ix; simp [hmem]
  · rintro ix jx
    simp only [List.not_mem_nil, false_iff, not_and, not_not]
    rintro ⟨rfl, rfl⟩
    exact valueIndex_same

/-- The unchanged index on the renamed column is rebuilt. -/
theorem renamed_column_index_rebuilt :
    ∃ before after, runCatalog (defineTableStatements itemsPrevious true) (fun _ => none) =
    some before ∧
      runCatalog (defineTableStatements itemsNext true) (fun _ => none) = some after ∧
      runCatalog (renderAlterTable itemsPrevious itemsNext [renameValue] [] []) before =
      some after ∧ (renderAlterTable itemsPrevious itemsNext [renameValue] [] []).count
        (removeIndexStatement itemsPrevious valueIndex) = 1 := by
  obtain ⟨before, after, hb, ha, hrun, hone⟩ := index_migration_refines renameValue_isColumnDiff
    valueIndex_isIndexDiff (by unfold StoredIndices; decide) (by unfold StoredIndices; decide)
    (by decide) true true
  exact ⟨before, after, hb, ha, hrun,
    (hone valueIndex valueIndex ⟨rfl, rfl⟩ valueIndex_same rfl (by decide)).1⟩

end ToastySurreal
