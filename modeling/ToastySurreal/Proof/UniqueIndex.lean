import ToastySurreal.Plain
import ToastySurreal.Op.Write

/-!
# What a secondary index indexes

A query reads a key column out of the record id, where it is stored; the DDL renderer
names every column as a field. So an index over a key column indexes a field that no
record has. `index_logical_iff` says that an index is over the columns it was asked
for exactly when none of them is a key column, and what follows for `UNIQUE`.
-/

namespace ToastySurreal

/-! ## Index entries -/

/-- The fields a `DEFINE INDEX` names. -/
def Statement.indexFields : Statement → List String
  | .defineIndex _ _ columns _ _ => columns
  | _ => []

/-- The entry of a record in an index: its named fields, an absent one as `NONE`. -/
def indexEntry (fields : List String) (rec : RecordId × Object) : List SurValue :=
  fields.map fun name => Object.field (recordRow rec.1 rec.2) name

/-- A `UNIQUE` index admits a record when no stored one has its entry. -/
def Admits (fields : List String) (s : Records) (rec : RecordId × Object) : Prop :=
  ∀ stored ∈ s, indexEntry fields stored ≠ indexEntry fields rec

/-- What filters and projections read for the columns of an index. -/
def logicalEntry (table : Table) (index : Index) (rec : RecordId × Object) : List SurValue :=
  index.columns.map fun cid => refValue rec.1 rec.2 (columnRef table (table.column cid))

/-- The definition names, for each column of the index, what a query reads for it. -/
def NamesColumns (table : Table) (index : Index) (ifNotExists : Bool) : Prop :=
  (defineIndexStatement table index ifNotExists).indexFields.map ColumnRef.field =
    index.columns.map fun cid => columnRef table (table.column cid)

/-- A `UNIQUE` index admits a new record exactly when no stored one agrees with it on all
columns of the index. -/
def AdmitsByColumns (table : Table) (index : Index) (ifNotExists : Bool) : Prop :=
  ∀ (s : Records) (rec : RecordId × Object), rec.1 ∉ s.map Prod.fst →
    (Admits (defineIndexStatement table index ifNotExists).indexFields s rec ↔
      ∀ stored ∈ s, logicalEntry table index stored ≠ logicalEntry table index rec)

/-- The index is one of the logical columns. -/
structure IndexesColumns (table : Table) (index : Index) (ifNotExists : Bool) : Prop where
  names : NamesColumns table index ifNotExists
  unique : index.unique = true → AdmitsByColumns table index ifNotExists

/-! ## Key columns -/

section

variable {table : Table} {index : Index} {ifNotExists : Bool}

theorem indexFields_eq : (defineIndexStatement table index ifNotExists).indexFields =
    index.columns.map fun cid => (table.column cid).name := rfl

/-- A column is read as the field of its name exactly when it is no key column. -/
theorem columnRef_field_iff {c : Column} :
    ColumnRef.field c.name = columnRef table c ↔ isPrimaryKey table c = false := by
  rw [columnRef]
  cases hkey : isPrimaryKey table c with
  | false => simp
  | true =>
      simp only [if_true]
      split <;> simp

theorem namesColumns_iff : NamesColumns table index ifNotExists ↔
    ∀ cid ∈ index.columns, isPrimaryKey table (table.column cid) = false := by
  rw [NamesColumns, indexFields_eq, List.map_map, List.map_inj_left]
  exact forall₂_congr fun cid _ => columnRef_field_iff

/-- An index that names what queries read has the entries they would have. -/
theorem indexEntry_eq (h : NamesColumns table index ifNotExists) (rec : RecordId × Object) :
    indexEntry (defineIndexStatement table index ifNotExists).indexFields rec =
      logicalEntry table index rec := by
  have hread := congrArg (List.map (refValue rec.1 rec.2)) h
  rw [List.map_map, List.map_map] at hread
  exact hread

theorem admitsByColumns (h : NamesColumns table index ifNotExists) :
    AdmitsByColumns table index ifNotExists := by
  intro s rec _
  simp only [Admits, indexEntry_eq h]

/-- **Which indices are over their columns**: those none of whose columns is a key column. -/
theorem index_logical_iff (h : index ∈ table.indices) :
    IndexesColumns table index ifNotExists ↔ ∀ cid ∈ index.columns, cid ∉ table.primaryKey := by
  have hids : ∀ cid ∈ index.columns, (table.column cid).id = cid := fun cid hcid =>
    (Table.column_mem (table.index_ids index h cid hcid)).2
  have hkeys : (∀ cid ∈ index.columns, isPrimaryKey table (table.column cid) = false) ↔
      ∀ cid ∈ index.columns, cid ∉ table.primaryKey := by
    refine forall₂_congr fun cid hcid => ?_
    rw [← Bool.not_eq_true, isPrimaryKey_iff, hids cid hcid]
  rw [← hkeys, ← namesColumns_iff]
  constructor
  · intro hi; exact hi.names
  · intro hn; exact ⟨hn, fun _ => admitsByColumns hn⟩

end

/-! ## Refused newcomers -/

/-- The members of groups, one membership in each role. -/
def memberships : Table where
  id := 0
  name := "memberships"
  columns := [⟨⟨0, 0⟩, "group", .i64, .integer 8⟩, ⟨⟨0, 1⟩, "member", .i64, .integer 8⟩,
    ⟨⟨0, 2⟩, "role", .string, .text⟩]
  primaryKey := [⟨0, 0⟩, ⟨0, 1⟩]
  indices := [⟨"memberships_role", [⟨0, 0⟩, ⟨0, 2⟩], true, false⟩,
    ⟨"memberships_each_role", [⟨0, 2⟩], true, false⟩]

/-- The one admin of each group. -/
def groupRole : Index := ⟨"memberships_role", [⟨0, 0⟩, ⟨0, 2⟩], true, false⟩

/-- An admin of group 2 is refused because group 1 has an admin. -/
theorem key_column_not_indexed : let := plain
    let columns : List ColumnId := [⟨0, 0⟩, ⟨0, 1⟩, ⟨0, 2⟩]
    ¬ IndexesColumns memberships groupRole false ∧ ∃ first second : RecordId × Object,
      buildRow "insert" memberships columns [some (.i64 1), some (.i64 7), some (.string "admin")] =
        .ok first ∧
      buildRow "insert" memberships columns [some (.i64 2), some (.i64 7), some (.string "admin")] =
        .ok second ∧
      logicalEntry memberships groupRole first ≠ logicalEntry memberships groupRole second ∧
      ¬ Admits (defineIndexStatement memberships groupRole false).indexFields [first] second := by
  intro _ columns
  have hkey : ¬ IndexesColumns memberships groupRole false := fun h =>
    absurd ((index_logical_iff (List.mem_cons_self ..)).mp h _ (List.mem_cons_self ..)) (by decide)
  refine ⟨hkey, _, _, rfl, rfl, by decide, fun hadmits => ?_⟩
  exact absurd (hadmits _ (List.mem_cons_self ..)) (by decide)

/-- A unique index over a column that is no key column is over its column. -/
theorem role_indexed :
    IndexesColumns memberships ⟨"memberships_each_role", [⟨0, 2⟩], true, false⟩ false :=
  (index_logical_iff (by decide)).mpr (by decide)

end ToastySurreal
