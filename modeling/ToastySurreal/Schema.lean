import Mathlib

/-!
# The schema the driver is given

Toasty describes a table by its columns, its primary key and its indices. These
are the parts of `toasty_core::schema::db` the driver reads. A `Table` carries
what Toasty's schema builder guarantees, so that a lookup by column id never
misses: ids are positions, names are distinct, keys and indices only mention
columns of the table.
-/

namespace ToastySurreal

/-- Value families that SurrealDB has no column type for; they are stored as text. -/
inductive TextKind where
  | timestamp | zoned | date | time | dateTime | decimal | cidr | inet
  deriving DecidableEq, Repr

/-- `stmt::Type`: the type a column's values have in Toasty. -/
inductive Ty where
  | bool
  | i8 | i16 | i32 | i64
  | u8 | u16 | u32 | u64
  | f32 | f64
  | string
  | bytes
  | uuid
  /-- A temporal, decimal or network type. -/
  | text (kind : TextKind)
  | list (elem : Ty)
  | unknown
  /-- A type no column of this driver decodes to. -/
  | other (code : Nat)
  deriving DecidableEq, Repr

/-- `db::Type`: the storage type of a column. Only `json` changes what the driver does. -/
inductive DbType where
  | boolean
  | integer (bytes : Nat)
  | unsignedInteger (bytes : Nat)
  | float (bytes : Nat)
  | text
  | varChar (len : Nat)
  | uuid
  | blob
  | json
  | other (code : Nat)
  deriving DecidableEq, Repr

structure ColumnId where
  table : Nat
  index : Nat
  deriving DecidableEq, Repr

structure Column where
  id : ColumnId
  name : String
  ty : Ty
  storageTy : DbType
  deriving DecidableEq, Repr

instance : Inhabited Column := ⟨⟨⟨0, 0⟩, "", .unknown, .text⟩⟩

structure Index where
  name : String
  columns : List ColumnId
  unique : Bool
  primaryKey : Bool
  deriving DecidableEq, Repr

/-- What a schema guarantees of a table's parts. -/
structure TableValid (id : Nat) (columns : List Column) (primaryKey : List ColumnId)
    (indices : List Index) : Prop where
  /-- A column's id is its position. -/
  column_ids : columns.map Column.id = (List.range columns.length).map (ColumnId.mk id)
  column_names : (columns.map Column.name).Nodup
  key_ids : ∀ cid ∈ primaryKey, cid ∈ columns.map Column.id
  key_nodup : primaryKey.Nodup
  index_ids : ∀ ix ∈ indices, ∀ cid ∈ ix.columns, cid ∈ columns.map Column.id
  /-- Secondary indices have distinct names. -/
  index_names : ((indices.filter (fun ix => !ix.primaryKey)).map Index.name).Nodup

instance (id : Nat) (columns : List Column) (primaryKey : List ColumnId) (indices : List Index) :
    Decidable (TableValid id columns primaryKey indices) :=
  decidable_of_iff
    (columns.map Column.id = (List.range columns.length).map (ColumnId.mk id) ∧
      (columns.map Column.name).Nodup ∧ (∀ cid ∈ primaryKey, cid ∈ columns.map Column.id) ∧
      primaryKey.Nodup ∧ (∀ ix ∈ indices, ∀ cid ∈ ix.columns, cid ∈ columns.map Column.id) ∧
      ((indices.filter (fun ix => !ix.primaryKey)).map Index.name).Nodup)
    ⟨fun h => ⟨h.1, h.2.1, h.2.2.1, h.2.2.2.1, h.2.2.2.2.1, h.2.2.2.2.2⟩,
      fun h => ⟨h.column_ids, h.column_names, h.key_ids, h.key_nodup, h.index_ids, h.index_names⟩⟩

/-- `db::Table`, with what the schema builder guarantees about it. -/
structure Table where
  id : Nat
  name : String
  columns : List Column
  /-- The primary-key columns, in key order. -/
  primaryKey : List ColumnId
  indices : List Index
  valid : TableValid id columns primaryKey indices := by decide

namespace Table

theorem column_ids (t : Table) :
    t.columns.map Column.id = (List.range t.columns.length).map (ColumnId.mk t.id) :=
    t.valid.column_ids

theorem column_names (t : Table) : (t.columns.map Column.name).Nodup := t.valid.column_names

theorem key_ids (t : Table) : ∀ cid ∈ t.primaryKey, cid ∈ t.columns.map Column.id := t.valid.key_ids

theorem key_nodup (t : Table) : t.primaryKey.Nodup := t.valid.key_nodup

theorem index_ids (t : Table) :
    ∀ ix ∈ t.indices, ∀ cid ∈ ix.columns, cid ∈ t.columns.map Column.id :=
  t.valid.index_ids

theorem index_names (t : Table) :
    ((t.indices.filter (fun ix => !ix.primaryKey)).map Index.name).Nodup := t.valid.index_names

/-- `Table::column`, the column at an id's position. -/
def column (t : Table) (cid : ColumnId) : Column := t.columns.getD cid.index default

/-- `Table::primary_key_columns`. -/
def primaryKeyColumns (t : Table) : List Column := t.primaryKey.map t.column

theorem id_of_getElem {t : Table} {i : Nat} {c : Column} (h : t.columns[i]? = some c) :
    c.id = ⟨t.id, i⟩ := by
  obtain ⟨hlt, rfl⟩ := List.getElem?_eq_some_iff.mp h
  simpa [hlt] using congrArg (fun l => l[i]?) t.column_ids

/-- Looking a column up by its own id finds it. -/
theorem column_id {t : Table} {c : Column} (h : c ∈ t.columns) : t.column c.id = c := by
  obtain ⟨i, hi⟩ := List.mem_iff_getElem?.mp h
  rw [column, id_of_getElem hi, List.getD_eq_getElem?_getD, hi]
  rfl

theorem column_mem {t : Table} {cid : ColumnId} (h : cid ∈ t.columns.map Column.id) :
    t.column cid ∈ t.columns ∧ (t.column cid).id = cid := by
  obtain ⟨c, hc, rfl⟩ := List.mem_map.mp h
  rw [column_id hc]
  exact ⟨hc, rfl⟩

/-- Columns of one table are told apart by their ids. -/
theorem eq_of_id {t : Table} {c d : Column} (hc : c ∈ t.columns) (hd : d ∈ t.columns)
    (h : c.id = d.id) : c = d := by
  rw [← column_id hc, h, column_id hd]

/-- Columns of one table are told apart by their names. -/
theorem eq_of_name {t : Table} {c d : Column} (hc : c ∈ t.columns) (hd : d ∈ t.columns)
    (h : c.name = d.name) : c = d :=
  List.inj_on_of_nodup_map t.column_names hc hd h

theorem mem_primaryKeyColumns {t : Table} {c : Column} (h : c ∈ t.primaryKeyColumns) :
    c ∈ t.columns ∧ c.id ∈ t.primaryKey := by
  obtain ⟨cid, hcid, rfl⟩ := List.mem_map.mp h
  obtain ⟨hmem, hid⟩ := column_mem (t.key_ids cid hcid)
  exact ⟨hmem, hid.symm ▸ hcid⟩

end Table

/-- `is_primary_key`: membership in the table's key is the authoritative source. -/
def isPrimaryKey (t : Table) (c : Column) : Bool := t.primaryKey.contains c.id

theorem isPrimaryKey_iff {t : Table} {c : Column} :
    isPrimaryKey t c = true ↔ c.id ∈ t.primaryKey := by
  simp [isPrimaryKey]

end ToastySurreal
