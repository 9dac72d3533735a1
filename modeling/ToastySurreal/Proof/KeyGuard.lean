import ToastySurreal.Proof.DataMigration
import ToastySurreal.Proof.Guards
import ToastySurreal.Proof.IndexPath

/-!
# When a migration has to be written by hand

The diff of two versions of a table takes every column to the one a hint names, or to the
one of the same name. The guards of `render_alter_table` look at the changes the diff
reports, which need not list every column, and at the positions of the two keys. This
file says what that amounts to: a guard is emitted exactly when the keys do not correspond
position by position, or a column that is kept changes its type. Without one, the two
versions read the same key off every record id.
-/

namespace ToastySurreal

open Results

/-! ## Diffs with hints -/

/-- What becomes of a column: the next one its hint names, else the one of its name. -/
def imageOf (hint : Column → Option Column) (next : Table) (p : Column) : Option Column :=
  (hint p).or (next.columns.find? fun c => c.name = p.name)

/-- The two columns differ in what a diff reports. -/
def Differ (p n : Column) : Prop := p.name ≠ n.name ∨ p.ty ≠ n.ty ∨ p.storageTy ≠ n.storageTy

instance (p n : Column) : Decidable (Differ p n) := inferInstanceAs (Decidable (_ ∨ _ ∨ _))

/-- A change says what becomes of a column. -/
def ColumnDiff.Fits (hint : Column → Option Column) (previous next : Table) : ColumnDiff → Prop
  | .add c => c ∈ next.columns ∧ ∀ p ∈ previous.columns, imageOf hint next p ≠ some c
  | .drop c => c ∈ previous.columns ∧ imageOf hint next c = none
  | .alter p n => p ∈ previous.columns ∧ imageOf hint next p = some n

/-- The diff of two versions of a table. Every column becomes at most one, no two become
the same, and a column that becomes another is reported if the two differ. -/
structure HintedDiff (hint : Column → Option Column) (previous next : Table)
    (columns : List ColumnDiff) : Prop where
  name : previous.name = next.name
  hint_mem : ∀ p ∈ previous.columns, ∀ n ∈ hint p, n ∈ next.columns
  fits : ∀ d ∈ columns, d.Fits hint previous next
  reported : ∀ p ∈ previous.columns, ∀ n ∈ imageOf hint next p, Differ p n → .alter p n ∈ columns
  dropped : ∀ p ∈ previous.columns, imageOf hint next p = none → .drop p ∈ columns
  inj : ∀ p ∈ previous.columns, ∀ q ∈ previous.columns, (imageOf hint next p).isSome →
    imageOf hint next p = imageOf hint next q → p = q

/-- The keys do not correspond, or a column that is kept changes its type. -/
def Unsafe (hint : Column → Option Column) (previous next : Table) : Prop :=
  previous.primaryKey.length ≠ next.primaryKey.length ∨
    (∃ (i : Nat) (p n : Column), previous.primaryKeyColumns[i]? = some p ∧
      next.primaryKeyColumns[i]? = some n ∧ imageOf hint next p ≠ some n) ∨
    ∃ p ∈ previous.columns, ∃ n, imageOf hint next p = some n ∧
      (p.ty ≠ n.ty ∨ p.storageTy ≠ n.storageTy)

section Diff

variable {hint : Column → Option Column} {previous next : Table} {columns : List ColumnDiff}
  {indices : List IndexDiff}

theorem HintedDiff.image_mem (hd : HintedDiff hint previous next columns) {p n : Column}
    (hp : p ∈ previous.columns) (h : imageOf hint next p = some n) : n ∈ next.columns := by
  rw [imageOf] at h
  rcases Option.or_eq_some_iff.mp h with h | ⟨_, h⟩
  · exact hd.hint_mem p hp n h
  · exact List.mem_of_find?_eq_some h

/-- **The check recovers the image** of a column from the changes that were reported. -/
theorem HintedDiff.recovered (hd : HintedDiff hint previous next columns) {p : Column}
    (hp : p ∈ previous.columns) :
    (alteredTo columns p).or (next.columns.find? fun c => c.name = p.name) =
    imageOf hint next p := by
  cases haltered : alteredTo columns p with
  | some n =>
      obtain ⟨d, hdm, hfound⟩ := List.exists_of_findSome?_eq_some haltered
      cases d with
      | add c => simp at hfound
      | drop c => simp at hfound
      | alter q m =>
          simp only [Option.ite_none_right_eq_some, Option.some.injEq] at hfound
          obtain ⟨hid, rfl⟩ := hfound
          obtain ⟨hq, himage⟩ := hd.fits _ hdm
          rw [Table.eq_of_id hq hp hid] at himage
          rw [himage, Option.some_or]
  | none =>
      rw [Option.none_or, imageOf]
      cases hhint : hint p with
      | none => rfl
      | some n =>
          -- a hint that is not reported names a column of the same name
          have himage : imageOf hint next p = some n := by rw [imageOf, hhint, Option.some_or]
          have hname : n.name = p.name := by
            by_contra hne
            have hmem := hd.reported p hp n himage (.inl (Ne.symm hne))
            have hfound := List.findSome?_eq_none_iff.mp haltered _ hmem
            simp at hfound
          rw [Option.some_or, find_by_name (hd.image_mem hp himage) hname]

theorem primaryKeyColumns_mem {t : Table} {i : Nat} {c : Column}
    (h : t.primaryKeyColumns[i]? = some c) :
    c ∈ t.columns := (Table.mem_primaryKeyColumns (List.mem_of_getElem? h)).1

/-- **When the keys are found to have changed.** -/
theorem primaryKeyChanged_iff (hd : HintedDiff hint previous next columns) :
    primaryKeyChanged previous next columns = true ↔
      previous.primaryKey.length ≠ next.primaryKey.length ∨
        ∃ (i : Nat) (p n : Column), previous.primaryKeyColumns[i]? = some p ∧
          next.primaryKeyColumns[i]? = some n ∧
          (imageOf hint next p ≠ some n ∨ p.ty ≠ n.ty ∨ p.storageTy ≠ n.storageTy) := by
  unfold primaryKeyChanged
  by_cases hlen : previous.primaryKey.length ≠ next.primaryKey.length
  · rw [if_pos hlen]
    simp [hlen]
  · rw [if_neg hlen, List.any_eq_true, or_iff_right hlen]
    constructor
    · intro h
      obtain ⟨⟨p, n⟩, hmem, hchanged⟩ := h
      obtain ⟨i, hi⟩ := List.mem_iff_getElem?.mp hmem
      obtain ⟨hp, hn⟩ := List.getElem?_zip_eq_some.mp hi
      have hpm := primaryKeyColumns_mem hp
      refine ⟨i, p, n, hp, hn, ?_⟩
      dsimp only at hchanged
      rw [hd.recovered hpm] at hchanged
      cases himage : imageOf hint next p with
      | none => exact .inl (by simp)
      | some m =>
          rw [himage] at hchanged
          by_cases hmn : m = n
          · subst hmn
            exact .inr (by simpa using hchanged)
          · exact .inl fun h => hmn (Option.some.inj h)
    · intro h
      obtain ⟨i, p, n, hp, hn, hchanged⟩ := h
      have hpm := primaryKeyColumns_mem hp
      have hi : (previous.primaryKeyColumns.zip next.primaryKeyColumns)[i]? = some (p, n) :=
        List.getElem?_zip_eq_some.mpr ⟨hp, hn⟩
      refine ⟨(p, n), List.mem_of_getElem? hi, ?_⟩
      dsimp only
      rw [hd.recovered hpm]
      cases himage : imageOf hint next p with
      | none => rfl
      | some m =>
          by_cases hid : m.id = n.id
          · -- a column in the right place, of another type
            have hmn := Table.eq_of_id (hd.image_mem hpm himage) (primaryKeyColumns_mem hn) hid
            subst hmn
            have hty := hchanged.resolve_left (not_not_intro himage)
            simpa using hty
          · simp [hid]

/-- **When a column diff is guarded.** -/
theorem types_iff (hd : HintedDiff hint previous next columns) :
    columns.any ColumnDiff.changesType = true ↔
      ∃ p ∈ previous.columns, ∃ n, imageOf hint next p = some n ∧
      (p.ty ≠ n.ty ∨ p.storageTy ≠ n.storageTy) := by
  rw [List.any_eq_true]
  constructor
  · intro h
    obtain ⟨d, hdm, hty⟩ := h
    cases d with
    | add c => exact absurd hty (by simp [ColumnDiff.changesType])
    | drop c => exact absurd hty (by simp [ColumnDiff.changesType])
    | alter p n =>
        obtain ⟨hp, himage⟩ := hd.fits _ hdm
        exact ⟨p, hp, n, himage, by simpa [ColumnDiff.changesType] using hty⟩
  · intro h
    obtain ⟨p, hp, n, himage, hty⟩ := h
    exact ⟨_, hd.reported p hp n himage (.inr hty), by simpa [ColumnDiff.changesType] using hty⟩

/-- **When an alteration is guarded.** -/
theorem alter_guarded_iff (hd : HintedDiff hint previous next columns) :
    (∃ s ∈ alterStatements previous next columns indices, s.isThrow = true) ↔
    Unsafe hint previous next := by
  rw [alter_throw_iff, primaryKeyChanged_iff hd, types_iff hd, Unsafe]
  constructor
  · intro h
    rcases h with (hlen | ⟨i, p, n, hp, hn, hchanged⟩) | htypes
    · exact .inl hlen
    · by_cases himage : imageOf hint next p = some n
      · -- the types of a key column that is kept
        have hty := hchanged.resolve_left (not_not_intro himage)
        exact .inr (.inr ⟨p, primaryKeyColumns_mem hp, n, himage, hty⟩)
      · exact .inr (.inl ⟨i, p, n, hp, hn, himage⟩)
    · exact .inr (.inr htypes)
  · intro h
    rcases h with hlen | ⟨i, p, n, hp, hn, himage⟩ | htypes
    · exact .inl (.inl hlen)
    · exact .inl (.inr ⟨i, p, n, hp, hn, .inl himage⟩)
    · exact .inr htypes

/-- An alteration that keeps the table's name adds its statements to those before. -/
theorem renderAlterTable_eq (hname : previous.name = next.name) (statements : List Statement) :
    renderAlterTable previous next columns indices statements =
      statements ++ alterStatements previous next columns indices := by
  rw [renderAlterTable, if_neg (not_not_intro hname), alterStatements]
  simp only [List.append_assoc]

end Diff

/-! ## The key of a record -/

section Key

variable [Sdk]

/-- The key a record reads back as: its key columns, projected and decoded. -/
def keyRow (table : Table) (rid : RecordId) (o : Object) : Except Error (List Value) :=
  rowToRecord (.object (projectRow (projectColumns table table.primaryKeyColumns) rid o))
    table.primaryKeyColumns

omit [Sdk] in
/-- Where a key column is read depends on its position and the length of the key. -/
theorem columnRef_position {t : Table} {i : Nat} {c : Column}
    (h : t.primaryKeyColumns[i]? = some c) :
    columnRef t c = if t.primaryKey.length ≤ 1 then .key else .keyElem i := by
  rw [Table.primaryKeyColumns, List.getElem?_map, Option.map_eq_some_iff] at h
  obtain ⟨cid, hcid, rfl⟩ := h
  have hmem := List.mem_of_getElem? hcid
  have hid := (Table.column_mem (t.key_ids cid hmem)).2
  have hkey : isPrimaryKey t (t.column cid) = true := by
    rw [isPrimaryKey_iff, hid]
    exact hmem
  obtain ⟨hlt, hget⟩ := List.getElem?_eq_some_iff.mp hcid
  have hidx : t.primaryKey.idxOf? cid = some i := by
    refine List.idxOf?_eq_some_iff.mpr ⟨hlt, hget, fun j hj hjget => ?_⟩
    have hsame := (List.Nodup.getElem_inj_iff t.key_nodup).mp (hjget.trans hget.symm)
    omega
  rw [columnRef, if_pos hkey, hid, hidx]
  rfl

/-- Rows are decoded alike where their columns are, one by one. -/
theorem rowToRecord_alike {row row' : Object} {cs ds : List Column}
    (h : List.Forall₂ (fun c d => fromSurrealForColumn (Object.field row c.name) c =
      fromSurrealForColumn (Object.field row' d.name) d) cs ds) :
    rowToRecord (.object row) cs = rowToRecord (.object row') ds := by
  induction h with
  | nil => rfl
  | cons hcd hrest ih => rw [rowToRecord, rowToRecord, ih, hcd]

/-- **Keys that correspond are read alike** off every record id. -/
theorem keyRow_eq {hint : Column → Option Column} {previous next : Table}
    (h : ¬ Unsafe hint previous next)
    (rid : RecordId) (o o' : Object) : keyRow next rid o' = keyRow previous rid o := by
  have hlen : previous.primaryKey.length = next.primaryKey.length := by
    by_contra hne
    exact h (.inl hne)
  have hread : ∀ (t : Table) (row : Object) (i : Nat) (c : Column), t.primaryKeyColumns[i]? =
      some c → Object.field (projectRow (projectColumns t t.primaryKeyColumns) rid row) c.name =
        refValue rid row (if t.primaryKey.length ≤ 1 then .key else .keyElem i) := by
    intro t row i c hc
    have hmem := List.mem_of_getElem? hc
    rw [Object.field, projectRow_read (fun d hd => (Table.mem_primaryKeyColumns hd).1) hmem,
      projectColumn_key (isPrimaryKey_iff.mpr (Table.mem_primaryKeyColumns hmem).2),
      columnRef_position hc]
    rfl
  refine rowToRecord_alike (List.forall₂_iff_get.mpr ⟨?_, fun i hi hi' => ?_⟩)
  · simp [Table.primaryKeyColumns, hlen]
  · have hn := List.getElem?_eq_getElem hi
    have hp := List.getElem?_eq_getElem hi'
    have himage : imageOf hint next previous.primaryKeyColumns[i] =
        some next.primaryKeyColumns[i] := by
      by_contra hne
      exact h (.inr (.inl ⟨i, _, _, hp, hn, hne⟩))
    have htypes : previous.primaryKeyColumns[i].ty = next.primaryKeyColumns[i].ty ∧
        previous.primaryKeyColumns[i].storageTy = next.primaryKeyColumns[i].storageTy := by
      by_contra hne
      exact h (.inr (.inr ⟨_, primaryKeyColumns_mem hp, _, himage, not_and_or.mp hne⟩))
    rw [List.get_eq_getElem, List.get_eq_getElem, hread next o' i _ hn, hread previous o i _ hp,
      fromSurrealForColumn, fromSurrealForColumn, htypes.1, htypes.2, hlen]
    -- a part of the key is the same whatever else the record holds
    split <;> rfl

/-- **A guard is emitted exactly for the unsafe diffs**, and without one every record id
reads as the same key before and after. -/
theorem key_guard_exact {hint : Column → Option Column} {previous next : Table}
    {columns : List ColumnDiff} (hd : HintedDiff hint previous next columns)
    (indices : List IndexDiff) (statements : List Statement) :
    ∃ emitted, renderAlterTable previous next columns indices statements = statements ++ emitted ∧
      ((∃ s ∈ emitted, s.isThrow = true) ↔ Unsafe hint previous next) ∧
      (GuardFree emitted → ∀ rid o o', keyRow next rid o' = keyRow previous rid o) := by
  refine ⟨_, renderAlterTable_eq hd.name statements, alter_guarded_iff hd, fun hfree rid o o' => ?_⟩
  refine @keyRow_eq _ hint previous next (fun hunsafe => ?_) rid o o'
  obtain ⟨s, hs, hthrow⟩ := (alter_guarded_iff hd).mpr hunsafe
  rw [hfree s hs] at hthrow
  exact Bool.false_ne_true hthrow

end Key

/-- Seats by venue and number. -/
def seats : Table where
  id := 0
  name := "seats"
  columns := [⟨⟨0, 0⟩, "venue", .i64, .integer 8⟩, ⟨⟨0, 1⟩, "number", .u64, .unsignedInteger 8⟩,
    ⟨⟨0, 2⟩, "holder", .string, .text⟩]
  primaryKey := [⟨0, 0⟩, ⟨0, 1⟩]
  indices := []

/-- The same with the venue called a place, and the columns in another order. -/
def placedSeats : Table where
  id := 0
  name := "seats"
  columns := [⟨⟨0, 0⟩, "holder", .string, .text⟩, ⟨⟨0, 1⟩, "number", .u64, .unsignedInteger 8⟩,
    ⟨⟨0, 2⟩, "place", .i64, .integer 8⟩]
  primaryKey := [⟨0, 2⟩, ⟨0, 1⟩]
  indices := []

def venueHint (c : Column) : Option Column :=
  if c.name = "venue" then some ⟨⟨0, 2⟩, "place", .i64, .integer 8⟩ else none

def venueChanges : List ColumnDiff :=
  [.alter ⟨⟨0, 0⟩, "venue", .i64, .integer 8⟩ ⟨⟨0, 2⟩, "place", .i64, .integer 8⟩]

theorem venueChanges_fit : ∀ d ∈ venueChanges, d.Fits venueHint seats placedSeats := by
  intro d hd
  rw [List.mem_singleton.mp hd]
  exact ⟨by decide, by decide⟩

theorem seats_diff : HintedDiff venueHint seats placedSeats venueChanges where
  name := rfl
  hint_mem := by decide
  fits := venueChanges_fit
  reported := by decide
  dropped := by decide
  inj := by decide

/-- A renamed key column in a reordered table moves nothing, and keeps every key. -/
theorem seats_keep_keys : let := plain
    GuardFree (renderAlterTable seats placedSeats venueChanges [] []) ∧
      ∀ rid o o', keyRow placedSeats rid o' = keyRow seats rid o := by
  let := plain
  obtain ⟨emitted, hrender, _, hkeys⟩ := key_guard_exact seats_diff [] []
  have hfree : GuardFree (renderAlterTable seats placedSeats venueChanges [] []) := by decide
  rw [hrender] at hfree ⊢
  exact ⟨hfree, hkeys hfree⟩

end ToastySurreal
