import ToastySurreal.Proof.Migration
import ToastySurreal.Lib.Moves
import ToastySurreal.Types

/-!
# What a generated migration does to the stored data

The data statements of a migration move fields one at a time over the same rows,
so they are a plan in the sense of `Lib.Moves`: a rename moves a field, a dropped
column is emptied. `renderAlterTable` emits the plan in the order of the diff and
does not look for collisions. `preserves_iff` says exactly which diffs survive
that: those where no rename lands on a field that a later item still has to move
or drop, and where no stored column becomes a key column and leaves its field
behind.
-/

namespace ToastySurreal

open Moves

/-! ## Column diffs -/

/-- The previous column a change is about. -/
def ColumnDiff.previous? : ColumnDiff → Option Column
  | .add _ => none
  | .drop c => some c
  | .alter p _ => some p

/-- No change mentions the column. -/
def Untouched (columns : List ColumnDiff) (p : Column) : Prop :=
  ∀ d ∈ columns, d.previous? ≠ some p

/-- `n` is what becomes of `p`: the column it is altered to, or the next column of
the same name when nothing mentions it. -/
def Image (next : Table) (columns : List ColumnDiff) (p n : Column) : Prop :=
  ColumnDiff.alter p n ∈ columns ∨ (Untouched columns p ∧ n ∈ next.columns ∧ n.name = p.name)

/-- A list of changes between two tables: every previous column is dropped, altered
to one next column or left under its name, and no two of them become the same. -/
structure IsColumnDiff (previous next : Table) (columns : List ColumnDiff) : Prop where
  drop_mem : ∀ c, ColumnDiff.drop c ∈ columns → c ∈ previous.columns
  alter_mem : ∀ p n, ColumnDiff.alter p n ∈ columns → p ∈ previous.columns ∧ n ∈ next.columns
  /-- A column is mentioned at most once. -/
  once : columns.Pairwise (fun a b => ∀ p, a.previous? = some p → b.previous? ≠ some p)
  /-- A column that is not mentioned is still there. -/
  kept : ∀ p ∈ previous.columns, Untouched columns p → ∃ n ∈ next.columns, n.name = p.name
  image_inj : ∀ p ∈ previous.columns, ∀ q ∈ previous.columns, ∀ n,
    Image next columns p n → Image next columns q n → p = q

variable {previous next : Table} {columns : List ColumnDiff} {indices : List IndexDiff}

theorem Image.mem (hd : IsColumnDiff previous next columns) {p n : Column}
    (h : Image next columns p n) : n ∈ next.columns := by
  rcases h with h | ⟨_, h, _⟩
  · exact (hd.alter_mem p n h).2
  · exact h

theorem IsColumnDiff.unique (hd : IsColumnDiff previous next columns) {d e : ColumnDiff}
    (hdm : d ∈ columns) (hem : e ∈ columns) {p : Column} (hp : d.previous? = some p)
    (hq : e.previous? = some p) : d = e := by
  by_contra hne
  have hsymm : Std.Symm fun a b : ColumnDiff => ∀ p, a.previous? = some p → b.previous? ≠ some p :=
    ⟨fun a b h p hb ha => h p ha hb⟩
  exact hd.once.forall hdm hem hne p hp hq

/-- The column a column is altered to is found by `primary_key_changed`. -/
theorem alteredTo_of_alter (hd : IsColumnDiff previous next columns) {p n : Column}
    (h : ColumnDiff.alter p n ∈ columns) : alteredTo columns p = some n := by
  have hp := (hd.alter_mem p n h).1
  have hfound : ∃ m, alteredTo columns p = some m := by
    refine Option.isSome_iff_exists.mp (List.findSome?_isSome_iff.mpr ⟨_, h, ?_⟩)
    simp
  obtain ⟨m, hm⟩ := hfound
  obtain ⟨e, he, heq⟩ := List.exists_of_findSome?_eq_some hm
  cases e with
  | add c => simp at heq
  | drop c => simp at heq
  | alter q m' =>
      simp only [Option.ite_none_right_eq_some, Option.some.injEq] at heq
      obtain ⟨hid, rfl⟩ := heq
      have hqp : q = p := Table.eq_of_id (hd.alter_mem q m' he).1 hp hid
      subst hqp
      have hone := hd.unique he h (p := q) rfl rfl
      rw [hm, (ColumnDiff.alter.inj hone).2]

theorem alteredTo_of_untouched (hd : IsColumnDiff previous next columns) {p : Column}
    (hp : p ∈ previous.columns) (h : Untouched columns p) : alteredTo columns p = none := by
  refine List.findSome?_eq_none_iff.mpr fun e he => ?_
  cases e with
  | add c => rfl
  | drop c => rfl
  | alter q m =>
      have hne : q.id ≠ p.id := by
        intro hid
        have hqp : q = p := Table.eq_of_id (hd.alter_mem q m he).1 hp hid
        exact h _ he (by rw [hqp]; rfl)
      simp [hne]

theorem find_by_name {p n : Column} (hn : n ∈ next.columns) (hname : n.name = p.name) :
    next.columns.find? (fun c => c.name = p.name) = some n := by
  have hsome : ∃ m, next.columns.find? (fun c => c.name = p.name) = some m :=
    Option.isSome_iff_exists.mp (List.find?_isSome.mpr ⟨n, hn, by simpa using hname⟩)
  obtain ⟨m, hm⟩ := hsome
  have hmn : m.name = p.name := by simpa using List.find?_some hm
  rw [hm, Table.eq_of_name (List.mem_of_find?_eq_some hm) hn (hmn.trans hname.symm)]

/-- **In a migration without guards, key columns become key columns.** -/
theorem key_image (hd : IsColumnDiff previous next columns) (hu : Unguarded previous next columns)
    {p n : Column} (hp : p ∈ previous.columns) (hpk : isPrimaryKey previous p = true)
    (hi : Image next columns p n) : isPrimaryKey next n = true := by
  have hmapped : (alteredTo columns p).or (next.columns.find? fun c => c.name = p.name) =
      some n := by
    rcases hi with h | ⟨hun, hn, hname⟩
    · rw [alteredTo_of_alter hd h]; rfl
    · rw [alteredTo_of_untouched hd hp hun, Option.none_or, find_by_name hn hname]
  have hkey := hu.key_same
  unfold primaryKeyChanged at hkey
  split at hkey
  · exact absurd hkey (by simp)
  · rename_i hlen
    rw [List.any_eq_false] at hkey
    -- the next key column in the position of `p`
    obtain ⟨i, hi, hpi⟩ := List.mem_iff_getElem.mp (isPrimaryKey_iff.mp hpk)
    have hi' : i < next.primaryKey.length := by omega
    have hpair : (p, next.column next.primaryKey[i]) ∈
        previous.primaryKeyColumns.zip next.primaryKeyColumns := by
      refine List.mem_iff_getElem.mpr ⟨i, by simp [Table.primaryKeyColumns]; omega, ?_⟩
      simp only [Table.primaryKeyColumns, List.getElem_zip, List.getElem_map]
      rw [hpi, Table.column_id hp]
    have hno := hkey _ hpair
    simp only [hmapped, ne_eq, decide_not, Bool.or_eq_true, Bool.not_eq_eq_eq_not, Bool.not_true,
      decide_eq_false_iff_not, not_or, not_not] at hno
    have hid : n.id = (next.column next.primaryKey[i]).id := hno.1.1
    have hmem := Table.column_mem (next.key_ids _ (List.getElem_mem hi'))
    rw [isPrimaryKey_iff, hid, hmem.2]
    exact List.getElem_mem hi'

/-! ## Running the data statements -/

def SurValue.isNone : SurValue → Bool
  | .none => true
  | _ => false

@[simp] theorem SurValue.isNone_iff {v : SurValue} : v.isNone = true ↔ v = .none := by
  cases v <;> simp [SurValue.isNone]

/-- What a data statement does to the fields of one stored row. A column called `id` is no such
field: there the record id stands. -/
def Statement.runRow (s : Statement) (row : Object) : Object :=
  match s with
  | .updateSet _ next previous =>
      if (row.field previous).isNone then row else row.set next (row.field previous)
  | .updateUnset _ column => row.set column .none
  | _ => row

/-- A list of statements, run in order over the rows of a table. -/
def runData (statements : List Statement) (rows : List Object) : List Object :=
  statements.foldl (fun rows s => rows.map s.runRow) rows

/-- A row holds fields only for the stored columns of its table. -/
def Conforms (table : Table) (row : Object) : Prop :=
  ∀ name, row.field name ≠ .none → ∃ c ∈ table.columns, c.name = name ∧ isPrimaryKey table c = false

/-- What a migration owes a row. -/
structure Preserves (previous next : Table) (columns : List ColumnDiff) (row row' : Object) :
    Prop where
  /-- A stored next column holds what the column it comes from held. -/
  kept : ∀ p ∈ previous.columns, ∀ n, Image next columns p n → isPrimaryKey next n = false →
    isPrimaryKey previous p = false ∧ row'.field n.name = row.field p.name
  /-- A dropped column is gone, unless another column has taken its name. -/
  dropped : ∀ c, ColumnDiff.drop c ∈ columns →
    (∀ p ∈ previous.columns, ∀ n, Image next columns p n → isPrimaryKey next n = false →
      n.name ≠ c.name) → row'.field c.name = .none
  /-- Every field belongs to a column. -/
  only : ∀ name, row'.field name ≠ .none → ∃ n ∈ next.columns, n.name = name

/-- The move of fields a change stands for. -/
def movesOf (previous next : Table) : ColumnDiff → List (Move String)
  | .add _ => []
  | .drop c => if isPrimaryKey previous c then [] else [⟨c.name, none⟩]
  | .alter p n =>
      if p.name ≠ n.name ∧ !isPrimaryKey previous p ∧ !isPrimaryKey next n then
        [⟨p.name, some n.name⟩]
      else []

/-- The moves of a diff, in its order. -/
def fieldMoves (previous next : Table) (columns : List ColumnDiff) : List (Move String) :=
  columns.flatMap (movesOf previous next)

theorem field_set (row : Object) (name : String) (v : SurValue) :
    Object.field (row.set name v) = Function.update row.field name v := by
  funext n
  by_cases h : n = name
  · subst h; simp
  · simp [h]

/-- One change does to the fields of a row what its move does. -/
theorem runRow_dataOf (d : ColumnDiff) (row : Object) :
    Object.field ((dataOf previous next d).foldl (fun r s => s.runRow r) row) =
      run .none (movesOf previous next d) row.field := by
  cases d with
  | add c => rfl
  | drop c =>
      by_cases h : isPrimaryKey previous c
      · simp [dataOf, movesOf, h]
      · simp [dataOf, movesOf, h, Statement.runRow, field_set, Move.step]
  | alter p n =>
      simp only [dataOf, renameOf, movesOf]
      split
      · by_cases hz : row.field p.name = .none <;>
          simp [Statement.runRow, field_set, Move.step, hz]
      · rfl

theorem runRow_dataChanges : ∀ (ds : List ColumnDiff) (row : Object),
    Object.field ((ds.flatMap (dataOf previous next)).foldl (fun r s => s.runRow r) row) =
      run .none (fieldMoves previous next ds) row.field
  | [], _ => rfl
  | d :: ds, row => by
      rw [List.flatMap_cons, List.foldl_append, runRow_dataChanges ds, runRow_dataOf]
      simp only [fieldMoves, List.flatMap_cons, run_append]

theorem runData_eq_map : ∀ (ss : List Statement) (rows : List Object),
    runData ss rows = rows.map fun row => ss.foldl (fun r s => s.runRow r) row
  | [], rows => by simp [runData]
  | s :: ss, rows => by
      have ih := runData_eq_map ss (rows.map s.runRow)
      simp only [runData, List.foldl_cons] at ih ⊢
      rw [ih, List.map_map]
      rfl

/-- Statements that are not data statements leave rows alone. -/
theorem runRow_foldl_frame : ∀ {ss : List Statement} {row : Object},
    (∀ s ∈ ss, ∀ r, s.runRow r = r) → ss.foldl (fun r s => s.runRow r) row = row
  | [], _, _ => rfl
  | s :: ss, row, h => by
      rw [List.foldl_cons, h s (List.mem_cons_self ..)]
      exact runRow_foldl_frame fun t ht => h t (List.mem_cons_of_mem _ ht)

theorem allRemovals_runRow {s : Statement} (h : s ∈ allRemovals previous next columns indices)
    (row : Object) : s.runRow row = row := by
  unfold allRemovals at h
  rcases List.mem_append.mp h with h | h
  · obtain ⟨d, _, hd⟩ := List.mem_flatMap.mp h
    cases d with
    | create ix => simp [removalsOf] at hd
    | drop ix =>
        simp only [removalsOf] at hd
        split at hd
        · exact absurd hd List.not_mem_nil
        · rw [List.mem_singleton.mp hd]; rfl
    | alter ix jx =>
        simp only [removalsOf] at hd
        split at hd
        · exact absurd hd List.not_mem_nil
        · rw [List.mem_singleton.mp hd]; rfl
  · obtain ⟨r, _, hr⟩ := List.mem_flatMap.mp h
    obtain ⟨ix, _, rfl⟩ := List.mem_map.mp hr
    rfl

theorem allDefinitions_runRow {s : Statement} (h : s ∈ allDefinitions previous next columns indices)
    (row : Object) : s.runRow row = row := by
  unfold allDefinitions at h
  rcases List.mem_append.mp h with h | h
  · obtain ⟨d, _, hd⟩ := List.mem_flatMap.mp h
    cases d with
    | drop ix => simp [definitionsOf] at hd
    | create ix =>
        simp only [definitionsOf] at hd
        split at hd
        · exact absurd hd List.not_mem_nil
        · rw [List.mem_singleton.mp hd]; rfl
    | alter ix jx =>
        simp only [definitionsOf] at hd
        split at hd
        · exact absurd hd List.not_mem_nil
        · rw [List.mem_singleton.mp hd]; rfl
  · obtain ⟨r, _, hr⟩ := List.mem_flatMap.mp h
    obtain ⟨ix, _, rfl⟩ := List.mem_map.mp hr
    rfl

/-- **The rendered statements carry out the plan of the diff.** -/
theorem runData_fields (h : GuardFree (renderAlterTable previous next columns indices []))
    (row : Object) :
    Object.field ((renderAlterTable previous next columns indices []).foldl
      (fun r s => s.runRow r) row) = run .none (fieldMoves previous next columns) row.field := by
  have hremovals : ∀ s ∈ pushAll [] (allRemovals previous next columns indices), ∀ r, s.runRow r =
      r :=
    fun s hs => allRemovals_runRow ((mem_pushAll hs).resolve_left List.not_mem_nil)
  have hdefinitions : ∀ s ∈ pushAll [] (allDefinitions previous next columns indices),
      ∀ r, s.runRow r = r :=
    fun s hs => allDefinitions_runRow ((mem_pushAll hs).resolve_left List.not_mem_nil)
  rw [renderAlterTable_of_guardFree h, List.foldl_append, List.foldl_append,
    runRow_foldl_frame hremovals, runRow_foldl_frame hdefinitions, runRow_dataChanges]

/-! ## The moves of a diff -/

theorem mem_movesOf {d : ColumnDiff} {m : Move String} :
    m ∈ movesOf previous next d ↔
      (∃ c, d = .drop c ∧ isPrimaryKey previous c = false ∧ m = ⟨c.name, none⟩) ∨
      (∃ p n, d = .alter p n ∧ p.name ≠ n.name ∧ isPrimaryKey previous p = false ∧
        isPrimaryKey next n = false ∧ m = ⟨p.name, some n.name⟩) := by
  cases d with
  | add c => simp [movesOf]
  | drop c => by_cases h : isPrimaryKey previous c <;> simp [movesOf, h]
  | alter p n =>
      by_cases h : p.name ≠ n.name ∧ !isPrimaryKey previous p ∧ !isPrimaryKey next n
      · obtain ⟨h1, h2, h3⟩ := h
        simp only [Bool.not_eq_true'] at h2 h3
        simp [movesOf, h1, h2, h3]
      · simp only [movesOf, if_neg h, List.not_mem_nil, false_iff]
        rintro (⟨c, hc, _⟩ | ⟨q, m', heq, h1, h2, h3, _⟩)
        · cases hc
        · cases heq
          exact h ⟨h1, by simp [h2], by simp [h3]⟩

/-- A rename of a stored column is one of the moves. -/
theorem mem_fieldMoves_rename {p n : Column} (h : ColumnDiff.alter p n ∈ columns)
    (hne : p.name ≠ n.name) (hp : isPrimaryKey previous p = false)
    (hn : isPrimaryKey next n = false) :
    (⟨p.name, some n.name⟩ : Move String) ∈ fieldMoves previous next columns :=
  List.mem_flatMap.mpr ⟨_, h, mem_movesOf.mpr (Or.inr ⟨p, n, rfl, hne, hp, hn, rfl⟩)⟩

theorem mem_fieldMoves_drop {c : Column} (h : ColumnDiff.drop c ∈ columns)
    (hc : isPrimaryKey previous c = false) :
    (⟨c.name, none⟩ : Move String) ∈ fieldMoves previous next columns :=
  List.mem_flatMap.mpr ⟨_, h, mem_movesOf.mpr (Or.inl ⟨c, rfl, hc, rfl⟩)⟩

/-- The source of a move is a stored previous column that some change mentions. -/
theorem src_of_mem (hd : IsColumnDiff previous next columns) {m : Move String}
    (h : m ∈ fieldMoves previous next columns) :
    ∃ c ∈ previous.columns, c.name = m.src ∧ isPrimaryKey previous c = false ∧
      ∃ d ∈ columns, d.previous? = some c ∧ m ∈ movesOf previous next d := by
  obtain ⟨d, hdm, hm⟩ := List.mem_flatMap.mp h
  rcases mem_movesOf.mp hm with ⟨c, rfl, hc, rfl⟩ | ⟨p, n, rfl, _, hp, _, rfl⟩
  · exact ⟨c, hd.drop_mem c hdm, rfl, hc, _, hdm, rfl, hm⟩
  · exact ⟨p, (hd.alter_mem p n hdm).1, rfl, hp, _, hdm, rfl, hm⟩

/-- The destination of a move is the image of its source. -/
theorem dst_of_mem (hd : IsColumnDiff previous next columns) {m : Move String} {name : String}
    (h : m ∈ fieldMoves previous next columns) (hdst : m.dst = some name) :
    ∃ p ∈ previous.columns, ∃ n, ColumnDiff.alter p n ∈ columns ∧ p.name = m.src ∧ n.name = name ∧
      isPrimaryKey next n = false := by
  obtain ⟨d, hdm, hm⟩ := List.mem_flatMap.mp h
  rcases mem_movesOf.mp hm with ⟨c, rfl, hc, rfl⟩ | ⟨p, n, rfl, _, hp, hn, rfl⟩
  · exact absurd hdst (by simp)
  · exact ⟨p, (hd.alter_mem p n hdm).1, n, hdm, rfl, Option.some.inj hdst, hn⟩

theorem image_of_alter {p n : Column} (h : ColumnDiff.alter p n ∈ columns) :
    Image next columns p n := Or.inl h

/-- The moves of a column diff are a plan: no field is emptied or filled twice. -/
theorem fieldMoves_plan (hd : IsColumnDiff previous next columns) :
    Plan (fieldMoves previous next columns) := by
  -- a column's diff moves one field at most
  have hsingle : ∀ d : ColumnDiff, (movesOf previous next d).length ≤ 1 := by
    intro d
    cases d with
    | add c => simp [movesOf]
    | drop c => simp only [movesOf]; split <;> simp
    | alter p n => simp only [movesOf]; split <;> simp
  have hpair : ∀ (R : Move String → Move String → Prop) (d : ColumnDiff),
      (movesOf previous next d).Pairwise R := by
    intro R d
    have hlen := hsingle d
    match movesOf previous next d, hlen with
    | [], _ => exact List.Pairwise.nil
    | [m], _ => exact List.pairwise_singleton _ _
  refine ⟨?_, ?_, ?_⟩
  · refine List.pairwise_flatMap.mpr ⟨fun d _ => hpair _ d, hd.once.imp_of_mem ?_⟩
    intro a b ha hb hab x hx y hy hxy
    obtain ⟨p, hp, hpn, _, da, hda, hpa, hxa⟩ := src_of_mem hd (List.mem_flatMap.mpr ⟨a, ha, hx⟩)
    -- the source of a move is the previous column of its diff
    have hap : ∃ c ∈ previous.columns, a.previous? = some c ∧ c.name = x.src := by
      rcases mem_movesOf.mp hx with ⟨c, rfl, _, rfl⟩ | ⟨c, n, rfl, _, _, _, rfl⟩
      · exact ⟨c, hd.drop_mem c ha, rfl, rfl⟩
      · exact ⟨c, (hd.alter_mem c n ha).1, rfl, rfl⟩
    have hbp : ∃ c ∈ previous.columns, b.previous? = some c ∧ c.name = y.src := by
      rcases mem_movesOf.mp hy with ⟨c, rfl, _, rfl⟩ | ⟨c, n, rfl, _, _, _, rfl⟩
      · exact ⟨c, hd.drop_mem c hb, rfl, rfl⟩
      · exact ⟨c, (hd.alter_mem c n hb).1, rfl, rfl⟩
    obtain ⟨c, hc, hac, hcn⟩ := hap
    obtain ⟨e, he, hbe, hen⟩ := hbp
    have hce : c = e := Table.eq_of_name hc he (by rw [hcn, hen, hxy])
    exact hab c hac (hce ▸ hbe)
  · refine List.pairwise_flatMap.mpr ⟨fun d _ => hpair _ d, hd.once.imp_of_mem ?_⟩
    intro a b ha hb hab x hx y hy name hxd hyd
    rcases mem_movesOf.mp hx with ⟨c, rfl, _, rfl⟩ | ⟨p, n, rfl, _, _, _, rfl⟩
    · exact absurd hxd (by simp)
    · rcases mem_movesOf.mp hy with ⟨c, rfl, _, rfl⟩ | ⟨q, m, rfl, _, _, _, rfl⟩
      · exact absurd hyd (by simp)
      -- one destination is one next column, and that has one previous column
      · have hnm : n = m := by
          refine Table.eq_of_name (hd.alter_mem p n ha).2 (hd.alter_mem q m hb).2 ?_
          rw [Option.some.inj hxd, Option.some.inj hyd]
        have hpq : p = q := hd.image_inj p (hd.alter_mem p n ha).1 q (hd.alter_mem q m hb).1 n
          (image_of_alter ha) (image_of_alter (hnm ▸ hb))
        exact hab p rfl (by rw [hpq]; rfl)
  · intro m hm he
    obtain ⟨d, hdm, hmd⟩ := List.mem_flatMap.mp hm
    rcases mem_movesOf.mp hmd with ⟨c, rfl, _, rfl⟩ | ⟨p, n, rfl, hne, _, _, rfl⟩
    · exact absurd he (by simp)
    · exact hne (Option.some.inj he).symm

/-! ## When a migration preserves the data -/

/-- A stored column that becomes a key column leaves its field behind. That is
harmless only if the next table has a column of that name which nothing fills. -/
def NoneStranded (previous next : Table) (columns : List ColumnDiff) : Prop :=
  ∀ p ∈ previous.columns, ∀ n, Image next columns p n → isPrimaryKey previous p = false →
    isPrimaryKey next n = true →
      (∃ m ∈ next.columns, m.name = p.name) ∧
      ∀ q ∈ previous.columns, ∀ m, Image next columns q m → isPrimaryKey next m = false →
        m.name ≠ p.name

/-- A stored previous column that is the source of no move is unaltered, or becomes a
key column. -/
theorem image_of_no_move (hd : IsColumnDiff previous next columns) {p : Column}
    (hp : p ∈ previous.columns) (hpk : isPrimaryKey previous p = false)
    (hno : ∀ m ∈ fieldMoves previous next columns, m.src ≠ p.name) :
    ∃ n, Image next columns p n ∧ (n.name = p.name ∨ isPrimaryKey next n = true) := by
  by_cases hun : Untouched columns p
  · obtain ⟨n, hn, hname⟩ := hd.kept p hp hun
    exact ⟨n, Or.inr ⟨hun, hn, hname⟩, Or.inl hname⟩
  · simp only [Untouched, not_forall, not_not] at hun
    obtain ⟨d, hdm, hprev⟩ := hun
    cases d with
    | add c => exact absurd hprev (by simp [ColumnDiff.previous?])
    | drop c =>
        obtain rfl := Option.some.inj hprev
        exact absurd rfl (hno _ (mem_fieldMoves_drop hdm hpk))
    | alter q n =>
        obtain rfl := Option.some.inj hprev
        refine ⟨n, image_of_alter hdm, ?_⟩
        by_contra hcon
        simp only [not_or, Bool.not_eq_true] at hcon
        exact hno _ (mem_fieldMoves_rename hdm (Ne.symm hcon.1) hpk hcon.2) rfl

/-- **Sufficiency.** A forward plan that strands nothing preserves every row. -/
theorem preserves_of_forward (hd : IsColumnDiff previous next columns)
    (hu : Unguarded previous next columns) (hf : Forward (fieldMoves previous next columns))
    (hs : NoneStranded previous next columns) {row row' : Object} (hc : Conforms previous row)
    (hrow : row'.field = run .none (fieldMoves previous next columns) row.field) :
    Preserves previous next columns row row' := by
  have hplan := fieldMoves_plan hd
  -- an image's name is filled by no other column's move
  have hfill : ∀ p ∈ previous.columns, ∀ n, Image next columns p n →
      ∀ m ∈ fieldMoves previous next columns, m.dst = some n.name →
        ColumnDiff.alter p n ∈ columns ∧ m.src = p.name := by
    intro p hp n hi m hm hdst
    obtain ⟨q, hq, k, hqk, hqs, hkn, _⟩ := dst_of_mem hd hm hdst
    have hkn' : k = n := Table.eq_of_name (hd.alter_mem q k hqk).2 (hi.mem hd) hkn
    subst hkn'
    have hpq := hd.image_inj p hp q hq k hi (image_of_alter hqk)
    subst hpq
    exact ⟨hqk, hqs.symm⟩
  refine ⟨?_, ?_, ?_⟩
  · intro p hp n hi hnk
    have hpk : isPrimaryKey previous p = false := by
      by_contra hk
      have himg := key_image hd hu hp (by simpa using hk) hi
      rw [hnk] at himg
      exact absurd himg (by simp)
    refine ⟨hpk, ?_⟩
    rw [hrow]
    by_cases hname : p.name = n.name
    · -- kept under its name: nothing touches the field
      rw [← hname]
      refine run_frame (fun m hm hsrc => ?_) (fun m hm hdst => ?_)
      · obtain ⟨c, hcm, hcs, _, d, hdm, hprev, hmd⟩ := src_of_mem hd hm
        have hcp : c = p := Table.eq_of_name hcm hp (by rw [hcs, hsrc])
        subst hcp
        rcases hi with hi | ⟨hun, _⟩
        · have hone := hd.unique hdm hi (p := c) hprev rfl
          subst hone
          rcases mem_movesOf.mp hmd with ⟨c', h', _⟩ | ⟨p', n', h', hne, _⟩
          · cases h'
          · cases h'; exact hne hname
        · exact hun d hdm hprev
      · rw [hname] at hdst
        obtain ⟨halt, hsrc⟩ := hfill p hp n hi m hm hdst
        exact hplan.ne_self m hm (by rw [hdst, hsrc, hname])
    · -- renamed: a move fills the field
      have halt : ColumnDiff.alter p n ∈ columns := by
        rcases hi with hi | ⟨_, _, h⟩
        · exact hi
        · exact absurd h.symm hname
      have hm := mem_fieldMoves_rename halt hname hpk hnk
      obtain ⟨hsome, hnone⟩ := run_forward (f := row.field) (z := .none) hplan hf hm rfl
      by_cases hz : row.field p.name = .none
      · obtain ⟨hemptied, hleft⟩ := hnone hz
        rw [hz]
        by_cases hsrc : ∃ k ∈ fieldMoves previous next columns, k.src = n.name
        · exact hemptied hsrc
        · have hno : ∀ k ∈ fieldMoves previous next columns, k.src ≠ n.name :=
            fun k hk he => hsrc ⟨k, hk, he⟩
          rw [hleft hno]
          by_contra hne
          -- a stored column sits on the new name and is not moved away
          obtain ⟨q, hq, hqn, hqk⟩ := hc n.name hne
          obtain ⟨k, hqi, hor⟩ := image_of_no_move hd hq hqk (by rw [hqn]; exact hno)
          rcases hor with hkn | hkk
          · have hkn' : k = n := Table.eq_of_name (hqi.mem hd) (hi.mem hd) (by rw [hkn, hqn])
            subst hkn'
            have hpq := hd.image_inj p hp q hq k hi hqi
            exact hname (by rw [hpq, hqn])
          · exact (hs q hq k hqi hqk hkk).2 p hp n hi hnk hqn.symm
      · exact hsome hz
  · intro c hdc hfree
    rw [hrow]
    have hnofill : ∀ m ∈ fieldMoves previous next columns, m.dst ≠ some c.name := by
      intro m hm hdst
      obtain ⟨p, hp, n, halt, _, hn, hnk⟩ := dst_of_mem hd hm hdst
      exact hfree p hp n (image_of_alter halt) hnk hn
    by_cases hck : isPrimaryKey previous c = true
    · -- a key column is not a field, so there was nothing to drop
      by_contra hne
      have hnomove : ∀ m ∈ fieldMoves previous next columns, m.src ≠ c.name := by
        intro m hm hsrc
        obtain ⟨e, he, hes, hek, _⟩ := src_of_mem hd hm
        have hec : e = c := Table.eq_of_name he (hd.drop_mem c hdc) (by rw [hes, hsrc])
        rw [hec, hck] at hek
        exact absurd hek (by simp)
      rw [run_frame hnomove hnofill] at hne
      obtain ⟨e, he, hen, hek⟩ := hc c.name hne
      have hec : e = c := Table.eq_of_name he (hd.drop_mem c hdc) hen
      rw [hec, hck] at hek
      exact absurd hek (by simp)
    · exact run_src ⟨_, mem_fieldMoves_drop hdc (by simpa using hck), rfl⟩ hnofill
  · intro name hne
    rw [hrow] at hne
    by_cases hfilled : ∃ m ∈ fieldMoves previous next columns, m.dst = some name
    · obtain ⟨m, hm, hdst⟩ := hfilled
      obtain ⟨p, _, n, halt, _, hn, _⟩ := dst_of_mem hd hm hdst
      exact ⟨n, (hd.alter_mem p n halt).2, hn⟩
    · have hnofill : ∀ m ∈ fieldMoves previous next columns, m.dst ≠ some name :=
        fun m hm he => hfilled ⟨m, hm, he⟩
      by_cases hsrc : ∃ m ∈ fieldMoves previous next columns, m.src = name
      · exact absurd (run_src hsrc hnofill) hne
      · have hno : ∀ m ∈ fieldMoves previous next columns, m.src ≠ name :=
          fun m hm he => hsrc ⟨m, hm, he⟩
        rw [run_frame hno hnofill] at hne
        obtain ⟨q, hq, rfl, hqk⟩ := hc name hne
        obtain ⟨k, hqi, hor⟩ := image_of_no_move hd hq hqk hno
        rcases hor with hkn | hkk
        · exact ⟨k, hqi.mem hd, hkn⟩
        · exact (hs q hq k hqi hqk hkk).1

/-- A row that holds one field. -/
def singleRow (name : String) : Object := [(name, .bool true)]

theorem singleRow_field (name other : String) :
    (singleRow name).field other = if name = other then .bool true else .none := by
  by_cases h : name = other <;> simp [singleRow, Object.field, AssocMap.lookup, h]

theorem singleRow_conforms {table : Table} {c : Column} (hc : c ∈ table.columns)
    (hk : isPrimaryKey table c = false) : Conforms table (singleRow c.name) := by
  intro name hne
  rw [singleRow_field] at hne
  split at hne
  · rename_i h; exact ⟨c, hc, h, hk⟩
  · exact absurd rfl hne

section Necessity

variable {migrate : Object → Object}

/-- **Necessity of the order.** If the plan is not forward, some row loses a value. -/
theorem forward_of_preserves (hd : IsColumnDiff previous next columns)
    (hrun : ∀ row, (migrate row).field = run .none (fieldMoves previous next columns) row.field)
    (h : ∀ row, Conforms previous row → Preserves previous next columns row (migrate row)) :
    Forward (fieldMoves previous next columns) := by
  by_contra hnf
  obtain ⟨pre, a, mid, b, post, hms, hab⟩ := exists_of_not_forward hnf
  have ham : a ∈ fieldMoves previous next columns := by rw [hms]; simp
  obtain ⟨p, hp, n, halt, hps, hns, hnk⟩ := dst_of_mem hd ham hab
  obtain ⟨c, hc, hcs, hck, _⟩ := src_of_mem hd ham
  have hcp : c = p := Table.eq_of_name hc hp (by rw [hcs, hps])
  subst hcp
  -- a row that holds only the source of the earlier move
  have hpres := h (singleRow c.name) (singleRow_conforms hc hck)
  have hkept := (hpres.kept c hp n (image_of_alter halt) hnk).2
  have hlost : (migrate (singleRow c.name)).field n.name = .none := by
    rw [hrun, hns, hms]
    refine run_single (hms ▸ fieldMoves_plan hd) hab fun x hx => ?_
    rw [singleRow_field, if_neg (hps ▸ Ne.symm hx)]
  rw [hlost, singleRow_field, if_pos rfl] at hkept
  exact absurd hkept (by simp)

/-- **Necessity of stranding nothing.** A stored column that becomes a key column
leaves its value in a field that is not its own any more. -/
theorem noneStranded_of_preserves (hd : IsColumnDiff previous next columns)
    (hrun : ∀ row, (migrate row).field = run .none (fieldMoves previous next columns) row.field)
    (h : ∀ row, Conforms previous row → Preserves previous next columns row (migrate row)) :
    NoneStranded previous next columns := by
  intro p hp n hi hpk hnk
  have hnosrc : ∀ m ∈ fieldMoves previous next columns, m.src ≠ p.name := by
    intro m hm hsrc
    obtain ⟨c, hc, hcs, _, d, hdm, hprev, hmd⟩ := src_of_mem hd hm
    have hcp : c = p := Table.eq_of_name hc hp (by rw [hcs, hsrc])
    subst hcp
    rcases hi with hi | ⟨hun, _⟩
    · have hone := hd.unique hdm hi (p := c) hprev rfl
      subst hone
      rcases mem_movesOf.mp hmd with ⟨c', h', _⟩ | ⟨p', n', h', _, _, hn', _⟩
      · cases h'
      · cases h'
        rw [hnk] at hn'
        exact absurd hn' (by simp)
    · exact hun d hdm hprev
  have hpres := h (singleRow p.name) (singleRow_conforms hp hpk)
  -- every source is empty in that row, so it is left as it is
  have hstay : (migrate (singleRow p.name)).field = (singleRow p.name).field := by
    rw [hrun]
    refine run_empty_sources fun m hm => ?_
    rw [singleRow_field, if_neg (fun he => hnosrc m hm he.symm)]
  refine ⟨hpres.only p.name ?_, ?_⟩
  · rw [hstay, singleRow_field, if_pos rfl]
    exact fun hcon => nomatch hcon
  · intro q hq m hqi hmk hname
    have hkept := (hpres.kept q hq m hqi hmk).2
    rw [hstay, hname, singleRow_field, if_pos rfl, singleRow_field] at hkept
    split at hkept
    · rename_i hpq
      -- `q` would be `p` itself, whose image is a key column
      have hqp : q = p := Table.eq_of_name hq hp hpq.symm
      subst hqp
      have hmn : m.name ≠ n.name := by
        intro he
        have hmn := Table.eq_of_name (hqi.mem hd) (hi.mem hd) he
        rw [hmn, hnk] at hmk
        exact absurd hmk (by simp)
      rcases hi with hi | ⟨hun, _, hnn⟩
      · rcases hqi with hqi | ⟨hun, _⟩
        · have hone := hd.unique hi hqi (p := q) rfl rfl
          exact hmn (by rw [(ColumnDiff.alter.inj hone).2])
        · exact hun _ hi rfl
      · exact hmn (by rw [hname, hnn])
    · exact absurd hkept (by simp)

end Necessity

/-- **A migration without guards preserves the data exactly when its moves are
forward and it strands nothing.** -/
theorem migration_preserves_iff (hd : IsColumnDiff previous next columns)
    (hg : GuardFree (renderAlterTable previous next columns indices [])) :
    (∀ rows : List Object, (∀ row ∈ rows, Conforms previous row) →
      List.Forall₂ (Preserves previous next columns) rows
        (runData (renderAlterTable previous next columns indices []) rows)) ↔
      Forward (fieldMoves previous next columns) ∧ NoneStranded previous next columns := by
  have hrun := runData_fields hg
  constructor
  · intro h
    have hone : ∀ row, Conforms previous row → Preserves previous next columns row
        ((renderAlterTable previous next columns indices []).foldl
          (fun r s => s.runRow r) row) := by
      intro row hc
      have hrow := h [row] (by simpa using hc)
      rw [runData_eq_map] at hrow
      exact (List.forall₂_cons.mp hrow).1
    exact ⟨forward_of_preserves hd hrun hone, noneStranded_of_preserves hd hrun hone⟩
  · rintro ⟨hf, hs⟩ rows hc
    rw [runData_eq_map, List.forall₂_map_right_iff, List.forall₂_same]
    exact fun row hrow => preserves_of_forward hd (unguarded_of_guardFree hg) hf hs (hc row hrow)
      (hrun row)

/-! ### A chain of renames -/

/-- A key column and two text columns, `a` and `b`. -/
def chainPrevious : Table where
  id := 0
  name := "items"
  columns := [⟨⟨0, 0⟩, "key", .i64, .integer 8⟩, ⟨⟨0, 1⟩, "a", .string, .text⟩,
    ⟨⟨0, 2⟩, "b", .string, .text⟩]
  primaryKey := [⟨0, 0⟩]
  indices := []

/-- The same with `a` renamed to `b` and `b` to `c`. -/
def chainNext : Table where
  id := 0
  name := "items"
  columns := [⟨⟨0, 0⟩, "key", .i64, .integer 8⟩, ⟨⟨0, 1⟩, "b", .string, .text⟩,
    ⟨⟨0, 2⟩, "c", .string, .text⟩]
  primaryKey := [⟨0, 0⟩]
  indices := []

def renameFirst : ColumnDiff := .alter ⟨⟨0, 1⟩, "a", .string, .text⟩ ⟨⟨0, 1⟩, "b", .string, .text⟩
def renameSecond : ColumnDiff := .alter ⟨⟨0, 2⟩, "b", .string, .text⟩ ⟨⟨0, 2⟩, "c", .string, .text⟩

theorem chain_isColumnDiff {columns : List ColumnDiff}
    (h : columns = [renameFirst, renameSecond] ∨ columns = [renameSecond, renameFirst]) :
    IsColumnDiff chainPrevious chainNext columns := by
  rcases h with rfl | rfl <;>
  refine ⟨by simp [renameFirst, renameSecond], ?_, ?_, ?_, ?_⟩ <;>
  simp [renameFirst, renameSecond, chainPrevious, chainNext, Untouched, Image,
    ColumnDiff.previous?] <;>
  rintro p n (⟨rfl, rfl⟩ | ⟨rfl, rfl⟩) <;> simp

/-- A row with a value in both columns. -/
def chainRow : Object := [("a", .string "x"), ("b", .string "y")]

theorem chainRow_conforms : Conforms chainPrevious chainRow := by
  intro name hne
  by_cases ha : name = "a"
  · exact ⟨⟨⟨0, 1⟩, "a", .string, .text⟩, by simp [chainPrevious], ha.symm, by decide⟩
  · by_cases hb : name = "b"
    · exact ⟨⟨⟨0, 2⟩, "b", .string, .text⟩, by simp [chainPrevious], hb.symm, by decide⟩
    · exact absurd (by simp [chainRow, Object.field, AssocMap.lookup, Ne.symm ha, Ne.symm hb]) hne

/-- In the order of the columns the second rename moves what the first one wrote:
`b` is overwritten before it is read, and `a`'s value ends up in `c`. -/
theorem chained_rename_loses_data :
    IsColumnDiff chainPrevious chainNext [renameFirst, renameSecond] ∧
    GuardFree (renderAlterTable chainPrevious chainNext [renameFirst, renameSecond] [] []) ∧
    runData (renderAlterTable chainPrevious chainNext [renameFirst, renameSecond] [] [])
    [chainRow] =
      [[("c", .string "x")]] ∧
    ¬ ∀ rows : List Object, (∀ row ∈ rows, Conforms chainPrevious row) →
      List.Forall₂ (Preserves chainPrevious chainNext [renameFirst, renameSecond]) rows
        (runData (renderAlterTable chainPrevious chainNext [renameFirst, renameSecond] [] [])
          rows) := by
  refine ⟨chain_isColumnDiff (Or.inl rfl), by decide, rfl, fun h => ?_⟩
  have hrow := h [chainRow] (fun row hrow => List.mem_singleton.mp hrow ▸ chainRow_conforms)
  have hkept := ((List.forall₂_cons.mp hrow).1.kept ⟨⟨0, 1⟩, "a", .string, .text⟩
    (by simp [chainPrevious]) ⟨⟨0, 1⟩, "b", .string, .text⟩
    (Or.inl (by simp [renameFirst])) (by decide)).2
  exact absurd hkept (fun hcon => nomatch (show SurValue.none = .string "x" from hcon))

theorem chain_noneStranded :
    NoneStranded chainPrevious chainNext [renameSecond, renameFirst] := by
  intro p hp n hi hpk hnk
  simp only [chainPrevious, List.mem_cons, List.not_mem_nil, or_false] at hp
  rcases hp with rfl | rfl | rfl
  · exact absurd hpk (by decide)
  · rcases hi with hi | hi <;> simp [renameFirst, renameSecond, Untouched,
      ColumnDiff.previous?] at hi
    subst hi; exact absurd hnk (by decide)
  · rcases hi with hi | hi <;> simp [renameFirst, renameSecond, Untouched,
      ColumnDiff.previous?] at hi
    subst hi; exact absurd hnk (by decide)

/-- The same two renames in the other order are safe. -/
theorem chained_rename_in_order_preserves :
    List.Forall₂ (Preserves chainPrevious chainNext [renameSecond, renameFirst]) [chainRow]
      [[("c", .string "y"), ("b", .string "x")]] :=
  (@migration_preserves_iff chainPrevious chainNext [renameSecond, renameFirst] []
      (chain_isColumnDiff (Or.inr rfl)) (by decide)).mpr
    ⟨by decide, chain_noneStranded⟩ [chainRow]
    (fun row hrow => List.mem_singleton.mp hrow ▸ chainRow_conforms)

end ToastySurreal
