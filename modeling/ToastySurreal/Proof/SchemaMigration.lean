import ToastySurreal.Proof.Guards
import ToastySurreal.Proof.SchemaCatalog
import ToastySurreal.Proof.Scripts

/-!
# Migrating a whole schema

A database is its tables, each with its indices and its rows, and a migration runs over all
of it. Every statement is about one table, so a script can be read table by table
(`Catalog.changeAll_iff`), and of one name there is at most one table that is dropped, made
or altered. A migration that was generated without guards runs through, unless the database
refuses it for what its rows are: it turns the definitions of the previous schema into those
of the next and moves the rows of each table it alters. From version to version it comes to
what a push of the last version defines.
-/

namespace ToastySurreal

open Moves Prog Prog.Pool

/-! ## The database -/

/-- A defined table: its indices, and its rows by record key. -/
structure StoredTable (κ : Type) where
  indices : TableDef
  rows : κ → Option Object

abbrev TableStore (κ : Type) := String → Option (StoredTable κ)

variable {κ : Type}

def TableStore.definitions (c : TableStore κ) : SchemaCatalog := fun name =>
    (c name).map StoredTable.indices

def TableStore.row (c : TableStore κ) (name : String) (k : κ) : Option Object :=
  (c name).bind fun t => t.rows k

/-- What an index or data statement does to its table. -/
def Statement.runTable (s : Statement) (t : StoredTable κ) : Option (StoredTable κ) :=
  match s with
  | .defineIndex index _ columns unique ifNotExists =>
      if ifNotExists ∧ (t.indices index).isSome then some t
      else (Catalog.define index ⟨columns, unique⟩ t.indices).map fun d => { t with indices := d }
  | .removeIndex index _ => (Catalog.remove index t.indices).map fun d => { t with indices := d }
  | .updateSet .. | .updateUnset .. => some { t with rows := fun k => (t.rows k).map s.runRow }
  | _ => none

/-- The table a statement is about. -/
def Statement.tableName : Statement → String
  | .defineTable table _ | .removeTable table | .defineIndex _ table .. | .removeIndex _ table
  | .updateSet table .. | .updateUnset table _ => table
  | .throw _ | .returnNone => ""

/-- What a statement does to the entry of its table; `none` when what is defined makes the
database refuse it. That it may refuse it for the rows, as where they do not suit a unique
index, is left to `RunsThrough`. -/
def Statement.act (s : Statement) (e : Option (StoredTable κ)) : Option (Option (StoredTable κ)) :=
  match s with
  | .defineTable _ ifNotExists =>
      if e.isSome then (if ifNotExists then some e else none) else some
        (some ⟨fun _ => none, fun _ => none⟩)
  | .removeTable _ => if e.isSome then some none else none
  | .throw _ => none
  | .returnNone => some e
  | .defineIndex .. | .removeIndex .. | .updateSet .. | .updateUnset .. => do
      let t ← e
      (s.runTable t).map some

/-- A list of statements, run in order; the first refusal stops it. -/
def runStore (ss : List Statement) (c : TableStore κ) : Option (TableStore κ) :=
  Catalog.changeAll Statement.tableName Statement.act ss c

/-! ## One table -/

/-- An index or data statement of the table of this name. -/
def Statement.IsWithin (name : String) : Statement → Prop
  | .defineIndex _ table .. | .removeIndex _ table | .updateSet table .. | .updateUnset table _ =>
      table = name
  | _ => False

/-- The indices of one table in the catalog of all indices. -/
def placed (name : String) (d : TableDef) : IndexCatalog := fun k =>
    if k.1 = name then d k.2 else none

theorem placed_update (name index : String) (d : TableDef) (i : Option IndexDef) :
    Function.update (placed name d) (name, index) i = placed name (Function.update d index i) := by
  funext k
  obtain ⟨table, ix⟩ := k
  by_cases ht : table = name
  · subst ht
    by_cases hix : ix = index
    · subst hix; simp [placed]
    · rw [Function.update_of_ne (by simpa using hix)]
      simp [placed, Function.update_of_ne hix]
  · rw [Function.update_of_ne (by simp [ht])]
    simp [placed, ht]

theorem placed_inj {name : String} {d d' : TableDef} (h : placed name d = placed name d') :
    d = d' := by
  funext ix
  have hix := congrFun h (name, ix)
  simpa [placed] using hix

/-- **One statement on its table** does to the indices what it does to the catalog, and to
each row what it does to a row. -/
theorem runTable_of_runCatalog {s : Statement} {name : String} {t : StoredTable κ}
    {c : IndexCatalog} (hs : s.IsWithin name) (h : s.runCatalog (placed name t.indices) = some c) :
    ∃ d, c = placed name d ∧ s.runTable t = some ⟨d, fun k => (t.rows k).map s.runRow⟩ := by
  have hrows : ∀ s : Statement, (∀ row, s.runRow row = row) →
      (fun k => (t.rows k).map s.runRow) = t.rows := by
    intro s hrow
    funext k
    cases t.rows k with
    | none => rfl
    | some row => rw [Option.map_some, hrow]
  cases s with
  | defineIndex index table columns unique b =>
      obtain rfl : table = name := hs
      have hat : placed table t.indices (table, index) = t.indices index := by simp [placed]
      rw [Statement.runCatalog, hat] at h
      rw [Statement.runTable, hrows _ fun _ => rfl]
      split at h
      · rename_i hthere
        injection h with h
        exact ⟨t.indices, h.symm, by rw [if_pos hthere]⟩
      · rename_i hthere
        rw [Catalog.define, hat] at h
        split at h
        · exact absurd h (by simp)
        · rename_i hfree
          injection h with h
          rw [placed_update] at h
          exact ⟨_, h.symm, by rw [if_neg hthere, Catalog.define, if_neg hfree]; rfl⟩
  | removeIndex index table =>
      obtain rfl : table = name := hs
      have hat : placed table t.indices (table, index) = t.indices index := by simp [placed]
      rw [Statement.runCatalog, Catalog.remove, hat] at h
      rw [Statement.runTable, hrows _ fun _ => rfl]
      split at h
      · rename_i hthere
        injection h with h
        rw [placed_update] at h
        exact ⟨_, h.symm, by rw [Catalog.remove, if_pos hthere]; rfl⟩
      · exact absurd h (by simp)
  | updateSet table next previous | updateUnset table column =>
      injection h with h
      exact ⟨t.indices, h.symm, rfl⟩
  | defineTable | removeTable | throw | returnNone => exact hs.elim

/-- **A list of statements on one table**, likewise. -/
theorem actAll_of_runCatalog {name : String} :
    ∀ {ss : List Statement} {t : StoredTable κ} {d : TableDef},
    (∀ s ∈ ss, s.IsWithin name) → runCatalog ss (placed name t.indices) = some (placed name d) →
    Catalog.actAll Statement.act ss (some t) =
      some (some ⟨d, fun k => (t.rows k).map fun row => ss.foldl (fun r s => s.runRow r) row⟩)
  | [], t, d, _, h => by
      injection h with h
      rw [← placed_inj h]
      simp [Catalog.actAll]
  | s :: ss, t, d, hs, h => by
      have hwithin := hs s List.mem_cons_self
      obtain ⟨c, hc, hrest⟩ := Option.bind_eq_some_iff.mp h
      obtain ⟨d₁, rfl, hrun⟩ := runTable_of_runCatalog hwithin hc
      have hact : s.act (some t) = some (some ⟨d₁, fun k => (t.rows k).map s.runRow⟩) := by
        cases s with
        | defineTable | removeTable | throw | returnNone => exact hwithin.elim
        | defineIndex | removeIndex | updateSet | updateUnset =>
            rw [Statement.act, Option.bind_eq_bind, Option.bind_some, hrun, Option.map_some]
      rw [Catalog.actAll, hact, Option.bind_some,
        actAll_of_runCatalog (t := ⟨d₁, fun k => (t.rows k).map s.runRow⟩)
          (fun s' hs' => hs s' (List.mem_cons_of_mem _ hs')) hrest]
      simp [Option.map_map, Function.comp_def]

/-! ## One diff -/

theorem placed_definition (t : Table) :
    placed t.name t.definition = Catalog.ofList (t.secondary.map t.indexEntry) := by
  funext k
  refine Option.ext fun i => ?_
  rw [Catalog.ofList_eq_some (nodup_entries (fun _ h => h) (secondary_nodup t)), List.mem_map]
  constructor
  · intro h
    rw [placed] at h
    split at h
    · rename_i hk
      obtain ⟨jx, hjx, hname, rfl⟩ := mem_definition.mp h
      exact ⟨jx, hjx, by rw [Table.indexEntry, ← hk, hname]⟩
    · exact absurd h (by simp)
  · rintro ⟨jx, hjx, he⟩
    rw [Table.indexEntry] at he
    obtain ⟨rfl, rfl⟩ := Prod.mk.inj he
    rw [placed, if_pos rfl]
    exact mem_definition.mpr ⟨jx, hjx, rfl, rfl⟩

/-- Column and index changes between two tables. -/
def IsTableDiff (previous next : Table) (columns : List ColumnDiff) (indices : List IndexDiff) :
    Prop :=
  IsColumnDiff previous next columns ∧ ∃ Matched, IsIndexDiff previous next columns indices Matched

variable {previous next : Table} {columns : List ColumnDiff} {indices : List IndexDiff}

theorem isWithin_renderAlterTable (hd : IsTableDiff previous next columns indices)
    (hg : GuardFree (renderAlterTable previous next columns indices [])) :
    ∀ s ∈ renderAlterTable previous next columns indices [], s.IsWithin next.name := by
  obtain ⟨_, Matched, hx⟩ := hd
  intro s hs
  rw [renderAlterTable_of_guardFree hg, List.mem_append, List.mem_append] at hs
  rcases hs with (hs | hs) | hs
  · obtain ⟨ix, _, _, rfl⟩ :=
      (mem_allRemovals hx).mp ((mem_pushAll hs).resolve_left List.not_mem_nil)
    exact (unguarded_of_guardFree hg).name_eq
  · obtain ⟨jx, _, _, rfl⟩ :=
      (mem_allDefinitions hx).mp ((mem_pushAll hs).resolve_left List.not_mem_nil)
    exact rfl
  · obtain ⟨d, _, hs⟩ := List.mem_flatMap.mp hs
    cases d with
    | add c => exact absurd hs List.not_mem_nil
    | drop c =>
        rw [dataOf] at hs
        split at hs
        · exact absurd hs List.not_mem_nil
        · rw [List.mem_singleton.mp hs]
          exact rfl
    | alter p n =>
        obtain ⟨r, _, hs⟩ := List.mem_flatMap.mp hs
        simp only [List.mem_cons, List.not_mem_nil, or_false] at hs
        rcases hs with rfl | rfl <;> exact rfl

/-- What an alteration makes of a stored table. -/
def alteredTable (previous next : Table) (columns : List ColumnDiff) (indices : List IndexDiff)
    (rows : κ → Option Object) : StoredTable κ :=
  ⟨next.definition, fun k => (rows k).map fun row =>
    (renderAlterTable previous next columns indices []).foldl (fun r s => s.runRow r) row⟩

/-- **An altered table** is defined as the next one, with its rows moved. -/
theorem actAll_alter (hd : IsTableDiff previous next columns indices) (hp : StoredIndices previous)
    (hn : StoredIndices next) (hg : GuardFree (renderAlterTable previous next columns indices []))
    (rows : κ → Option Object) :
    Catalog.actAll Statement.act (renderAlterTable previous next columns indices [])
      (some ⟨previous.definition, rows⟩) = some
      (some (alteredTable previous next columns indices rows)) := by
  obtain ⟨hcols, Matched, hx⟩ := hd
  have hname := (unguarded_of_guardFree hg).name_eq
  refine actAll_of_runCatalog (isWithin_renderAlterTable ⟨hcols, Matched, hx⟩ hg) ?_
  rw [placed_definition next, ← hname, placed_definition previous]
  exact runCatalog_renderAlterTable hcols hx hp hn hg

/-- **A created table** is defined, and empty. -/
theorem actAll_create (t : Table) :
    Catalog.actAll Statement.act (defineTableStatements t false) none =
    some (some (⟨t.definition, fun _ => none⟩ : StoredTable κ)) := by
  have hempty : (placed t.name fun _ => none) = (fun _ => none : IndexCatalog) := by
    funext k
    simp [placed]
  have hrun : runCatalog ((t.indices.filter fun ix => !ix.primaryKey).map fun ix =>
      defineIndexStatement t ix false) (placed t.name fun _ => none) =
        some (placed t.name t.definition) := by
    rw [hempty, placed_definition]
    exact runCatalog_defineTable t false
  have hwithin : ∀ s ∈ (t.indices.filter fun ix => !ix.primaryKey).map fun ix =>
      defineIndexStatement t ix false, s.IsWithin t.name := by
    intro s hs
    obtain ⟨ix, _, rfl⟩ := List.mem_map.mp hs
    exact rfl
  rw [defineTableStatements, Catalog.actAll, Statement.act, Option.isSome_none, if_neg (by simp),
    Option.bind_some, actAll_of_runCatalog (t := ⟨fun _ => none, fun _ => none⟩) hwithin hrun]
  rfl

/-- A pair of tables without a change between them is defined alike. -/
theorem same_definition (hname : previous.name = next.name) (hd : IsTableDiff previous next [] [])
    (hp : StoredIndices previous) (hn : StoredIndices next) : previous.definition =
    next.definition := by
  obtain ⟨hcols, Matched, hx⟩ := hd
  have hremoved : ∀ ix, ¬ Removed previous next [] [] ix := by
    rintro ix (h | ⟨_, h⟩ | ⟨r, h, _⟩)
    · exact absurd h List.not_mem_nil
    · exact absurd h List.not_mem_nil
    · exact absurd (mem_renamedColumns.mp h).1 List.not_mem_nil
  have hdefined : ∀ jx, ¬ Defined previous next [] [] jx := by
    rintro jx (h | ⟨_, h⟩ | ⟨r, h, _⟩)
    · exact absurd h List.not_mem_nil
    · exact absurd h List.not_mem_nil
    · exact absurd (mem_renamedColumns.mp h).1 List.not_mem_nil
  funext name
  refine Option.ext fun i => ⟨fun h => ?_, fun h => ?_⟩
  · obtain ⟨ix, hi, rfl, rfl⟩ := mem_definition.mp h
    obtain ⟨jx, hj, _, hsame⟩ := standing_left hcols hx hname hp hn hi (hremoved ix)
    obtain ⟨hkey, hdef⟩ := Prod.mk.inj hsame
    exact mem_definition.mpr ⟨jx, hj, (Prod.mk.inj hkey).2.symm, hdef⟩
  · obtain ⟨jx, hj, rfl, rfl⟩ := mem_definition.mp h
    obtain ⟨ix, hi, _, hsame⟩ := standing_right hcols hx hname hp hn hj (hdefined jx)
    obtain ⟨hkey, hdef⟩ := Prod.mk.inj hsame
    exact mem_definition.mpr ⟨ix, hi, (Prod.mk.inj hkey).2, hdef.symm⟩

/-! ## A schema diff -/

/-- The table a diff is made for: a previous one, or one that is created. -/
def TableDiff.subject : TableDiff → Table ⊕ Table
  | .create table => .inr table
  | .drop table => .inl table
  | .alter previous _ _ _ => .inl previous

/-- A list of table changes between two schemas, for a matching of their tables: tables of
one name are matched unless the previous one is renamed, what has no counterpart is dropped
or created, and a matched pair is altered unless there is no change between them. -/
structure IsSchemaDiff (previous next : List Table) (diffs : List TableDiff)
    (Matched : Table → Table → Prop) : Prop where
  matched_mem : ∀ p n, Matched p n → p ∈ previous ∧ n ∈ next
  matched_fun : ∀ p n m, Matched p n → Matched p m → n = m
  matched_inj : ∀ p q n, Matched p n → Matched q n → p = q
  matched_name : ∀ p ∈ previous, ∀ n ∈ next, p.name = n.name →
    Matched p n ∨ ∃ m, Matched p m ∧ p.name ≠ m.name
  create_iff : ∀ n, TableDiff.create n ∈ diffs ↔ n ∈ next ∧ ∀ p, ¬ Matched p n
  drop_iff : ∀ p, TableDiff.drop p ∈ diffs ↔ p ∈ previous ∧ ∀ n, ¬ Matched p n
  altered : ∀ p n columns indices, TableDiff.alter p n columns indices ∈ diffs →
    Matched p n ∧ IsTableDiff p n columns indices
  unaltered : ∀ p n, Matched p n →
    (∀ columns indices, TableDiff.alter p n columns indices ∉ diffs) →
    p.name = n.name ∧ IsTableDiff p n [] []
  /-- A table is mentioned at most once. -/
  once : (diffs.map TableDiff.subject).Nodup

/-- The tables of a schema have distinct names, and list stored columns in their secondary
indices. -/
structure ValidSchema (tables : List Table) : Prop where
  names : (tables.map Table.name).Nodup
  stored : ∀ t ∈ tables, StoredIndices t

/-- **A generated migration without guards** is what its diffs add, and renames no table. -/
theorem foldl_generateStep : ∀ {diffs : List TableDiff} {ss : List Statement},
    GuardFree (diffs.foldl generateStep ss) →
    diffs.foldl generateStep ss = ss ++ diffs.flatMap (added []) ∧
      ∀ p n columns indices, TableDiff.alter p n columns indices ∈ diffs → p.name = n.name
  | [], ss, _ => ⟨by simp, fun _ _ _ _ h => absurd h List.not_mem_nil⟩
  | d :: diffs, ss, h => by
      rw [List.foldl_cons] at h ⊢
      obtain ⟨hfold, hnames⟩ := foldl_generateStep h
      have hname : ∀ p n columns indices, d = .alter p n columns indices → p.name = n.name := by
        rintro p n columns indices rfl
        by_contra hne
        -- the guard is among the statements, whether this diff adds it or an earlier one did
        have hthrow : ∃ s ∈ generateStep ss (.alter p n columns indices), s.isThrow = true := by
          rw [generateStep, renderAlterTable, if_pos hne, pushUnique]
          split
          · rename_i hmem
            obtain ⟨s, hs, htext⟩ := List.mem_map.mp hmem
            exact ⟨s, hs, throw_of_text htext⟩
          · exact ⟨_, List.mem_append_right _ (List.mem_singleton.mpr rfl), rfl⟩
        obtain ⟨s, hs, hthrow⟩ := hthrow
        rw [hfold] at h
        exact absurd (h s (List.mem_append_left _ hs)) (by rw [hthrow]; simp)
      have hadded : added ss d = added [] d := by
        cases d with
        | create t => rfl
        | drop t => rfl
        | alter p n columns indices =>
            simp only [added, if_neg (not_not.mpr (hname p n columns indices rfl))]
      refine ⟨by rw [hfold, generateStep_eq, hadded, List.flatMap_cons, List.append_assoc], ?_⟩
      intro p n columns indices hmem
      rcases List.mem_cons.mp hmem with he | hmem
      · exact hname p n columns indices he.symm
      · exact hnames p n columns indices hmem

/-! ## The whole script, name by name -/

/-- The name of the table a diff is about. -/
def TableDiff.name : TableDiff → String
  | .create table | .drop table => table.name
  | .alter _ next _ _ => next.name

theorem added_alter : added [] (.alter previous next columns indices) =
    renderAlterTable previous next columns indices [] :=
  (List.nil_append _).symm.trans (generateStep_eq [] (.alter previous next columns indices)).symm

theorem completed_of_mem {tables : List Table} (hn : (tables.map Table.name).Nodup) {t : Table}
    (ht : t ∈ tables) : completed (fun _ => none) tables t.name = some t.definition := by
  have hkeys : ((tables.map fun t => (t.name, t.definition)).map Prod.fst).Nodup := by
    rw [List.map_map]
    exact hn
  have hlookup : AssocMap.lookup t.name (tables.map fun t => (t.name, t.definition)) =
      some t.definition :=
    AssocMap.lookup_of_mem hkeys (List.mem_map.mpr ⟨t, ht, rfl⟩)
  simp [completed, hlookup]

theorem completed_of_not_mem {tables : List Table} {name : String}
    (h : ∀ t ∈ tables, t.name ≠ name) : completed (fun _ => none) tables name = none := by
  have hlookup : AssocMap.lookup name (tables.map fun t => (t.name, t.definition)) = none := by
    refine AssocMap.lookup_eq_none.mpr fun hmem => ?_
    rw [List.map_map] at hmem
    obtain ⟨t, ht, hname⟩ := List.mem_map.mp hmem
    exact h t ht hname
  simp [completed, hlookup]

/-- What an alteration makes of a row: its fields are moved as the column changes say, which
loses nothing where the moves are forward and strand nothing. -/
structure RowMoved (previous next : Table) (columns : List ColumnDiff) (row row' : Object) :
    Prop where
  fields : row'.field = run .none (fieldMoves previous next columns) row.field
  preserved : Forward (fieldMoves previous next columns) → NoneStranded previous next columns →
    Conforms previous row → Preserves previous next columns row row'

/-- What a migration makes of the entry of a name. -/
inductive MigratedAt (previous next : List Table) (diffs : List TableDiff)
    (Matched : Table → Table → Prop)
    (name : String) : Option (StoredTable κ) → Option (StoredTable κ) → Prop
  | created {n : Table} (h : .create n ∈ diffs) (hname : n.name = name) :
      MigratedAt previous next diffs Matched name none (some ⟨n.definition, fun _ => none⟩)
  | dropped {p : Table} {rows : κ → Option Object} (h : .drop p ∈ diffs) (hname : p.name = name) :
      MigratedAt previous next diffs Matched name (some ⟨p.definition, rows⟩) none
  | altered {p n : Table} {columns : List ColumnDiff} {indices : List IndexDiff}
      {rows rows' : κ → Option Object} (h : .alter p n columns indices ∈ diffs)
      (hname : n.name = name) (hrows : ∀ k, Option.Rel (RowMoved p n columns) (rows k) (rows' k)) :
      MigratedAt previous next diffs Matched name (some ⟨p.definition, rows⟩)
      (some ⟨n.definition, rows'⟩)
  | unaltered {p n : Table} {rows : κ → Option Object} (h : Matched p n)
      (hno : ∀ columns indices, .alter p n columns indices ∉ diffs) (hname : n.name = name) :
      MigratedAt previous next diffs Matched name (some ⟨p.definition, rows⟩)
      (some ⟨n.definition, rows⟩)
  | absent (hp : ∀ p ∈ previous, p.name ≠ name) (hn : ∀ n ∈ next, n.name ≠ name) :
      MigratedAt previous next diffs Matched name none none

section Schema

variable {previous next : List Table} {diffs : List TableDiff} {Matched : Table → Table → Prop}

theorem IsSchemaDiff.nodup (hd : IsSchemaDiff previous next diffs Matched) : diffs.Nodup :=
  List.Nodup.of_map _ hd.once

theorem IsSchemaDiff.alter_unique (hd : IsSchemaDiff previous next diffs Matched) {p n n' : Table}
    {columns columns' : List ColumnDiff} {indices indices' : List IndexDiff}
    (h : TableDiff.alter p n columns indices ∈ diffs)
    (h' : TableDiff.alter p n' columns' indices' ∈ diffs) :
    TableDiff.alter p n' columns' indices' = .alter p n columns indices :=
  List.inj_on_of_nodup_map hd.once h' h rfl

theorem IsSchemaDiff.matched_names (hd : IsSchemaDiff previous next diffs Matched)
    (hnames : ∀ p n columns indices, TableDiff.alter p n columns indices ∈ diffs → p.name = n.name)
    {p n : Table} (hm : Matched p n) : p.name = n.name := by
  by_cases halter : ∃ columns indices, TableDiff.alter p n columns indices ∈ diffs
  · obtain ⟨columns, indices, h⟩ := halter
    exact hnames p n columns indices h
  · exact (hd.unaltered p n hm fun columns indices h => halter ⟨columns, indices, h⟩).1

/-- **One table of the previous schema** under a name: it is all the diffs of that name are
about. -/
theorem IsSchemaDiff.of_previous (hd : IsSchemaDiff previous next diffs Matched)
    (hnames : ∀ p n columns indices, TableDiff.alter p n columns indices ∈ diffs → p.name = n.name)
    (hprev : (previous.map Table.name).Nodup) {p : Table} (hp : p ∈ previous) {d : TableDiff}
    (h : d ∈ diffs) (hname : d.name = p.name) :
    d = .drop p ∨ ∃ n columns indices, d = .alter p n columns indices := by
  cases d with
  | create n =>
      obtain ⟨hn, hno⟩ := (hd.create_iff n).mp h
      exfalso
      rcases hd.matched_name p hp n hn hname.symm with hm | ⟨m, hm, hne⟩
      · exact hno p hm
      · exact hne (hd.matched_names hnames hm)
  | drop q =>
      obtain rfl := List.inj_on_of_nodup_map hprev ((hd.drop_iff q).mp h).1 hp hname
      exact .inl rfl
  | alter q n columns indices =>
      have hq := (hd.matched_mem q n (hd.altered _ _ _ _ h).1).1
      obtain rfl := List.inj_on_of_nodup_map hprev hq hp ((hnames _ _ _ _ h).trans hname)
      exact .inr ⟨n, columns, indices, rfl⟩

/-- A name the previous schema has not can only be that of a created table. -/
theorem IsSchemaDiff.of_fresh (hd : IsSchemaDiff previous next diffs Matched)
    (hnames : ∀ p n columns indices, TableDiff.alter p n columns indices ∈ diffs → p.name = n.name)
    {name : String} (hno : ∀ p ∈ previous, p.name ≠ name) {d : TableDiff} (h : d ∈ diffs)
    (hname : d.name = name) : ∃ n, d = .create n := by
  cases d with
  | create n => exact ⟨n, rfl⟩
  | drop q => exact absurd hname (hno q ((hd.drop_iff q).mp h).1)
  | alter q n columns indices =>
      exact absurd ((hnames _ _ _ _ h).trans hname)
        (hno q (hd.matched_mem q n (hd.altered _ _ _ _ h).1).1)

theorem rowMoved_alteredTable {p n : Table} {columns : List ColumnDiff} {indices : List IndexDiff}
    (hd : IsTableDiff p n columns indices)
    (hg : GuardFree (renderAlterTable p n columns indices [])) (rows : κ → Option Object) (k : κ) :
    Option.Rel (RowMoved p n columns) (rows k)
    ((alteredTable p n columns indices rows).rows k) := by
  simp only [alteredTable]
  cases rows k with
  | none => exact .none
  | some row =>
      have hfields := runData_fields hg row
      exact .some ⟨hfields, fun hforward hstrand hc =>
        preserves_of_forward hd.1 (unguarded_of_guardFree hg) hforward hstrand hc hfields⟩

/-- **The statements of one name** bring its entry to the next schema. -/
theorem IsSchemaDiff.entry (hd : IsSchemaDiff previous next diffs Matched)
    (hprev : ValidSchema previous) (hnext : ValidSchema next)
    (hnames : ∀ p n columns indices, TableDiff.alter p n columns indices ∈ diffs → p.name = n.name)
    (hfree : ∀ p n columns indices, TableDiff.alter p n columns indices ∈ diffs →
      GuardFree (renderAlterTable p n columns indices []))
    (name : String) {e : Option (StoredTable κ)}
    (he : e.map StoredTable.indices = completed (fun _ => none) previous name) :
    ∃ e', Catalog.actAll Statement.act ((diffs.filter fun d => d.name = name).flatMap (added []))
    e = some e' ∧
      e'.map StoredTable.indices = completed (fun _ => none) next name ∧
      MigratedAt previous next diffs Matched name e e' := by
  by_cases hthere : ∃ p ∈ previous, p.name = name
  · obtain ⟨p, hp, rfl⟩ := hthere
    rw [completed_of_mem hprev.names hp] at he
    obtain ⟨⟨_, rows⟩, rfl, rfl⟩ := Option.map_eq_some_iff.mp he
    have habout := fun d (h : d ∈ diffs) => hd.of_previous hnames hprev.names hp (d := d) h
    by_cases hmatched : ∃ n, Matched p n
    · obtain ⟨n, hm⟩ := hmatched
      have hname := hd.matched_names hnames hm
      have hn := (hd.matched_mem p n hm).2
      have hnodrop : TableDiff.drop p ∉ diffs := fun h => ((hd.drop_iff p).mp h).2 n hm
      by_cases halter : ∃ columns indices, TableDiff.alter p n columns indices ∈ diffs
      · obtain ⟨columns, indices, h⟩ := halter
        have honly : diffs.filter (fun d => d.name = p.name) = [.alter p n columns indices] := by
          refine Lists.filter_eq_singleton hd.nodup h
            (by simp [TableDiff.name, hname]) fun d hdm hdn => ?_
          rcases habout d hdm (by simpa using hdn) with rfl | ⟨_, _, _, rfl⟩
          · exact absurd hdm hnodrop
          · exact hd.alter_unique h hdm
        have hdiff := (hd.altered p n columns indices h).2
        have hg := hfree p n columns indices h
        refine ⟨some (alteredTable p n columns indices rows), ?_, ?_,
          .altered h hname.symm (rowMoved_alteredTable hdiff hg rows)⟩
        · rw [honly, List.flatMap_singleton, added_alter]
          exact actAll_alter hdiff (hprev.stored p hp) (hnext.stored n hn) hg rows
        · rw [hname, completed_of_mem hnext.names hn]
          rfl
      · have hno : ∀ columns indices, TableDiff.alter p n columns indices ∉ diffs :=
          fun columns indices h => halter ⟨columns, indices, h⟩
        have hnone : diffs.filter (fun d => d.name = p.name) = [] := by
          refine List.filter_eq_nil_iff.mpr fun d hdm hdn => ?_
          rcases habout d hdm (by simpa using hdn) with rfl | ⟨m, columns, indices, rfl⟩
          · exact hnodrop hdm
          · obtain rfl := hd.matched_fun p n m hm (hd.altered p m columns indices hdm).1
            exact hno columns indices hdm
        have hsame := same_definition hname (hd.unaltered p n hm hno).2 (hprev.stored p hp)
          (hnext.stored n hn)
        refine ⟨some ⟨n.definition, rows⟩, ?_, ?_, .unaltered hm hno hname.symm⟩
        · rw [hnone, hsame]
          rfl
        · rw [hname, completed_of_mem hnext.names hn]
          rfl
    · have hdrop : TableDiff.drop p ∈ diffs :=
        (hd.drop_iff p).mpr ⟨hp, fun n hm => hmatched ⟨n, hm⟩⟩
      have honly : diffs.filter (fun d => d.name = p.name) = [.drop p] := by
        refine Lists.filter_eq_singleton hd.nodup hdrop
          (by simp [TableDiff.name]) fun d hdm hdn => ?_
        rcases habout d hdm (by simpa using hdn) with rfl | ⟨n, columns, indices, rfl⟩
        · rfl
        · exact absurd ⟨n, (hd.altered p n columns indices hdm).1⟩ hmatched
      have hgone : ∀ n ∈ next, n.name ≠ p.name := by
        intro n hn hname
        rcases hd.matched_name p hp n hn hname.symm with hm | ⟨m, hm, _⟩
        · exact hmatched ⟨n, hm⟩
        · exact hmatched ⟨m, hm⟩
      refine ⟨none, by rw [honly]; rfl, ?_, .dropped hdrop rfl⟩
      rw [completed_of_not_mem hgone]
      rfl
  · have hno : ∀ p ∈ previous, p.name ≠ name := fun p hp h => hthere ⟨p, hp, h⟩
    rw [completed_of_not_mem hno] at he
    obtain rfl := Option.map_eq_none_iff.mp he
    have habout := fun d (h : d ∈ diffs) => hd.of_fresh hnames hno (d := d) h
    by_cases hnew : ∃ n ∈ next, n.name = name
    · obtain ⟨n, hn, rfl⟩ := hnew
      have hcreate : TableDiff.create n ∈ diffs := (hd.create_iff n).mpr
        ⟨hn, fun p hm => hno p (hd.matched_mem p n hm).1 (hd.matched_names hnames hm)⟩
      have honly : diffs.filter (fun d => d.name = n.name) = [.create n] := by
        refine Lists.filter_eq_singleton hd.nodup hcreate
          (by simp [TableDiff.name]) fun d hdm hdn => ?_
        have hdn : d.name = n.name := by simpa using hdn
        obtain ⟨m, rfl⟩ := habout d hdm hdn
        obtain rfl := List.inj_on_of_nodup_map hnext.names ((hd.create_iff m).mp hdm).1 hn hdn
        rfl
      refine ⟨some ⟨n.definition, fun _ => none⟩, ?_, ?_, .created hcreate rfl⟩
      · rw [honly, List.flatMap_singleton]
        exact actAll_create n
      · rw [completed_of_mem hnext.names hn]
        rfl
    · have hnot : ∀ n ∈ next, n.name ≠ name := fun n hn h => hnew ⟨n, hn, h⟩
      have hnone : diffs.filter (fun d => d.name = name) = [] := by
        refine List.filter_eq_nil_iff.mpr fun d hdm hdn => ?_
        have hdn : d.name = name := by simpa using hdn
        obtain ⟨m, rfl⟩ := habout d hdm hdn
        exact hnot m ((hd.create_iff m).mp hdm).1 hdn
      exact ⟨none, by rw [hnone]; rfl, (completed_of_not_mem hnot).symm, .absent hno hnot⟩

/-- A generated migration without guards, statement by statement. -/
theorem runStore_generate (hg : GuardFree (generate diffs)) (c : TableStore κ) :
    runStore (generate diffs) c = runStore (diffs.flatMap (added [])) c ∧
      (∀ p n columns indices, TableDiff.alter p n columns indices ∈ diffs → p.name = n.name) ∧
      ∀ p n columns indices, TableDiff.alter p n columns indices ∈ diffs →
        GuardFree (renderAlterTable p n columns indices []) := by
  have hgenerate : generate diffs = if (diffs.foldl generateStep []).isEmpty then [.returnNone] else
      diffs.foldl generateStep [] := rfl
  have hfold : GuardFree (diffs.foldl generateStep []) := by
    intro s hs
    rw [hgenerate, if_neg (by rw [List.isEmpty_iff]; exact List.ne_nil_of_mem hs)] at hg
    exact hg s hs
  obtain ⟨hall, hnames⟩ := foldl_generateStep hfold
  rw [List.nil_append] at hall
  refine ⟨?_, hnames, fun p n columns indices h s hs => ?_⟩
  · rw [hgenerate, ← hall]
    split
    · rename_i hempty
      rw [List.isEmpty_iff.mp hempty]
      simp [runStore, Catalog.changeAll, Catalog.change, Statement.act]
    · rfl
  · refine hfold s ?_
    rw [hall]
    exact List.mem_flatMap.mpr ⟨_, h, by rw [added_alter]; exact hs⟩

theorem tableName_added (hd : IsSchemaDiff previous next diffs Matched) {d : TableDiff}
    (h : d ∈ diffs) (hfree : ∀ p n columns indices, TableDiff.alter p n columns indices ∈ diffs →
      GuardFree (renderAlterTable p n columns indices [])) :
    ∀ s ∈ added [] d, s.tableName = d.name := by
  intro s hs
  cases d with
  | create t =>
      rcases List.mem_cons.mp hs with rfl | hs
      · rfl
      · obtain ⟨ix, _, rfl⟩ := List.mem_map.mp hs
        rfl
  | drop t =>
      rw [List.mem_singleton.mp hs]
      rfl
  | alter p n columns indices =>
      rw [added_alter] at hs
      have hwithin := isWithin_renderAlterTable (hd.altered _ _ _ _ h).2 (hfree _ _ _ _ h) s hs
      cases s with
      | defineIndex | removeIndex | updateSet | updateUnset => exact hwithin
      | defineTable | removeTable | throw | returnNone => exact hwithin.elim

/-- Every name at once. -/
theorem IsSchemaDiff.migrates (hd : IsSchemaDiff previous next diffs Matched)
    (hprev : ValidSchema previous) (hnext : ValidSchema next) (hg : GuardFree (generate diffs))
    {c : TableStore κ} (hc : c.definitions = completed (fun _ => none) previous) :
    ∃ c', runStore (generate diffs) c = some c' ∧ c'.definitions = completed (fun _ => none) next ∧
      ∀ name, MigratedAt previous next diffs Matched name (c name) (c' name) := by
  obtain ⟨hrun, hnames, hfree⟩ := runStore_generate hg c
  have hentry := fun name => hd.entry hprev hnext hnames hfree name (congrFun hc name)
  choose c' hact hdef hat using hentry
  refine ⟨c', ?_, funext hdef, hat⟩
  rw [hrun, runStore, Catalog.changeAll_iff]
  intro name
  rw [Lists.filter_flatMap_name name fun d h => tableName_added hd h hfree]
  exact hact name

end Schema

/-- A script that ran through had no guard. -/
theorem guardFree_of_runStore {ss : List Statement} :
    ∀ {c c' : TableStore κ}, runStore ss c = some c' → GuardFree ss := by
  induction ss with
  | nil => exact fun _ s hs => absurd hs List.not_mem_nil
  | cons s ss ih =>
      intro c c' h
      obtain ⟨c₁, hs, hrest⟩ := Option.bind_eq_some_iff.mp h
      intro s' hs'
      rcases List.mem_cons.mp hs' with rfl | hs'
      · cases s' with
        | throw r => exact absurd hs (by simp [Catalog.change, Statement.act])
        | _ => rfl
      · exact ih hrest s' hs'

/-! ## Statements that may be refused -/

section Refusing

variable (accepts : Statement → TableStore κ → Prop)

/-- A list of statements runs through on a database that refuses what it does not accept. What it
does is known of statements that are legible. -/
def RunsThrough : List Statement → TableStore κ → TableStore κ → Prop
  | [], c, c' => c' = c
  | s :: ss, c, c' => accepts s c ∧ ∃ c₁,
      (s.Legible → Catalog.change Statement.tableName Statement.act s c = some c₁) ∧
      RunsThrough ss c₁ c'

/-- No statement of a list is refused but for what is defined. -/
def Accepted : List Statement → TableStore κ → Prop
  | [], _ => True
  | s :: ss, c => accepts s c ∧
      ∀ c₁, Catalog.change Statement.tableName Statement.act s c = some c₁ → Accepted ss c₁

variable {accepts}

/-- **What runs through** is accepted statement by statement, and does what the statements do. -/
theorem runsThrough_iff : ∀ {ss : List Statement} {c c' : TableStore κ}, (∀ s ∈ ss, s.Legible) →
    (RunsThrough accepts ss c c' ↔ runStore ss c = some c' ∧ Accepted accepts ss c)
  | [], c, c', _ => by
      constructor
      · rintro rfl
        exact ⟨rfl, trivial⟩
      · rintro ⟨h, -⟩
        injection h with h
        exact h.symm
  | s :: ss, c, c', hl => by
      have hone := hl s List.mem_cons_self
      have ih : ∀ c₁, RunsThrough accepts ss c₁ c' ↔
          runStore ss c₁ = some c' ∧ Accepted accepts ss c₁ :=
        fun c₁ => runsThrough_iff fun s' hs' => hl s' (List.mem_cons_of_mem _ hs')
      constructor
      · rintro ⟨haccepts, c₁, hchange, hrest⟩
        obtain ⟨hrun, hall⟩ := (ih c₁).mp hrest
        refine ⟨Option.bind_eq_some_iff.mpr ⟨c₁, hchange hone, hrun⟩, haccepts, fun c₂ h₂ => ?_⟩
        rw [hchange hone] at h₂
        injection h₂ with h₂; subst h₂
        exact hall
      · rintro ⟨hrun, haccepts, hall⟩
        obtain ⟨c₁, hchange, hrest⟩ := Option.bind_eq_some_iff.mp hrun
        exact ⟨haccepts, c₁, fun _ => hchange, (ih c₁).mpr ⟨hrest, hall c₁ hchange⟩⟩

end Refusing

/-- **A migration of a whole schema** on a database that is defined as the previous one runs
through exactly if it was generated without guards and the database refuses none of its
statements for the rows. It ends defined as the next schema, with each table's rows where the
diff says. -/
theorem schema_migrates {previous next : List Table} {diffs : List TableDiff}
    {Matched : Table → Table → Prop} (hd : IsSchemaDiff previous next diffs Matched)
    (hprev : ValidSchema previous) (hnext : ValidSchema next) (hl : ∀ s ∈ generate diffs, s.Legible)
    (accepts : Statement → TableStore κ → Prop) {c : TableStore κ}
    (hc : c.definitions = completed (fun _ => none) previous) :
    ((∃ c', RunsThrough accepts (generate diffs) c c') ↔
        GuardFree (generate diffs) ∧ Accepted accepts (generate diffs) c) ∧
      ∀ c', RunsThrough accepts (generate diffs) c c' →
        c'.definitions = completed (fun _ => none) next ∧
        ∀ name, MigratedAt previous next diffs Matched name (c name) (c' name) := by
  have hiff : ∀ c', RunsThrough accepts (generate diffs) c c' ↔
      runStore (generate diffs) c = some c' ∧ Accepted accepts (generate diffs) c := fun c' =>
      runsThrough_iff hl
  refine ⟨⟨fun ⟨c', h⟩ => ?_, fun ⟨hg, hall⟩ => ?_⟩, fun c' h => ?_⟩
  · obtain ⟨hrun, hall⟩ := (hiff c').mp h
    exact ⟨guardFree_of_runStore hrun, hall⟩
  · obtain ⟨c', hrun, _⟩ := hd.migrates hprev hnext hg hc
    exact ⟨c', (hiff c').mpr ⟨hrun, hall⟩⟩
  · obtain ⟨hrun, _⟩ := (hiff c').mp h
    obtain ⟨c₁, h₁, hdef, hat⟩ := hd.migrates hprev hnext (guardFree_of_runStore hrun) hc
    obtain rfl : c₁ = c' := Option.some.inj (h₁.symm.trans hrun)
    exact ⟨hdef, hat⟩

/-- A table is altered, one is dropped and one is created. -/
def itemsDiff : List TableDiff :=
  [.alter itemsPrevious itemsNext [renameValue] [], .drop archive,
    .create (metrics .i64 (.integer 8))]

theorem renameValue_isTableDiff : IsTableDiff itemsPrevious itemsNext [renameValue] [] :=
  ⟨renameValue_isColumnDiff, _, valueIndex_isIndexDiff⟩

theorem items_isSchemaDiff :
    IsSchemaDiff [itemsPrevious, archive] [itemsNext, metrics .i64 (.integer 8)] itemsDiff
    (fun p n => p = itemsPrevious ∧ n = itemsNext) := by
  have hne : archive ≠ itemsPrevious := fun h => absurd (congrArg Table.name h) (by decide)
  have hne' : metrics .i64 (.integer 8) ≠ itemsNext := fun h =>
    absurd (congrArg Table.name h) (by decide)
  refine ⟨?_, ?_, ?_, ?_, ?_, ?_, ?_, ?_, ?_⟩
  · rintro p n ⟨rfl, rfl⟩
    exact ⟨List.mem_cons_self, List.mem_cons_self⟩
  · rintro p n m ⟨_, rfl⟩ ⟨_, rfl⟩
    rfl
  · rintro p q n ⟨rfl, _⟩ ⟨rfl, _⟩
    rfl
  · intro p hp n hn hname
    simp only [List.mem_cons, List.not_mem_nil, or_false] at hp hn
    rcases hp with rfl | rfl <;> rcases hn with rfl | rfl
    · exact .inl ⟨rfl, rfl⟩
    all_goals exact absurd hname (by decide)
  · intro n
    simp only [itemsDiff, List.mem_cons, List.not_mem_nil, or_false, reduceCtorEq, false_or,
      TableDiff.create.injEq]
    constructor
    · rintro rfl
      exact ⟨.inr rfl, fun p h => hne' h.2⟩
    · rintro ⟨rfl | rfl, h⟩
      · exact absurd ⟨rfl, rfl⟩ (h itemsPrevious)
      · rfl
  · intro p
    simp only [itemsDiff, List.mem_cons, List.not_mem_nil, or_false, reduceCtorEq, false_or,
      TableDiff.drop.injEq]
    constructor
    · rintro rfl
      exact ⟨.inr rfl, fun n h => hne h.1⟩
    · rintro ⟨rfl | rfl, h⟩
      · exact absurd ⟨rfl, rfl⟩ (h itemsNext)
      · rfl
  · intro p n columns indices h
    simp only [itemsDiff, List.mem_cons, List.not_mem_nil, or_false, reduceCtorEq,
      TableDiff.alter.injEq] at h
    obtain ⟨rfl, rfl, rfl, rfl⟩ := h
    exact ⟨⟨rfl, rfl⟩, renameValue_isTableDiff⟩
  · rintro p n ⟨rfl, rfl⟩ hno
    exact absurd List.mem_cons_self (hno [renameValue] [])
  · simp [itemsDiff, TableDiff.subject, hne.symm]

theorem valid_items : ValidSchema [itemsPrevious, archive] ∧
    ValidSchema [itemsNext, metrics .i64 (.integer 8)] := by
  refine ⟨⟨by decide, fun t ht => ?_⟩, ⟨by decide, fun t ht => ?_⟩⟩
  all_goals
    simp only [List.mem_cons, List.not_mem_nil, or_false] at ht
    unfold StoredIndices
    rcases ht with rfl | rfl <;> decide

/-- The rows of a table of both are moved. -/
theorem items_migrate : ∃ c', RunsThrough (fun _ _ => True) (generate itemsDiff) (fun name =>
    (completed (fun _ => none) [itemsPrevious, archive] name).map fun d =>
      (⟨d, fun k : Nat => if k = 7 then some [("value", .string "x")] else none⟩ : StoredTable Nat))
        c' ∧ c'.definitions = completed (fun _ => none) [itemsNext, metrics .i64 (.integer 8)] := by
  have hmigrates := schema_migrates items_isSchemaDiff valid_items.1 valid_items.2 (by decide)
    (fun _ _ => True)
    (c := fun name => (completed (fun _ => none) [itemsPrevious, archive] name).map fun d =>
      (⟨d, fun k : Nat => if k = 7 then some [("value", .string "x")] else none⟩ : StoredTable Nat))
    (by funext name; simp [TableStore.definitions, Function.comp_def])
  have haccepted : ∀ {ss : List Statement} {c : TableStore Nat},
      Accepted (fun _ _ => True) ss c := by
    intro ss
    induction ss with
    | nil => exact trivial
    | cons s ss ih => exact ⟨trivial, fun _ _ => ih⟩
  obtain ⟨c', hrun⟩ := hmigrates.1.mpr ⟨by decide, haccepted⟩
  exact ⟨c', hrun, (hmigrates.2 c' hrun).1⟩

/-! ## From version to version -/

/-- The migrations between the versions of a schema, each generated without guards. -/
inductive Versions : List Table → List (List TableDiff) → List Table → Prop
  | nil (tables : List Table) : Versions tables [] tables
  | cons {previous next last : List Table} {diffs : List TableDiff} {rest : List (List TableDiff)}
      {Matched : Table → Table → Prop} (hd : IsSchemaDiff previous next diffs Matched)
      (hnext : ValidSchema next) (hg : GuardFree (generate diffs)) (h : Versions next rest last) :
      Versions previous (diffs :: rest) last

theorem runStore_append : ∀ (ss ts : List Statement) (c : TableStore κ),
    runStore (ss ++ ts) c = (runStore ss c).bind (runStore ts)
  | [], _, _ => rfl
  | s :: ss, ts, c => by
      simp only [runStore, List.cons_append, Catalog.changeAll]
      cases Catalog.change Statement.tableName Statement.act s c with
      | none => rfl
      | some c' => exact runStore_append ss ts c'

/-- The migrations of all versions, one after the other. -/
theorem Versions.run {previous last : List Table} {versions : List (List TableDiff)}
    (h : Versions previous versions last) : ∀ {c : TableStore κ}, ValidSchema previous →
    c.definitions = completed (fun _ => none) previous →
    ∃ c', runStore (versions.flatMap generate) c = some c' ∧
      c'.definitions = completed (fun _ => none) last := by
  induction h with
  | nil tables => exact fun _ hc => ⟨_, rfl, hc⟩
  | cons hd hnext hg _ ih =>
      intro c hprev hc
      obtain ⟨c₁, hrun, hdef, _⟩ := hd.migrates hprev hnext hg hc
      obtain ⟨c', hrest, hlast⟩ := ih hnext hdef
      refine ⟨c', ?_, hlast⟩
      rw [List.flatMap_cons, runStore_append, hrun]
      exact hrest

theorem Versions.last_valid {previous last : List Table} {versions : List (List TableDiff)}
    (h : Versions previous versions last) (hprev : ValidSchema previous) : ValidSchema last := by
  induction h with
  | nil tables => exact hprev
  | cons _ hnext _ _ ih => exact ih hnext

/-- Completing what is complete changes nothing. -/
theorem completed_idem {tables : List Table} (hn : (tables.map Table.name).Nodup) :
    completed (completed (fun _ => none) tables) tables = completed (fun _ => none) tables := by
  funext name
  by_cases hthere : ∃ t ∈ tables, t.name = name
  · obtain ⟨t, ht, rfl⟩ := hthere
    have hkeys : ((tables.map fun t => (t.name, t.definition)).map Prod.fst).Nodup := by
      rw [List.map_map]
      exact hn
    have hlookup : AssocMap.lookup t.name (tables.map fun t => (t.name, t.definition)) =
        some t.definition :=
      AssocMap.lookup_of_mem hkeys (List.mem_map.mpr ⟨t, ht, rfl⟩)
    rw [completed_of_mem hn ht]
    simp only [completed, hlookup]
    congr 1
    funext ix
    cases hix : t.definition ix <;> simp [hix]
  · have hlookup : AssocMap.lookup name (tables.map fun t => (t.name, t.definition)) = none := by
      refine AssocMap.lookup_eq_none.mpr fun hmem => ?_
      rw [List.map_map] at hmem
      obtain ⟨t, ht, hname⟩ := List.mem_map.mp hmem
      exact hthere ⟨t, ht, hname⟩
    simp [completed, hlookup]

/-- **Migrating and pushing agree.** The migrations of all versions, run on an empty database,
run through and define what any pushes of the last version define, from an empty database or
on top of the migrations. -/
theorem versions_agree {ι : Type} [DecidableEq ι] {last : List Table}
    {versions : List (List TableDiff)} (h : Versions [] versions last) : ∃ c : TableStore κ,
    runStore (versions.flatMap generate) (fun _ => none) = some c ∧
      ∀ (conns : ι → Connection) (s₀ : schemaStore.Server ι) (p : Pushes ι),
        s₀.committed = (fun _ => none) ∨ s₀.committed = c.definitions →
        Steps Database.Step (Pushes.begin conns (fun _ => last) s₀) p →
        (∃ i conn, p.threads i = .done (conn, .ok ())) → p.shared.committed = c.definitions := by
  have hempty : ValidSchema [] := ⟨List.nodup_nil, fun _ h => absurd h List.not_mem_nil⟩
  obtain ⟨c, hrun, hdef⟩ := h.run (κ := κ) (c := fun _ => none) hempty rfl
  have hn := (h.last_valid hempty).names
  refine ⟨c, hrun, ?_⟩
  rintro conns s₀ p hstart hsteps ⟨i, conn, hdone⟩
  have hpushed := completed_of_done hn hsteps hdone
  rcases hstart with hs | hs
  · rw [hpushed, hs, hdef]
  · rw [hpushed, hs, hdef, completed_idem hn]

theorem createItems_isSchemaDiff :
    IsSchemaDiff [] [itemsPrevious] [.create itemsPrevious] fun _ _ => False :=
  ⟨by simp, by simp, by simp, by simp, by simp, by simp, by simp, by simp, by simp⟩

theorem renameItems_isSchemaDiff : IsSchemaDiff [itemsPrevious] [itemsNext]
    [.alter itemsPrevious itemsNext [renameValue] []] fun p n =>
    p = itemsPrevious ∧ n = itemsNext := by
  refine ⟨?_, ?_, ?_, ?_, by simp, by simp, ?_, ?_, by simp⟩
  · rintro p n ⟨rfl, rfl⟩
    exact ⟨List.mem_cons_self, List.mem_cons_self⟩
  · rintro p n m ⟨_, rfl⟩ ⟨_, rfl⟩
    rfl
  · rintro p q n ⟨rfl, _⟩ ⟨rfl, _⟩
    rfl
  · intro p hp n hn _
    exact .inl ⟨List.mem_singleton.mp hp, List.mem_singleton.mp hn⟩
  · intro p n columns indices h
    obtain ⟨rfl, rfl, rfl, rfl⟩ := TableDiff.alter.inj (List.mem_singleton.mp h)
    exact ⟨⟨rfl, rfl⟩, renameValue_isTableDiff⟩
  · rintro p n ⟨rfl, rfl⟩ hno
    exact absurd List.mem_cons_self (hno [renameValue] [])

theorem valid_nil : ValidSchema [] := ⟨List.nodup_nil, fun _ h => absurd h List.not_mem_nil⟩

theorem valid_versions : ValidSchema [itemsPrevious] ∧ ValidSchema [itemsNext] := by
  refine ⟨⟨by decide, fun t ht => ?_⟩, ⟨by decide, fun t ht => ?_⟩⟩
  all_goals
    rw [List.mem_singleton.mp ht]
    unfold StoredIndices
    decide

/-- The first version creates a table, the second renames a column of it. -/
theorem items_versions :
    Versions [] [[.create itemsPrevious], [.alter itemsPrevious itemsNext [renameValue] []]]
    [itemsNext] :=
  .cons createItems_isSchemaDiff valid_versions.1 (by decide)
    (.cons renameItems_isSchemaDiff valid_versions.2 (by decide) (.nil _))

theorem items_agree : ∃ c : TableStore Nat, runStore ([[.create itemsPrevious],
    [.alter itemsPrevious itemsNext [renameValue] []]].flatMap generate) (fun _ => none) = some c ∧
      ∀ p : Pushes Bool, Steps Database.Step (Pushes.begin (fun _ => .new) (fun _ => [itemsNext])
        ⟨fun _ => none, fun _ => none⟩) p →
        (∃ i conn, p.threads i = .done (conn, .ok ())) → p.shared.committed = c.definitions := by
  obtain ⟨c, hrun, hagree⟩ := versions_agree (κ := Nat) (ι := Bool) items_versions
  exact ⟨c, hrun, fun p => hagree _ _ p (.inl rfl)⟩

end ToastySurreal
