import ToastySurreal.Proof.Migration

/-!
# Guards come first

Within one table's alteration the guards are written ahead of everything else, so
that an unedited migration stops before it has destroyed anything. A migration is the
concatenation of the statements of many tables, though. `guards_first_iff` says which
schema diffs keep the promise: no table that is guarded comes after one whose
statements destroy.
-/

namespace ToastySurreal

/-! ## Statements -/

/-- `REMOVE TABLE`, `REMOVE INDEX`, `UPDATE … SET` and `UPDATE … UNSET`. -/
def Statement.isDestructive : Statement → Bool
  | .removeTable _ | .removeIndex _ _ | .updateSet _ _ _ | .updateUnset _ _ => true
  | _ => false

theorem Statement.not_destructive_of_throw {s : Statement} (h : s.isThrow = true) :
    s.isDestructive = false := by
  cases s <;> first | rfl | exact absurd h (by simp [Statement.isThrow])

/-- What an unedited migration runs: the statements ahead of its first guard. -/
def beforeGuard (statements : List Statement) : List Statement :=
  statements.takeWhile fun s => !s.isThrow

/-- The migration does nothing destructive until it is edited. -/
structure InertUntilEdited (statements : List Statement) : Prop where
  /-- Every guard precedes every destructive statement. -/
  guards_first : statements.Pairwise fun s t => s.isDestructive = true → t.isThrow = false
  /-- A guarded migration stops at a guard before any destructive statement has run. -/
  stops : (∃ s ∈ statements, s.isThrow = true) →
    ∀ s ∈ beforeGuard statements, s.isDestructive = false

/-- Where guards come first, a guarded migration stops in time. -/
theorem inert_iff {statements : List Statement} : InertUntilEdited statements ↔
    statements.Pairwise fun s t => s.isDestructive = true → t.isThrow = false := by
  constructor
  · intro h; exact h.guards_first
  · intro h
    refine ⟨h, fun hguard s hs => ?_⟩
    -- what is ahead of the first guard is followed by it
    have hdrop : ∃ g ∈ statements.dropWhile (fun s => !s.isThrow), g.isThrow = true := by
      obtain ⟨g, hg, hthrow⟩ := hguard
      rw [← List.takeWhile_append_dropWhile (p := fun s => !s.isThrow) (l := statements)] at hg
      rcases List.mem_append.mp hg with hg | hg
      · have hno := List.mem_takeWhile_imp hg
        simp [hthrow] at hno
      · exact ⟨g, hg, hthrow⟩
    obtain ⟨g, hg, hthrow⟩ := hdrop
    rw [← List.takeWhile_append_dropWhile (p := fun s => !s.isThrow) (l := statements),
      List.pairwise_append] at h
    cases hd : s.isDestructive with
    | false => rfl
    | true => exact absurd (h.2.2 s hs g hg hd) (by simp [hthrow])

/-! ## Table diffs -/

/-- The change copies or removes a stored field. -/
def ColumnDiff.movesData (previous next : Table) : ColumnDiff → Bool
  | .add _ => false
  | .drop c => !isPrimaryKey previous c
  | .alter p n => decide (p.name ≠ n.name) && !isPrimaryKey previous p && !isPrimaryKey next n

def ColumnDiff.changesType : ColumnDiff → Bool
  | .alter p n => decide (p.ty ≠ n.ty ∨ p.storageTy ≠ n.storageTy)
  | _ => false

def IndexDiff.removesIndex : IndexDiff → Bool
  | .create _ => false
  | .drop ix | .alter ix _ => !ix.primaryKey

/-- The guard of a renamed table, which is all that is rendered for it. -/
def TableDiff.renameGuard : TableDiff → Option Statement
  | .alter previous next _ _ =>
      if previous.name ≠ next.name then
        some (.throw ("table rename from " ++ previous.name ++ " to " ++ next.name))
      else none
  | _ => none

/-- The change of a table destroys something. -/
def TableDiff.isDestructive : TableDiff → Bool
  | .create _ => false
  | .drop _ => true
  | .alter previous next columns indices => decide (previous.name = next.name) &&
      (columns.any (ColumnDiff.movesData previous next) || indices.any IndexDiff.removesIndex)

/-- The change of a table needs a manual migration. -/
def TableDiff.isGuarded : TableDiff → Bool
  | .alter previous next columns _ => decide (previous.name ≠ next.name) ||
      primaryKeyChanged previous next columns || columns.any ColumnDiff.changesType
  | _ => false

/-- The table's guard is the one of a renamed table, and an earlier table has brought it
into the migration already. -/
def TableDiff.repeats (before : List TableDiff) (d : TableDiff) : Prop :=
  ∃ g, d.renameGuard = some g ∧ ∃ e ∈ before, ∃ g', e.renameGuard = some g' ∧ g'.text = g.text

/-- No guarded table comes after a table whose change destroys something. -/
def GuardedFirst (diff : List TableDiff) : Prop :=
  ∀ before d after, diff = before ++ d :: after → d.isGuarded = true →
    (∀ e ∈ before, e.isDestructive = false) ∨ d.repeats before

theorem guardedFirst_snoc {ds : List TableDiff} {d : TableDiff} : GuardedFirst (ds ++ [d]) ↔
    GuardedFirst ds ∧
      (d.isGuarded = true → (∀ e ∈ ds, e.isDestructive = false) ∨ d.repeats ds) := by
  constructor
  · intro h
    refine ⟨fun before x after he => h before x (after ++ [d]) (by simp [he]), h ds d [] rfl⟩
  · intro h before x after he
    obtain ⟨hds, hd⟩ := h
    rcases List.eq_nil_or_concat after with rfl | ⟨after, y, rfl⟩
    · obtain ⟨rfl, hx⟩ := List.append_inj' he rfl
      injection hx with hx; subst hx
      exact hd
    · rw [List.concat_eq_append, ← List.cons_append, ← List.append_assoc] at he
      obtain ⟨rfl, -⟩ := List.append_inj' he rfl
      exact hds before x after rfl

/-! ## What a table adds to the statements -/

/-- The statements of an alteration that keeps the table's name. -/
def alterStatements (previous next : Table) (columns : List ColumnDiff) (indices : List IndexDiff) :
    List Statement :=
  let parts := alterParts previous next columns indices
  parts.guards ++ (parts.indexRemovals ++ parts.indexDefinitions ++ parts.dataChanges)

/-- What one turn of the loop in `generate` adds. -/
def added (statements : List Statement) : TableDiff → List Statement
  | .create table => defineTableStatements table false
  | .drop table => [.removeTable table.name]
  | .alter previous next columns indices =>
      if previous.name ≠ next.name then
        let guard := Statement.throw ("table rename from " ++ previous.name ++ " to " ++ next.name)
        if guard.text ∈ statements.map Statement.text then [] else [guard]
      else alterStatements previous next columns indices

theorem generateStep_eq (statements : List Statement) (d : TableDiff) :
    generateStep statements d = statements ++ added statements d := by
  cases d with
  | create table => rfl
  | drop table => rfl
  | alter previous next columns indices =>
      rw [generateStep, renderAlterTable, added]
      split
      · simp only [pushUnique]
        split <;> simp
      · simp [alterStatements, List.append_assoc]

theorem data_destructive {previous next : Table} {c : ColumnDiff} {s : Statement}
    (h : s ∈ dataOf previous next c) : s.isDestructive = true ∧ c.movesData previous next =
    true := by
  cases c with
  | add c => exact absurd h List.not_mem_nil
  | drop c =>
      rw [dataOf] at h
      split at h
      · exact absurd h List.not_mem_nil
      · rename_i hkey
        rw [List.mem_singleton.mp h]
        exact ⟨rfl, by simpa [ColumnDiff.movesData] using hkey⟩
  | alter p n =>
      rw [dataOf, renameOf] at h
      split at h
      · rename_i hmoved
        refine ⟨?_, by simpa [ColumnDiff.movesData, and_assoc] using hmoved⟩
        simp only [List.flatMap_cons, List.flatMap_nil, List.append_nil, List.mem_cons,
          List.not_mem_nil, or_false] at h
        rcases h with rfl | rfl <;> rfl
      · exact absurd h List.not_mem_nil

theorem exists_data {previous next : Table} {c : ColumnDiff}
    (h : c.movesData previous next = true) : ∃ s, s ∈ dataOf previous next c := by
  cases c with
  | add c => exact absurd h (by simp [ColumnDiff.movesData])
  | drop c =>
      have hkey : isPrimaryKey previous c = false := by simpa [ColumnDiff.movesData] using h
      exact ⟨_, by rw [dataOf, if_neg (by simp [hkey])]; exact List.mem_singleton.mpr rfl⟩
  | alter p n =>
      have hmoved : p.name ≠ n.name ∧ !isPrimaryKey previous p ∧ !isPrimaryKey next n := by
        simpa [ColumnDiff.movesData, and_assoc] using h
      exact ⟨_, by rw [dataOf, renameOf, if_pos hmoved]; exact List.mem_cons_self ..⟩

theorem removal_destructive {previous : Table} {ix : IndexDiff} {s : Statement}
    (h : s ∈ removalsOf previous ix) : s.isDestructive = true ∧ ix.removesIndex = true := by
  have hone : ∀ i : Index, s ∈ (if i.primaryKey then [] else [removeIndexStatement previous i]) →
      s.isDestructive = true ∧ (!i.primaryKey) = true := by
    intro i hi
    split at hi
    · exact absurd hi List.not_mem_nil
    · rename_i hkey
      rw [List.mem_singleton.mp hi]
      exact ⟨rfl, by simpa using hkey⟩
  cases ix with
  | create i => exact absurd h List.not_mem_nil
  | drop i => exact hone i h
  | alter i j => exact hone i h

theorem exists_removal {previous : Table} {ix : IndexDiff} (h : ix.removesIndex = true) :
    ∃ s, s ∈ removalsOf previous ix := by
  cases ix with
  | create i => exact absurd h (by simp [IndexDiff.removesIndex])
  | drop i =>
      have hkey : i.primaryKey = false := by simpa [IndexDiff.removesIndex] using h
      exact ⟨_, by rw [removalsOf, if_neg (by simp [hkey])]; exact List.mem_singleton.mpr rfl⟩
  | alter i j =>
      have hkey : i.primaryKey = false := by simpa [IndexDiff.removesIndex] using h
      exact ⟨_, by rw [removalsOf, if_neg (by simp [hkey])]; exact List.mem_singleton.mpr rfl⟩

/-- A renamed column moves data. -/
theorem movesData_of_rename {previous next : Table} {c : ColumnDiff} {r : Column × Column}
    (h : r ∈ renameOf previous next c) : c.movesData previous next = true := by
  cases c with
  | alter p n =>
      rw [renameOf] at h
      split at h
      · rename_i hmoved
        simpa [ColumnDiff.movesData, and_assoc] using hmoved
      · exact absurd h List.not_mem_nil
  | _ => exact absurd h List.not_mem_nil

theorem guards_iff {next : Table} {c : ColumnDiff} :
    guardsOf next c ≠ [] ↔ c.changesType = true := by
  cases c with
  | alter p n =>
      rw [guardsOf, ColumnDiff.changesType, decide_eq_true_iff]
      split
      · rename_i h; simp [h]
      · rename_i h; simp [h]
  | _ => simp [guardsOf, ColumnDiff.changesType]

section Alter

variable {previous next : Table} {columns : List ColumnDiff} {indices : List IndexDiff}

/-- A removal comes from the index diff or from a renamed column. -/
theorem removals_from {s : Statement}
    (h : s ∈ (alterParts previous next columns indices).indexRemovals) :
    s.isDestructive = true ∧ (columns.any (ColumnDiff.movesData previous next) = true ∨
      indices.any IndexDiff.removesIndex = true) := by
  rw [alterParts_eq] at h
  have hall : s ∈ allRemovals previous next columns indices :=
    (mem_pushAll h).resolve_left List.not_mem_nil
  rcases List.mem_append.mp hall with hall | hall
  · obtain ⟨ix, hix, hs⟩ := List.mem_flatMap.mp hall
    obtain ⟨hd, hr⟩ := removal_destructive hs
    exact ⟨hd, .inr (List.any_eq_true.mpr ⟨ix, hix, hr⟩)⟩
  · obtain ⟨r, hr, hs⟩ := List.mem_flatMap.mp hall
    obtain ⟨c, hc, hrc⟩ := List.mem_flatMap.mp hr
    obtain ⟨i, _, rfl⟩ := List.mem_map.mp hs
    exact ⟨rfl, .inl (List.any_eq_true.mpr ⟨c, hc, movesData_of_rename hrc⟩)⟩

theorem definitions_inert {s : Statement}
    (h : s ∈ (alterParts previous next columns indices).indexDefinitions) :
    s.isDestructive = false ∧ s.isThrow = false := by
  rw [alterParts_eq] at h
  have hall : s ∈ allDefinitions previous next columns indices :=
    (mem_pushAll h).resolve_left List.not_mem_nil
  have hone : ∀ i : Index, s ∈ (if i.primaryKey then [] else [defineIndexStatement next i false]) →
      s.isDestructive = false ∧ s.isThrow = false := by
    intro i hi
    split at hi
    · exact absurd hi List.not_mem_nil
    · rw [List.mem_singleton.mp hi]; exact ⟨rfl, rfl⟩
  rcases List.mem_append.mp hall with hall | hall
  · obtain ⟨ix, _, hs⟩ := List.mem_flatMap.mp hall
    cases ix with
    | create i => exact hone i hs
    | drop i => exact absurd hs List.not_mem_nil
    | alter i j => exact hone j hs
  · obtain ⟨r, _, hs⟩ := List.mem_flatMap.mp hall
    obtain ⟨i, _, rfl⟩ := List.mem_map.mp hs
    exact ⟨rfl, rfl⟩

theorem dataChanges_from {s : Statement}
    (h : s ∈ (alterParts previous next columns indices).dataChanges) :
    s.isDestructive = true ∧ columns.any (ColumnDiff.movesData previous next) = true := by
  rw [alterParts_eq] at h
  obtain ⟨c, hc, hs⟩ := List.mem_flatMap.mp h
  obtain ⟨hd, hm⟩ := data_destructive hs
  exact ⟨hd, List.any_eq_true.mpr ⟨c, hc, hm⟩⟩

theorem Statement.not_throw_of_destructive {s : Statement} (h : s.isDestructive = true) :
    s.isThrow = false := by
  cases ht : s.isThrow with
  | false => rfl
  | true => exact absurd h (by simp [Statement.not_destructive_of_throw ht])

/-- Only the guards of an alteration throw. -/
theorem rest_not_throw {s : Statement}
    (h : s ∈ (alterParts previous next columns indices).indexRemovals ++
      (alterParts previous next columns indices).indexDefinitions ++
      (alterParts previous next columns indices).dataChanges) : s.isThrow = false := by
  rcases List.mem_append.mp h with h | h
  · rcases List.mem_append.mp h with h | h
    · exact Statement.not_throw_of_destructive (removals_from h).1
    · exact (definitions_inert h).2
  · exact Statement.not_throw_of_destructive (dataChanges_from h).1

theorem alter_pairwise : (alterStatements previous next columns indices).Pairwise
    fun s t => s.isDestructive = true → t.isThrow = false := by
  rw [alterStatements, List.pairwise_append]
  refine ⟨?_, ?_, ?_⟩
  · refine List.pairwise_of_forall_mem_list fun s hs t _ hd => ?_
    exact absurd hd (by simp [Statement.not_destructive_of_throw (guards_throw hs)])
  · exact List.pairwise_of_forall_mem_list fun s _ t ht _ => rest_not_throw ht
  · exact fun s _ t ht _ => rest_not_throw ht

theorem alter_throw_iff : (∃ s ∈ alterStatements previous next columns indices, s.isThrow = true) ↔
    primaryKeyChanged previous next columns = true ∨ columns.any ColumnDiff.changesType = true := by
  have hguards : (∃ s ∈ alterStatements previous next columns indices, s.isThrow = true) ↔
      (alterParts previous next columns indices).guards ≠ [] := by
    constructor
    · intro h
      obtain ⟨s, hs, ht⟩ := h
      rcases List.mem_append.mp hs with hs | hs
      · exact List.ne_nil_of_mem hs
      · exact absurd ht (by simp [rest_not_throw hs])
    · intro h
      obtain ⟨s, hs⟩ := List.exists_mem_of_ne_nil _ h
      exact ⟨s, List.mem_append_left _ hs, guards_throw hs⟩
  rw [hguards, alterParts_eq, ne_eq, pushAll_eq_nil, not_and_or]
  constructor
  · intro h
    rcases h with h | h
    · refine .inl ?_
      by_contra hk
      exact h (by rw [keyGuard, if_neg hk])
    · refine .inr (List.any_eq_true.mpr ?_)
      obtain ⟨s, hs⟩ := List.exists_mem_of_ne_nil _ h
      obtain ⟨c, hc, hs⟩ := List.mem_flatMap.mp hs
      exact ⟨c, hc, guards_iff.mp (List.ne_nil_of_mem hs)⟩
  · intro h
    rcases h with h | h
    · exact .inl (by rw [keyGuard, if_pos h]; simp)
    · obtain ⟨c, hc, hty⟩ := List.any_eq_true.mp h
      obtain ⟨s, hs⟩ := List.exists_mem_of_ne_nil _ (@guards_iff next c |>.mpr hty)
      exact .inr (List.ne_nil_of_mem (List.mem_flatMap.mpr ⟨c, hc, hs⟩))

theorem alter_destructive_iff :
    (∃ s ∈ alterStatements previous next columns indices, s.isDestructive = true) ↔
      columns.any (ColumnDiff.movesData previous next) = true ∨
        indices.any IndexDiff.removesIndex = true := by
  constructor
  · intro h
    obtain ⟨s, hs, hd⟩ := h
    rcases List.mem_append.mp hs with hs | hs
    · exact absurd hd (by simp [Statement.not_destructive_of_throw (guards_throw hs)])
    · rcases List.mem_append.mp hs with hs | hs
      · rcases List.mem_append.mp hs with hs | hs
        · exact (removals_from hs).2
        · exact absurd hd (by simp [(definitions_inert hs).1])
      · exact .inl (dataChanges_from hs).2
  · intro h
    rcases h with h | h
    · obtain ⟨c, hc, hm⟩ := List.any_eq_true.mp h
      obtain ⟨s, hs⟩ := exists_data hm
      have hdata : s ∈ (alterParts previous next columns indices).dataChanges := by
        rw [alterParts_eq]; exact List.mem_flatMap.mpr ⟨c, hc, hs⟩
      exact ⟨s, List.mem_append_right _ (List.mem_append_right _ hdata), (dataChanges_from hdata).1⟩
    · obtain ⟨ix, hix, hr⟩ := List.any_eq_true.mp h
      obtain ⟨s, hs⟩ := exists_removal hr
      have hall : s ∈ allRemovals previous next columns indices :=
        List.mem_append_left _ (List.mem_flatMap.mpr ⟨ix, hix, hs⟩)
      -- deduplication keeps some removal of this text
      obtain ⟨u, hu, _⟩ := List.mem_map.mp (@text_mem_pushAll _ [] s hall)
      have hrem : u ∈ (alterParts previous next columns indices).indexRemovals := by
        rw [alterParts_eq]; exact hu
      exact ⟨u, List.mem_append_right _ (List.mem_append_left _ (List.mem_append_left _ hrem)),
        (removals_from hrem).1⟩

end Alter

/-! ## The text of a renamed table's guard -/

/-- A character that is no quote and no backslash is kept. -/
theorem escapeQuoted_head {reason : String} {c : Char} {cs : List Char}
    (h : reason.toList = c :: cs)
    (hq : c ≠ '\'') (hb : c ≠ '\\') : (escapeQuoted reason).toList.head? = some c := by
  simp [escapeQuoted, replaceChar, h, hq, hb]

/-- Guards for different kinds of reasons have different texts. -/
theorem throw_text_ne {r r' : String} {c c' : Char} {cs cs' : List Char} (h : r.toList = c :: cs)
    (h' : r'.toList = c' :: cs') (hc : c ≠ '\'' ∧ c ≠ '\\') (hc' : c' ≠ '\'' ∧ c' ≠ '\\')
    (hne : c ≠ c') : (Statement.throw r).text ≠ (Statement.throw r').text := by
  intro he
  have he : "THROW 'manual migration required: " ++ (escapeQuoted r ++ "'") =
      "THROW 'manual migration required: " ++ (escapeQuoted r' ++ "'") := by
    rw [← String.append_assoc, ← String.append_assoc]; exact he
  have hhead := congrArg (fun s => s.toList.head?) (append_left_cancel he)
  simp only [String.toList_append, List.head?_append, escapeQuoted_head h hc.1 hc.2,
    escapeQuoted_head h' hc'.1 hc'.2, Option.some_or, Option.some.injEq] at hhead
  exact hne hhead

theorem rename_reason (p n : String) :
    ∃ cs, ("table rename from " ++ p ++ " to " ++ n).toList = 't' :: cs := by
  simp [String.toList_append]

theorem renameGuard_eq {d : TableDiff} {g : Statement} (h : d.renameGuard = some g) :
    ∃ p n, g = .throw ("table rename from " ++ p ++ " to " ++ n) := by
  cases d with
  | alter previous next columns indices =>
      rw [TableDiff.renameGuard] at h
      split at h
      · injection h with h; exact ⟨_, _, h.symm⟩
      · exact absurd h (by simp)
  | _ => exact absurd h (by simp [TableDiff.renameGuard])

theorem head_append {a b : String} {c : Char} (h : a.toList.head? = some c) :
    (a ++ b).toList.head? = some c := by
  rw [String.toList_append, List.head?_append, h]
  rfl

/-- Only guards start with `THROW`. -/
theorem text_head {s : Statement} (h : s.isThrow = false) :
    ∃ c, s.text.toList.head? = some c ∧ c ≠ 'T' := by
  cases s with
  | defineTable t b =>
      exact ⟨'D', head_append (head_append (head_append (head_append rfl))), by decide⟩
  | removeTable t => exact ⟨'R', head_append rfl, by decide⟩
  | defineIndex i t cs u b => exact ⟨'D', head_append (head_append (head_append rfl)), by decide⟩
  | removeIndex i t => exact ⟨'R', head_append rfl, by decide⟩
  | updateSet t n p =>
      exact ⟨'U', head_append (head_append (head_append (head_append (head_append (head_append
        (head_append (head_append rfl))))))), by decide⟩
  | updateUnset t c =>
      exact ⟨'U', head_append (head_append (head_append (head_append rfl))), by decide⟩
  | throw r => exact absurd h (by simp [Statement.isThrow])
  | returnNone => exact ⟨'R', rfl, by decide⟩

/-- A statement with the text of a guard is a guard. -/
theorem throw_of_text {r : String} {s : Statement} (h : s.text = (Statement.throw r).text) :
    s.isThrow = true := by
  have hthrow : s.text.toList.head? = some 'T' := by
    rw [h]
    exact head_append (head_append rfl)
  by_contra hs
  obtain ⟨c, hc, hne⟩ := text_head (by simpa using hs)
  rw [hthrow] at hc
  exact hne (Option.some.inj hc).symm

/-- An alteration that keeps the table's name writes no guard of a renamed table. -/
theorem alter_text_ne {previous next : Table} {columns : List ColumnDiff} {indices : List IndexDiff}
    {p n : String} {s : Statement} (hs : s ∈ alterStatements previous next columns indices) :
    s.text ≠ (Statement.throw ("table rename from " ++ p ++ " to " ++ n)).text := by
  intro he
  obtain ⟨cs, hcs⟩ := rename_reason p n
  rcases List.mem_append.mp hs with hs | hs
  · rw [alterParts_eq] at hs
    rcases mem_pushAll hs with hs | hs
    · rw [keyGuard] at hs
      split at hs
      · rw [List.mem_singleton.mp hs] at he
        obtain ⟨ds, hds⟩ : ∃ ds,
            ("primary-key layout or type change on " ++ next.name).toList = 'p' :: ds := by
          simp [String.toList_append]
        exact throw_text_ne hds hcs (by decide) (by decide) (by decide) he
      · exact absurd hs List.not_mem_nil
    · obtain ⟨c, _, hg⟩ := List.mem_flatMap.mp hs
      cases c with
      | alter q m =>
          rw [guardsOf] at hg
          split at hg
          · rw [List.mem_singleton.mp hg] at he
            obtain ⟨ds, hds⟩ : ∃ ds,
                ("column type change on " ++ next.name ++ "." ++ m.name).toList = 'c' :: ds := by
              simp [String.toList_append]
            exact throw_text_ne hds hcs (by decide) (by decide) (by decide) he
          · exact absurd hg List.not_mem_nil
      | _ => exact absurd hg List.not_mem_nil
  · exact absurd (throw_of_text he) (by simp [rest_not_throw hs])

/-! ## What each table adds -/

theorem added_pairwise (statements : List Statement) (d : TableDiff) :
    (added statements d).Pairwise fun s t => s.isDestructive = true → t.isThrow = false := by
  cases d with
  | create table =>
      refine List.pairwise_of_forall_mem_list fun s _ t ht _ => ?_
      rcases List.mem_cons.mp ht with rfl | ht
      · rfl
      · obtain ⟨ix, _, rfl⟩ := List.mem_map.mp ht
        rfl
  | drop table => exact List.pairwise_singleton ..
  | alter previous next columns indices =>
      rw [added]
      split
      · dsimp only
        split
        · exact List.Pairwise.nil
        · exact List.pairwise_singleton ..
      · exact alter_pairwise

theorem added_destructive {statements : List Statement} {d : TableDiff} :
    (∃ s ∈ added statements d, s.isDestructive = true) ↔ d.isDestructive = true := by
  cases d with
  | create table =>
      simp only [TableDiff.isDestructive, Bool.false_eq_true, iff_false, not_exists, not_and]
      intro s hs
      rcases List.mem_cons.mp hs with rfl | hs
      · simp [Statement.isDestructive]
      · obtain ⟨ix, _, rfl⟩ := List.mem_map.mp hs
        simp [defineIndexStatement, Statement.isDestructive]
  | drop table => simp [added, TableDiff.isDestructive, Statement.isDestructive]
  | alter previous next columns indices =>
      rw [added, TableDiff.isDestructive]
      split
      · rename_i hname
        dsimp only
        split <;> simp [hname, Statement.isDestructive]
      · rename_i hname
        rw [alter_destructive_iff, not_not.mp hname]
        simp

theorem added_throw {statements : List Statement} {d : TableDiff} :
    (∃ s ∈ added statements d, s.isThrow = true) ↔ d.isGuarded = true ∧
      ¬ ∃ g, d.renameGuard = some g ∧ g.text ∈ statements.map Statement.text := by
  cases d with
  | create table =>
      simp only [TableDiff.isGuarded, Bool.false_eq_true, false_and, iff_false, not_exists, not_and]
      intro s hs
      rcases List.mem_cons.mp hs with rfl | hs
      · simp [Statement.isThrow]
      · obtain ⟨ix, _, rfl⟩ := List.mem_map.mp hs
        simp [defineIndexStatement, Statement.isThrow]
  | drop table => simp [added, TableDiff.isGuarded, Statement.isThrow]
  | alter previous next columns indices =>
      rw [added, TableDiff.isGuarded, TableDiff.renameGuard]
      by_cases hname : previous.name ≠ next.name
      · simp only [if_pos hname]
        by_cases hmem : (Statement.throw ("table rename from " ++ previous.name ++ " to " ++
            next.name)).text ∈ statements.map Statement.text
        · rw [if_pos hmem]
          exact iff_of_false (by simp) fun h => h.2 ⟨_, rfl, hmem⟩
        · rw [if_neg hmem]
          refine iff_of_true ⟨_, List.mem_singleton.mpr rfl, rfl⟩ ⟨by simp [hname], ?_⟩
          intro h
          obtain ⟨g, hg, hgm⟩ := h
          injection hg with hg; subst hg
          exact hmem hgm
      · rw [if_neg hname, alter_throw_iff, not_not.mp hname]
        simp

/-- The text of a renamed table's guard is added by that diff only. -/
theorem added_rename {statements : List Statement} {d : TableDiff} {p n : String} :
    (Statement.throw ("table rename from " ++ p ++ " to " ++ n)).text ∈
        (statements ++ added statements d).map Statement.text ↔
      (Statement.throw ("table rename from " ++ p ++ " to " ++ n)).text ∈
        statements.map Statement.text ∨
      ∃ g, d.renameGuard = some g ∧
        g.text = (Statement.throw ("table rename from " ++ p ++ " to " ++ n)).text := by
  rw [List.map_append, List.mem_append]
  cases d with
  | create table | drop table =>
      refine or_congr_right (iff_of_false ?_ (by simp [TableDiff.renameGuard]))
      intro h
      obtain ⟨s, hs, he⟩ := List.mem_map.mp h
      have hthrow := added_throw.mp ⟨s, hs, throw_of_text he⟩
      exact absurd hthrow.1 (by simp [TableDiff.isGuarded])
  | alter previous next columns indices =>
      rw [added, TableDiff.renameGuard]
      split
      · dsimp only
        split
        · rename_i hmem
          constructor
          · intro h; exact .inl (h.resolve_right (by simp))
          · intro h
            rcases h with h | ⟨g, hg, he⟩
            · exact .inl h
            · injection hg with hg; subst hg; rw [he] at hmem; exact .inl hmem
        · simp [eq_comm]
      · refine or_congr_right (iff_of_false ?_ (by simp))
        intro h
        obtain ⟨s, hs, he⟩ := List.mem_map.mp h
        exact alter_text_ne hs he

/-! ## The whole migration -/

/-- What the loop of `generate` has brought about. -/
structure Collected (ds : List TableDiff) (statements : List Statement) : Prop where
  destructive : (∃ s ∈ statements, s.isDestructive = true) ↔ ∃ d ∈ ds, d.isDestructive = true
  renames : ∀ p n, (Statement.throw ("table rename from " ++ p ++ " to " ++ n)).text ∈
      statements.map Statement.text ↔ ∃ d ∈ ds, ∃ g, d.renameGuard = some g ∧
        g.text = (Statement.throw ("table rename from " ++ p ++ " to " ++ n)).text
  guards : (statements.Pairwise fun s t => s.isDestructive = true → t.isThrow = false) ↔
    GuardedFirst ds

theorem collected_nil : Collected [] [] where
  destructive := by simp
  renames := by simp
  guards := by
    refine iff_of_true List.Pairwise.nil fun before d after he => ?_
    exact absurd he.symm (by simp)

theorem Collected.repeats {ds : List TableDiff} {statements : List Statement} {d : TableDiff}
    (h : Collected ds statements) :
    (∃ g, d.renameGuard = some g ∧ g.text ∈ statements.map Statement.text) ↔ d.repeats ds := by
  refine exists_congr fun g => and_congr_right fun hg => ?_
  obtain ⟨p, n, rfl⟩ := renameGuard_eq hg
  exact h.renames p n

/-- One turn of the loop. -/
theorem Collected.snoc {ds : List TableDiff} {statements : List Statement}
    (h : Collected ds statements)
    (d : TableDiff) : Collected (ds ++ [d]) (generateStep statements d) := by
  rw [generateStep_eq]
  refine ⟨?_, fun p n => ?_, ?_⟩
  · simp only [List.mem_append, or_and_right, exists_or, h.destructive, added_destructive,
      List.mem_singleton, exists_eq_left]
  · rw [added_rename, h.renames]
    simp only [List.mem_append, or_and_right, exists_or, List.mem_singleton, exists_eq_left]
  · rw [List.pairwise_append, h.guards, guardedFirst_snoc]
    refine and_congr_right fun _ => ?_
    -- the new guards come after what the earlier tables destroy
    constructor
    · intro hp hguard
      by_cases hrep : d.repeats ds
      · exact .inr hrep
      · refine .inl fun e he => ?_
        obtain ⟨t, ht, hthrow⟩ :=
          (@added_throw statements d).mpr ⟨hguard, fun hg => hrep (h.repeats.mp hg)⟩
        by_contra hd
        obtain ⟨s, hs, hsd⟩ := h.destructive.mpr ⟨e, he, by simpa using hd⟩
        exact absurd (hp.2 s hs t ht hsd) (by simp [hthrow])
    · intro hd
      refine ⟨added_pairwise statements d, fun s hs t ht hsd => ?_⟩
      cases hthrow : t.isThrow with
      | false => rfl
      | true =>
          obtain ⟨hguard, hrep⟩ := added_throw.mp ⟨t, ht, hthrow⟩
          rcases hd hguard with hnone | hr
          · obtain ⟨e, he, hed⟩ := h.destructive.mp ⟨s, hs, hsd⟩
            exact absurd hed (by simp [hnone e he])
          · exact absurd (h.repeats.mpr hr) hrep

theorem collected_foldl (ds : List TableDiff) : Collected ds (ds.foldl generateStep []) := by
  induction ds using List.reverseRecOn with
  | nil => exact collected_nil
  | append_singleton ds d ih => rw [List.foldl_append]; exact ih.snoc d

/-- **Which migrations are inert until edited**: those in which no table that needs a
manual migration comes after one whose change destroys something, unless its guard is
already there. -/
theorem guards_first_iff (schemaDiff : List TableDiff) :
    InertUntilEdited (generate schemaDiff) ↔ GuardedFirst schemaDiff := by
  rw [inert_iff, ← (collected_foldl schemaDiff).guards, generate]
  split
  · rename_i hempty
    rw [List.isEmpty_iff.mp hempty]
    exact iff_of_true (List.pairwise_singleton ..) List.Pairwise.nil
  · exact Iff.rfl

/-- A table whose one stored column is a number, or text. -/
def metrics (ty : Ty) (storageTy : DbType) : Table where
  id := 1
  name := "metrics"
  columns := [⟨⟨1, 0⟩, "id", .i64, .integer 8⟩, ⟨⟨1, 1⟩, "value", ty, storageTy⟩]
  primaryKey := [⟨1, 0⟩]
  indices := []
  valid := ⟨rfl, by simp, by simp, by simp, by simp, by simp⟩

/-- Another table, which is dropped. -/
def archive : Table where
  id := 0
  name := "archive"
  columns := [⟨⟨0, 0⟩, "id", .i64, .integer 8⟩]
  primaryKey := [⟨0, 0⟩]
  indices := []

/-- The type change of one table is guarded, but only after the other has been dropped. -/
theorem table_dropped_before_guard : ¬ ∀ schemaDiff, InertUntilEdited (generate schemaDiff) := by
  intro h
  have hfirst := (guards_first_iff _).mp
    (h [.drop archive, .alter (metrics .i64 (.integer 8)) (metrics .string .text)
      [.alter ⟨⟨1, 1⟩, "value", .i64, .integer 8⟩ ⟨⟨1, 1⟩, "value", .string, .text⟩] []])
  rcases hfirst [.drop archive] _ [] rfl (by decide) with hnone | hrep
  · exact absurd (hnone _ (List.mem_cons_self ..)) (by decide)
  · obtain ⟨g, hg, _⟩ := hrep
    exact absurd hg (by simp [TableDiff.renameGuard, metrics])

end ToastySurreal
