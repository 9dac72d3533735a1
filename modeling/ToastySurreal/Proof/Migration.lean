import ToastySurreal.Migration

/-!
# What `render_alter_table` collects

The loops of `render_alter_table` thread five lists through each other. Nothing
one loop does depends on what another has collected, so the lists can be read off
one at a time: `alterParts_eq` gives each of them in closed form, and everything
about the rendered statements is derived from that.
-/

namespace ToastySurreal

/-! ## Deduplication by text -/

/-- Push a list of statements, dropping those whose text is already there. -/
def pushAll (ss new : List Statement) : List Statement := new.foldl pushUnique ss

@[simp] theorem pushAll_nil (ss : List Statement) : pushAll ss [] = ss := rfl

@[simp] theorem pushAll_cons (ss new : List Statement) (s : Statement) :
    pushAll ss (s :: new) = pushAll (pushUnique ss s) new := rfl

theorem pushAll_append (ss new more : List Statement) :
    pushAll ss (new ++ more) = pushAll (pushAll ss new) more := List.foldl_append ..

theorem mem_pushUnique {ss : List Statement} {s t : Statement} (h : t ∈ pushUnique ss s) :
    t ∈ ss ∨ t = s := by
  unfold pushUnique at h
  split at h
  · exact Or.inl h
  · simpa using h

theorem subset_pushUnique {ss : List Statement} {s t : Statement} (h : t ∈ ss) :
    t ∈ pushUnique ss s := by
  unfold pushUnique
  split
  · exact h
  · exact List.mem_append_left _ h

theorem text_mem_pushUnique (ss : List Statement) (s : Statement) :
    s.text ∈ (pushUnique ss s).map Statement.text := by
  unfold pushUnique
  split
  · assumption
  · simp

theorem nodup_pushUnique {ss : List Statement} {s : Statement}
    (h : (ss.map Statement.text).Nodup) : ((pushUnique ss s).map Statement.text).Nodup := by
  unfold pushUnique
  split
  · exact h
  · rename_i hs
    rw [List.map_append, List.nodup_append]
    refine ⟨h, by simp, ?_⟩
    intro a ha b hb he
    simp only [List.map_cons, List.map_nil, List.mem_singleton] at hb
    exact hs (hb ▸ he ▸ ha)

theorem mem_pushAll : ∀ {new ss : List Statement} {t : Statement},
    t ∈ pushAll ss new → t ∈ ss ∨ t ∈ new
  | [], _, _, h => Or.inl h
  | s :: new, ss, t, h => by
      rw [pushAll_cons] at h
      rcases mem_pushAll h with h | h
      · rcases mem_pushUnique h with h | h
        · exact Or.inl h
        · exact Or.inr (h ▸ List.mem_cons_self ..)
      · exact Or.inr (List.mem_cons_of_mem _ h)

theorem subset_pushAll : ∀ {new ss : List Statement} {t : Statement},
    t ∈ ss → t ∈ pushAll ss new
  | [], _, _, h => h
  | s :: new, ss, t, h => by
      have h1 : t ∈ pushUnique ss s := subset_pushUnique h
      rw [pushAll_cons]; exact subset_pushAll h1

theorem text_mem_pushAll : ∀ {new ss : List Statement} {t : Statement},
    t ∈ new → t.text ∈ (pushAll ss new).map Statement.text
  | s :: new, ss, t, h => by
      rcases List.mem_cons.mp h with rfl | h
      · obtain ⟨u, hu, he⟩ := List.mem_map.mp (text_mem_pushUnique ss t)
        rw [pushAll_cons]
        exact List.mem_map.mpr ⟨u, subset_pushAll hu, he⟩
      · rw [pushAll_cons]; exact text_mem_pushAll h

theorem nodup_pushAll : ∀ {new ss : List Statement},
    (ss.map Statement.text).Nodup → ((pushAll ss new).map Statement.text).Nodup
  | [], _, h => h
  | s :: new, ss, h => by
      rw [pushAll_cons]; exact nodup_pushAll (nodup_pushUnique h)

/-- When the texts tell the pushed statements apart, deduplication drops nothing
but repetitions. -/
theorem mem_pushAll_nil {new : List Statement}
    (hinj : ∀ s ∈ new, ∀ t ∈ new, s.text = t.text → s = t) {t : Statement} :
    t ∈ pushAll [] new ↔ t ∈ new := by
  constructor
  · intro h; exact (mem_pushAll h).resolve_left List.not_mem_nil
  · intro h
    have htext : t.text ∈ (pushAll [] new).map Statement.text := text_mem_pushAll h
    obtain ⟨u, hu, he⟩ := List.mem_map.mp htext
    have hun : u ∈ new := (mem_pushAll hu).resolve_left List.not_mem_nil
    exact hinj u hun t h he ▸ hu

/-- Deduplication of a nonempty list is not empty. -/
theorem pushAll_eq_nil {ss new : List Statement} : pushAll ss new = [] ↔ ss = [] ∧ new = [] := by
  constructor
  · intro h
    refine ⟨List.eq_nil_iff_forall_not_mem.mpr fun t ht => ?_,
      List.eq_nil_iff_forall_not_mem.mpr fun t ht => ?_⟩
    · have hmem : t ∈ pushAll ss new := subset_pushAll ht
      rw [h] at hmem; exact List.not_mem_nil hmem
    · have hmem : t.text ∈ (pushAll ss new).map Statement.text := text_mem_pushAll ht
      rw [h] at hmem; exact List.not_mem_nil hmem
  · rintro ⟨rfl, rfl⟩; rfl

/-! ## Texts tell index statements apart -/

theorem removeIndex_text_inj {i j t u : String}
    (h : (Statement.removeIndex i t).text = (Statement.removeIndex j u).text) : i = j ∧ t = u := by
  have hspace : ∀ s : String, Closed (" ON TABLE " ++ s).toList := by
    intro s; simp [Closed, backtick, String.toList_append]
  obtain ⟨hij, hrest⟩ := escapeIdent_append_inj (hspace _) (hspace _) (append_left_cancel h)
  exact ⟨hij, escapeIdent_inj (append_left_cancel hrest)⟩

theorem defineIndex_text_inj {i j t u : String} {cs ds : List String} {b c : Bool}
    (h : (Statement.defineIndex i t cs b false).text =
      (Statement.defineIndex j u ds c false).text) : i = j ∧ t = u ∧ cs = ds ∧ b = c := by
  have hon : ∀ s : String, Closed (" ON TABLE " ++ s).toList := by
    intro s; simp [Closed, backtick, String.toList_append]
  have hcols : ∀ s : String, Closed (" COLUMNS " ++ s).toList := by
    intro s; simp [Closed, backtick, String.toList_append]
  have huniq : ∀ b : Bool, ListClosed (if b then " UNIQUE" else "").toList := by
    intro b; cases b <;> simp [ListClosed, backtick]
  obtain ⟨hij, hrest⟩ := escapeIdent_append_inj (hon _) (hon _) (append_left_cancel h)
  obtain ⟨htu, hrest⟩ := escapeIdent_append_inj (hcols _) (hcols _) (append_left_cancel hrest)
  obtain ⟨hcd, hbc⟩ := identList_inj (huniq b) (huniq c) (append_left_cancel hrest)
  refine ⟨hij, htu, hcd, ?_⟩
  cases b <;> cases c <;> first | rfl | exact absurd hbc (by decide)

/-! ## One turn of each loop -/

/-- The guards a column change calls for. -/
def guardsOf (next : Table) : ColumnDiff → List Statement
  | .alter p n =>
      if p.ty ≠ n.ty ∨ p.storageTy ≠ n.storageTy then
        [.throw ("column type change on " ++ next.name ++ "." ++ n.name)]
      else []
  | _ => []

/-- The rename a column change is, when it moves stored data. -/
def renameOf (previous next : Table) : ColumnDiff → List (Column × Column)
  | .alter p n =>
      if p.name ≠ n.name ∧ !isPrimaryKey previous p ∧ !isPrimaryKey next n then [(p, n)] else []
  | _ => []

/-- The data statements of a column change. -/
def dataOf (previous next : Table) : ColumnDiff → List Statement
  | .add _ => []
  | .drop c => if isPrimaryKey previous c then [] else [.updateUnset next.name c.name]
  | .alter p n => (renameOf previous next (.alter p n)).flatMap fun r =>
      [.updateSet next.name r.2.name r.1.name, .updateUnset next.name r.1.name]

/-- The removals an index change calls for. -/
def removalsOf (previous : Table) : IndexDiff → List Statement
  | .create _ => []
  | .drop ix | .alter ix _ => if ix.primaryKey then [] else [removeIndexStatement previous ix]

/-- The definitions an index change calls for. -/
def definitionsOf (next : Table) : IndexDiff → List Statement
  | .drop _ => []
  | .create ix | .alter _ ix => if ix.primaryKey then [] else [defineIndexStatement next ix false]

theorem columnStep_eq (previous next : Table) (parts : Parts) (d : ColumnDiff) :
    columnStep previous next parts d = { parts with
      guards := pushAll parts.guards (guardsOf next d)
      dataChanges := parts.dataChanges ++ dataOf previous next d
      renamedColumns := parts.renamedColumns ++ renameOf previous next d } := by
  cases d with
  | add c => simp [columnStep, guardsOf, dataOf, renameOf]
  | drop c =>
      by_cases h : isPrimaryKey previous c <;>
        simp [columnStep, guardsOf, dataOf, renameOf, Parts.pushData, h]
  | alter p n =>
      simp only [columnStep, guardsOf, dataOf, renameOf]
      split <;> split <;>
        simp [Parts.pushData, Parts.pushGuard, Parts.pushRenamed]

theorem indexStep_eq (previous next : Table) (parts : Parts) (d : IndexDiff) :
    indexStep previous next parts d = { parts with
      indexRemovals := pushAll parts.indexRemovals (removalsOf previous d)
      indexDefinitions := pushAll parts.indexDefinitions (definitionsOf next d) } := by
  cases d with
  | create ix =>
      by_cases h : ix.primaryKey <;>
        simp [indexStep, removalsOf, definitionsOf, Parts.pushDefinition, h]
  | drop ix =>
      by_cases h : ix.primaryKey <;>
        simp [indexStep, removalsOf, definitionsOf, Parts.pushRemoval, h]
  | alter p n =>
      by_cases hp : p.primaryKey <;> by_cases hn : n.primaryKey <;>
        simp [indexStep, removalsOf, definitionsOf, Parts.pushRemoval, Parts.pushDefinition, hp, hn]

theorem foldl_pushRemoval (previous : Table) : ∀ (ixs : List Index) (parts : Parts),
    ixs.foldl (fun parts index => parts.pushRemoval (removeIndexStatement previous index)) parts =
      { parts with
        indexRemovals := pushAll parts.indexRemovals (ixs.map (removeIndexStatement previous)) }
  | [], _ => rfl
  | ix :: ixs, parts => by rw [List.foldl_cons, foldl_pushRemoval previous ixs]; rfl

theorem foldl_pushDefinition (next : Table) : ∀ (ixs : List Index) (parts : Parts),
    ixs.foldl (fun parts index => parts.pushDefinition (defineIndexStatement next index false))
    parts =
      { parts with
        indexDefinitions := pushAll parts.indexDefinitions
          (ixs.map fun ix => defineIndexStatement next ix false) }
  | [], _ => rfl
  | ix :: ixs, parts => by rw [List.foldl_cons, foldl_pushDefinition next ixs]; rfl

/-- The removals a renamed column calls for. -/
def renameRemovals (previous : Table) (r : Column × Column) : List Statement :=
  (indicesOn previous r.1).map (removeIndexStatement previous)

/-- The definitions a renamed column calls for. -/
def renameDefinitions (next : Table) (r : Column × Column) : List Statement :=
  (indicesOn next r.2).map fun ix => defineIndexStatement next ix false

theorem renameStep_eq (previous next : Table) (parts : Parts) (r : Column × Column) :
    renameStep previous next parts r = { parts with
      indexRemovals := pushAll parts.indexRemovals (renameRemovals previous r)
      indexDefinitions := pushAll parts.indexDefinitions (renameDefinitions next r) } := by
  simp only [renameStep, foldl_pushRemoval, foldl_pushDefinition, renameRemovals, renameDefinitions]

/-! ## The loops -/

theorem foldl_columnStep (previous next : Table) : ∀ (ds : List ColumnDiff) (parts : Parts),
    ds.foldl (columnStep previous next) parts = { parts with
      guards := pushAll parts.guards (ds.flatMap (guardsOf next))
      dataChanges := parts.dataChanges ++ ds.flatMap (dataOf previous next)
      renamedColumns := parts.renamedColumns ++ ds.flatMap (renameOf previous next) }
  | [], parts => by simp
  | d :: ds, parts => by
      rw [List.foldl_cons, columnStep_eq, foldl_columnStep previous next ds]
      simp [pushAll_append, List.append_assoc]

theorem foldl_indexStep (previous next : Table) : ∀ (ds : List IndexDiff) (parts : Parts),
    ds.foldl (indexStep previous next) parts = { parts with
      indexRemovals := pushAll parts.indexRemovals (ds.flatMap (removalsOf previous))
      indexDefinitions := pushAll parts.indexDefinitions (ds.flatMap (definitionsOf next)) }
  | [], parts => by simp
  | d :: ds, parts => by
      rw [List.foldl_cons, indexStep_eq, foldl_indexStep previous next ds]
      simp [pushAll_append]

theorem foldl_renameStep (previous next : Table) : ∀ (rs : List (Column × Column)) (parts : Parts),
    rs.foldl (renameStep previous next) parts = { parts with
      indexRemovals := pushAll parts.indexRemovals (rs.flatMap (renameRemovals previous))
      indexDefinitions := pushAll parts.indexDefinitions (rs.flatMap (renameDefinitions next)) }
  | [], parts => by simp
  | r :: rs, parts => by
      rw [List.foldl_cons, renameStep_eq, foldl_renameStep previous next rs]
      simp [pushAll_append]

/-- The stored columns a diff renames. -/
def renamedColumns (previous next : Table) (columns : List ColumnDiff) : List (Column × Column) :=
  columns.flatMap (renameOf previous next)

/-- Every removal called for, by the index diff or by a rename. -/
def allRemovals (previous next : Table) (columns : List ColumnDiff) (indices : List IndexDiff) :
    List Statement :=
  indices.flatMap (removalsOf previous) ++
    (renamedColumns previous next columns).flatMap (renameRemovals previous)

/-- Every definition called for, by the index diff or by a rename. -/
def allDefinitions (previous next : Table) (columns : List ColumnDiff) (indices : List IndexDiff) :
    List Statement :=
  indices.flatMap (definitionsOf next) ++
    (renamedColumns previous next columns).flatMap (renameDefinitions next)

/-- **What the three loops collect**, each list on its own. -/
theorem alterParts_eq (previous next : Table) (columns : List ColumnDiff)
    (indices : List IndexDiff) : alterParts previous next columns indices =
      { guards := pushAll (keyGuard previous next columns) (columns.flatMap (guardsOf next))
        indexRemovals := pushAll [] (allRemovals previous next columns indices)
        dataChanges := columns.flatMap (dataOf previous next)
        indexDefinitions := pushAll [] (allDefinitions previous next columns indices)
        renamedColumns := renamedColumns previous next columns } := by
  simp only [alterParts, foldl_columnStep, foldl_indexStep, foldl_renameStep, List.nil_append,
    allRemovals, allDefinitions, pushAll_append, renamedColumns]

/-! ## A migration without guards -/

/-- No statement is a `THROW` guard. -/
def GuardFree (statements : List Statement) : Prop := ∀ s ∈ statements, s.isThrow = false

instance (statements : List Statement) : Decidable (GuardFree statements) :=
  inferInstanceAs (Decidable (∀ s ∈ statements, s.isThrow = false))

theorem keyGuard_throw {previous next : Table} {columns : List ColumnDiff} {s : Statement}
    (h : s ∈ keyGuard previous next columns) : s.isThrow = true := by
  unfold keyGuard at h
  split at h
  · rw [List.mem_singleton.mp h]; rfl
  · exact absurd h List.not_mem_nil

theorem guardsOf_throw {next : Table} {d : ColumnDiff} {s : Statement}
    (h : s ∈ guardsOf next d) : s.isThrow = true := by
  unfold guardsOf at h
  split at h
  · split at h
    · rw [List.mem_singleton.mp h]; rfl
    · exact absurd h List.not_mem_nil
  · exact absurd h List.not_mem_nil

theorem guards_throw {previous next : Table} {columns : List ColumnDiff} {indices : List IndexDiff}
    {s : Statement} (h : s ∈ (alterParts previous next columns indices).guards) :
    s.isThrow = true := by
  rw [alterParts_eq] at h
  rcases mem_pushAll h with h | h
  · exact keyGuard_throw h
  · obtain ⟨d, _, hd⟩ := List.mem_flatMap.mp h
    exact guardsOf_throw hd

/-- What a guard-free rendering says about the diff: the table keeps its name, its
key is unchanged and no altered column changes its type. -/
structure Unguarded (previous next : Table) (columns : List ColumnDiff) : Prop where
  name_eq : previous.name = next.name
  key_same : primaryKeyChanged previous next columns = false
  type_same : ∀ p n, ColumnDiff.alter p n ∈ columns → p.ty = n.ty ∧ p.storageTy = n.storageTy

theorem unguarded_of_guardFree {previous next : Table} {columns : List ColumnDiff}
    {indices : List IndexDiff} (h : GuardFree (renderAlterTable previous next columns indices [])) :
    Unguarded previous next columns := by
  unfold renderAlterTable at h
  split at h
  · -- a renamed table renders as a single guard
    have hthrow := h (.throw ("table rename from " ++ previous.name ++ " to " ++ next.name))
      (by simp [pushUnique])
    exact absurd hthrow (by simp [Statement.isThrow])
  · rename_i hname
    have hnil : (alterParts previous next columns indices).guards = [] := by
      refine List.eq_nil_iff_forall_not_mem.mpr fun s hs => ?_
      have hf := h s (by simp only [List.nil_append, List.mem_append]; tauto)
      rw [guards_throw hs] at hf
      exact absurd hf (by simp)
    rw [alterParts_eq] at hnil
    obtain ⟨hkey, htypes⟩ := pushAll_eq_nil.mp hnil
    refine ⟨not_not.mp hname, ?_, ?_⟩
    · unfold keyGuard at hkey
      split at hkey
      · exact absurd hkey (by simp)
      · rename_i hk; exact Bool.not_eq_true _ ▸ hk
    · intro p n hpn
      have hg := List.flatMap_eq_nil_iff.mp htypes _ hpn
      by_contra hne
      rw [guardsOf, if_pos (by tauto)] at hg
      exact absurd hg (by simp)

/-- The statements of a guard-free rendering, in the order they run. -/
theorem renderAlterTable_of_guardFree {previous next : Table} {columns : List ColumnDiff}
    {indices : List IndexDiff} (h : GuardFree (renderAlterTable previous next columns indices [])) :
    renderAlterTable previous next columns indices [] =
      pushAll [] (allRemovals previous next columns indices) ++
        pushAll [] (allDefinitions previous next columns indices) ++
        columns.flatMap (dataOf previous next) := by
  have hname := (unguarded_of_guardFree h).name_eq
  have hrender : renderAlterTable previous next columns indices [] =
      (alterParts previous next columns indices).guards ++
        (alterParts previous next columns indices).indexRemovals ++
        (alterParts previous next columns indices).indexDefinitions ++
        (alterParts previous next columns indices).dataChanges := by
    simp [renderAlterTable, hname]
  have hnil : (alterParts previous next columns indices).guards = [] := by
    refine List.eq_nil_iff_forall_not_mem.mpr fun s hs => ?_
    have hf := h s (by rw [hrender]; simp only [List.mem_append]; tauto)
    rw [guards_throw hs] at hf
    exact absurd hf (by simp)
  rw [hrender, hnil, alterParts_eq, List.nil_append]

end ToastySurreal
