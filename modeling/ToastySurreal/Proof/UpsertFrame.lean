import ToastySurreal.Plain
import ToastySurreal.Proof.Parameters
import ToastySurreal.Proof.WriteRead

/-!
# What an upsert leaves alone

An upsert that updates runs one `SET` for a record that may be there or not: a column
it does not share is assigned `col ?? value`. On a record that is there, this keeps
what the column holds and fills in what is absent; nothing else of the record changes,
and no other record. `upsert_frame` says so for every run.
-/

namespace ToastySurreal

open Results Prog

section Frame

variable [Sdk] [Surql] {table : Table} {q : Query} {rid : RecordId}

/-! ## Assignments -/

omit [Sdk] [Surql] in
theorem recordRow_set_ne {o : Object} {name other : String} {v : SurValue} (h : name ≠ other) :
    Object.field (recordRow rid (o.set other v)) name = Object.field (recordRow rid o) name := by
  by_cases hid : name = "id"
  · rw [hid, recordRow_id, recordRow_id]
  · rw [recordRow_field hid, recordRow_field hid, Object.field_set_ne h]

omit [Sdk] in
/-- **Assignments to other names leave a field alone.** -/
theorem applySets_frame {name : String} : ∀ {sets : List SetClause} {o o' : Object},
    (∀ clause ∈ sets, clause.name ≠ name) → applySets q rid sets o = .ok o' →
    Object.field (recordRow rid o') name = Object.field (recordRow rid o) name
  | [], o, o', _, h => by injection h with h; rw [h]
  | clause :: sets, o, o', hn, h => by
      rw [applySets] at h
      obtain ⟨v, _, hrest⟩ := bind_eq_ok h
      rw [applySets_frame (fun c hc => hn c (List.mem_cons_of_mem _ hc)) hrest]
      exact recordRow_set_ne (hn clause List.mem_cons_self).symm

omit [Sdk] in
/-- Assignments run one after the other. -/
theorem applySets_append {sets' : List SetClause} : ∀ {sets : List SetClause} {o o' : Object},
    applySets q rid (sets ++ sets') o = .ok o' →
    ∃ o₁, applySets q rid sets o = .ok o₁ ∧ applySets q rid sets' o₁ = .ok o'
  | [], o, o', h => ⟨o, rfl, h⟩
  | clause :: sets, o, o', h => by
      rw [List.cons_append, applySets] at h
      obtain ⟨v, hv, hrest⟩ := bind_eq_ok h
      obtain ⟨o₁, h₁, h₂⟩ := applySets_append hrest
      refine ⟨o₁, ?_, h₂⟩
      rw [applySets, hv]
      exact h₁

/-! ## The create-only columns -/

/-- The source gives the column no value of its own to create it with. -/
def Skipped (table : Table) (clause : UpsertClause) (p : ColumnId × Value) : Prop :=
  isPrimaryKey table (table.column p.1) = true ∨
    (mutationOf clause.shared (table.column p.1).id).isSome = true ∨ p.2 = .null

/-- The query binds these parameters. -/
def Binding (q : Query) (binds : Binds) : Prop := ∀ p v, (p, v) ∈ binds.values → q.param p = v

omit [Surql] in
/-- What a step of the loop over the source's columns adds. -/
theorem createOnlySets_cons {clause : UpsertClause} {row : Row} {cid : ColumnId}
    {columns : List ColumnId} {position : Nat} {b b' : Binds} {sets : List SetClause}
    (h : createOnlySets table clause row (cid :: columns) position b = .ok (sets, b')) :
    (Skipped table clause (cid, rowAt row position) ∧
      createOnlySets table clause row columns (position + 1) b = .ok (sets, b')) ∨
    ∃ s rest, ¬ Skipped table clause (cid, rowAt row position) ∧
      toSurrealForColumn (rowAt row position) (table.column cid) = .ok s ∧
      sets = ⟨(table.column cid).name, .orParam (b.push s).1⟩ :: rest ∧
      createOnlySets table clause row columns (position + 1) (b.push s).2 = .ok (rest, b') := by
  rw [createOnlySets] at h
  dsimp only at h
  split at h
  · rename_i hskip
    rw [Bool.or_eq_true] at hskip
    exact .inl ⟨hskip.imp_right .inl, h⟩
  · rename_i hskip
    rw [Bool.or_eq_true, not_or] at hskip
    obtain ⟨v, hv, h₁⟩ := bind_eq_ok h
    have hval := rowValue_ok hv
    subst hval
    split at h₁
    · rename_i hnull
      exact .inl ⟨.inr (.inr (Value.isNull_iff.mp hnull)), h₁⟩
    · rename_i hnull
      obtain ⟨s, hs, h₂⟩ := bind_eq_ok h₁
      obtain ⟨⟨rest, b₂⟩, hrest, hok⟩ := bind_eq_ok h₂
      injection hok with hok; injection hok with h1 h2; subst h1 h2
      refine .inr ⟨s, rest, ?_, hs, rfl, hrest⟩
      rintro (hk | hk | hk)
      · exact hskip.1 hk
      · exact hskip.2 hk
      · exact hnull (Value.isNull_iff.mpr hk)

omit [Surql] in
theorem createOnlySets_grows {clause : UpsertClause} {row : Row} : ∀ {columns : List ColumnId}
    {position : Nat} {b b' : Binds} {sets : List SetClause},
    createOnlySets table clause row columns position b = .ok (sets, b') → Grows b b'
  | [], _, b, b', sets, h => by
      injection h with h; injection h with h1 h2; subst h2
      exact .refl b
  | cid :: columns, position, b, b', sets, h => by
      rcases createOnlySets_cons h with ⟨_, hrest⟩ | ⟨s, rest, _, _, _, hrest⟩
      · exact createOnlySets_grows hrest
      · exact (Grows.push b s).trans (createOnlySets_grows hrest)

/-- **The create-only assignments** always succeed: a column the source gives a value keeps
what it holds or takes the value, and every other field stays. -/
theorem createOnlySets_apply {clause : UpsertClause} {row : Row} : ∀ {columns : List ColumnId}
    {position : Nat} {b b' : Binds} {sets : List SetClause} {o o' : Object}, columns.Nodup →
    (∀ cid ∈ columns, cid ∈ table.columns.map Column.id) →
    createOnlySets table clause row columns position b = .ok (sets, b') → Binding q b' →
    applySets q rid sets o = .ok o' →
    (∀ name, (∀ p ∈ rowPairs row columns position, (table.column p.1).name = name →
      Skipped table clause p) →
      Object.field (recordRow rid o') name = Object.field (recordRow rid o) name) ∧
    ∀ p ∈ rowPairs row columns position, ¬ Skipped table clause p → (table.column p.1).name ≠ "id" →
      ∃ s, toSurrealForColumn p.2 (table.column p.1) = .ok s ∧
        Object.field (recordRow rid o') (table.column p.1).name =
          coalesce (Object.field (recordRow rid o) (table.column p.1).name) s
  | [], _, b, b', sets, o, o', _, _, h, _, happly => by
      injection h with h; injection h with h1 h2; subst h1
      injection happly with happly; subst happly
      exact ⟨fun _ _ => rfl, fun p hp => absurd hp List.not_mem_nil⟩
  | cid :: columns, position, b, b', sets, o, o', hn, hids, h, hq, happly => by
      obtain ⟨hcid, hn⟩ := List.nodup_cons.mp hn
      have hids' := fun c hc => hids c (List.mem_cons_of_mem _ hc)
      rw [rowPairs]
      rcases createOnlySets_cons h with ⟨hskip, hrest⟩ | ⟨s, rest, hskip, hs, rfl, hrest⟩
      · obtain ⟨hframe, hset⟩ := createOnlySets_apply hn hids' hrest hq happly
        constructor
        · intro name hname
          exact hframe name fun p hp => hname p (List.mem_cons_of_mem _ hp)
        · intro p hp hnot hid
          rcases List.mem_cons.mp hp with rfl | hp
          · exact absurd hskip hnot
          · exact hset p hp hnot hid
      · rw [applySets] at happly
        obtain ⟨v, hv, happly'⟩ := bind_eq_ok happly
        obtain ⟨hframe, hset⟩ := createOnlySets_apply hn hids' hrest hq happly'
        have hparam : q.param (b.push s).1 = s :=
          hq _ _ ((createOnlySets_grows hrest).grows.subset (by simp [Binds.push]))
        have hv : v = coalesce (Object.field (recordRow rid o) (table.column cid).name) s := by
          rw [SetRhs.value, hparam] at hv
          injection hv with hv
          exact hv.symm
        constructor
        · intro name hname
          rw [hframe name fun p hp => hname p (List.mem_cons_of_mem _ hp)]
          refine recordRow_set_ne fun hc => ?_
          exact hskip (hname _ List.mem_cons_self hc.symm)
        · intro p hp hnot hid
          rcases List.mem_cons.mp hp with rfl | hp
          · -- no later column has the same name
            refine ⟨s, hs, ?_⟩
            rw [hframe _ fun p hp hname => absurd hname (rowPairs_name_ne hids hcid hp),
              recordRow_field hid, Object.field_set_self, hv]
          · obtain ⟨s', hs', hfield⟩ := hset p hp hnot hid
            refine ⟨s', hs', ?_⟩
            rw [hfield, recordRow_set_ne (rowPairs_name_ne hids hcid hp)]

omit [Surql] in
/-- Without a create-only assignment, the source has nothing to create. -/
theorem createOnlySets_nil {clause : UpsertClause} {row : Row} : ∀ {columns : List ColumnId}
    {position : Nat} {b b' : Binds}, createOnlySets table clause row columns position b =
    .ok ([], b') → ∀ p ∈ rowPairs row columns position, Skipped table clause p
  | [], _, _, _, _, p, hp => absurd hp List.not_mem_nil
  | cid :: columns, position, b, b', h, p, hp => by
      rcases createOnlySets_cons h with ⟨hskip, hrest⟩ | ⟨s, rest, _, _, hsets, _⟩
      · rw [rowPairs] at hp
        rcases List.mem_cons.mp hp with rfl | hp
        · exact hskip
        · exact createOnlySets_nil hrest p hp
      · exact absurd hsets (by simp)

/-! ## The shared mutations -/

omit [Surql] in
theorem defaultParam_grows {column : Column} {b b' : Binds} {default : Option Assignment}
    {d : String} (h : defaultParam column b default = .ok (d, b')) : Grows b b' := by
  unfold defaultParam at h
  split at h
  · obtain ⟨s, _, hok⟩ := bind_eq_ok h
    injection hok with hok; injection hok with _ h2; subst h2
    exact .push b s
  · exact absurd h (by simp)

omit [Surql] in
/-- A shared mutation assigns its own column. -/
theorem renderSharedMutation_spec {column : Column} {default : Option Assignment} {b b' : Binds}
    {assignment : Assignment} {set : SetClause}
    (h : renderSharedMutation column default b assignment = .ok (set, b')) :
    set.name = column.name ∧ Grows b b' := by
  cases assignment with
  | set v =>
      rw [renderSharedMutation] at h
      split at h
      · injection h with h; injection h with h1 h2; subst h1 h2
        exact ⟨rfl, .refl b⟩
      · obtain ⟨s, _, hok⟩ := bind_eq_ok h
        injection hok with hok; injection hok with h1 h2; subst h1 h2
        exact ⟨rfl, .push b s⟩
  | add v | subtract v | append v =>
      rw [renderSharedMutation] at h
      obtain ⟨⟨d, b₁⟩, hd, h₁⟩ := bind_eq_ok h
      obtain ⟨s, _, hok⟩ := bind_eq_ok h₁
      injection hok with hok; injection hok with h1 h2; subst h1 h2
      exact ⟨rfl, (defaultParam_grows hd).trans (.push b₁ s)⟩
  | other debug => exact absurd h (by simp [renderSharedMutation])

omit [Surql] in
/-- Shared mutations assign shared columns. -/
theorem sharedSets_spec {clause : UpsertClause} : ∀ {shared : List (ColumnId × Assignment)}
    {b b' : Binds} {sets : List SetClause}, sharedSets table clause b shared = .ok (sets, b') →
    sets.map SetClause.name = shared.map (fun a => (table.column a.1).name) ∧ Grows b b'
  | [], b, b', sets, h => by
      injection h with h; injection h with h1 h2; subst h1 h2
      exact ⟨rfl, .refl b⟩
  | (cid, assignment) :: rest, b, b', sets, h => by
      rw [sharedSets] at h
      obtain ⟨⟨set, b₁⟩, hset, h₁⟩ := bind_eq_ok h
      obtain ⟨⟨sets', b₂⟩, hrest, hok⟩ := bind_eq_ok h₁
      injection hok with hok; injection hok with h1 h2; subst h1 h2
      obtain ⟨hname, hgrows⟩ := renderSharedMutation_spec hset
      obtain ⟨hnames, hgrows'⟩ := sharedSets_spec hrest
      exact ⟨by rw [List.map_cons, List.map_cons, hname, hnames], hgrows.trans hgrows'⟩

/-! ## The whole statement -/

omit [Sdk] [Surql] in
/-- The parameters of an upsert are those it rendered. -/
theorem binding_values {sql : Sql} {rid : RecordId} {binds : Binds} (h : binds.Numbered) :
    Binding ⟨sql, ("rid", rid.value) :: binds.values⟩ binds := by
  intro p v hp
  have hne : p ≠ "rid" := by
    rintro rfl
    exact h.not_rid (List.mem_map_of_mem hp)
  rw [Query.param, AssocMap.lookup, if_neg hne.symm, AssocMap.lookup_of_mem h.nodup hp]
  rfl

/-- What becomes of a column that is not shared. -/
structure Kept (table : Table) (row : Row) (columns : List ColumnId) (c : Column)
    (before after : SurValue) : Prop where
  /-- What it holds stays. -/
  held : before ≠ .none → before ≠ .null → after = before
  /-- Without a value to create it with, it stays as it is. -/
  unsourced : isPrimaryKey table c = true ∨ valueOf row columns c.id = .null → after = before
  /-- When it is absent, the source's value fills it in. -/
  absent : before = .none → isPrimaryKey table c = false → valueOf row columns c.id ≠ .null →
    toSurrealForColumn (valueOf row columns c.id) c = .ok after

/-- What an upsert does to the records: only its own record changes, and of that only
shared columns and absent ones. -/
structure Framed (table : Table) (op : Upsert) (clause : UpsertClause) (row : Row) (rid : RecordId)
    (o : Object) (s s' : Records) : Prop where
  others : ∀ rid', rid' ≠ rid → AssocMap.lookup rid' s' = AssocMap.lookup rid' s
  columns : ∃ o', AssocMap.lookup rid s' = some o' ∧ ∀ c ∈ table.columns,
    mutationOf clause.shared c.id = none → Kept table row op.insert.columns c
      (Object.field (recordRow rid o) c.name) (Object.field (recordRow rid o') c.name)

variable {op : Upsert} {clause : UpsertClause} {row : Row} {o : Object}

omit [Sdk] [Surql] in
/-- A `MERGE` of nothing. -/
theorem mergeObject_nil (o : Object) : mergeObject o [] = o := rfl

omit [Surql] in
/-- A row without a value for a non-key column has no content. -/
theorem content_nil {columns : List ColumnId} {content : Object}
    (hskip : ∀ p ∈ rowPairs row columns 0, isPrimaryKey table (table.column p.1) = true ∨ p.2 =
      .null)
    (h : buildRow "upsert" table columns row = .ok (rid, content)) : content = [] := by
  unfold buildRow at h
  obtain ⟨⟨content', pk⟩, hsplit, hrest⟩ := bind_eq_ok h
  obtain ⟨rid', _, hok⟩ := bind_eq_ok hrest
  injection hok with hok; injection hok with _ hcontent; subst hcontent
  cases content' with
  | nil => rfl
  | cons field fields =>
      have hnone := (splitRow_spec hsplit).2 field.1 fun p hp _ => hskip p hp
      rw [AssocMap.lookup_nil, AssocMap.lookup, if_pos rfl] at hnone
      exact absurd hnone (by simp)

/-- What the statement of an upsert does: it assigns, or it merges the content. -/
inductive SentUpsert (table : Table) (op : Upsert) (clause : UpsertClause) (row : Row)
    (content : Object) (q : Query) : UpsertBody → Prop where
  | merge {p : String} {b : Binds}
      (hcreated : createOnlySets table clause row op.insert.columns 0 .empty = .ok ([], b))
      (hshared : clause.shared = []) (hp : q.param p = .object content) :
      SentUpsert table op clause row content q (.merge p)
  | set {created shared : List SetClause} {b₁ b₂ : Binds}
      (hcreated : createOnlySets table clause row op.insert.columns 0 .empty = .ok (created, b₁))
      (hshared : sharedSets table clause b₁ clause.shared = .ok (shared, b₂)) (hbind : Binding q b₂)
      (hsome : created ++ shared ≠ []) :
      SentUpsert table op clause row content q (.set (created ++ shared))

omit [Surql] in
theorem upsertQuery_sent {content : Object} {returning : Bool}
    (hq : upsertQuery table op.insert clause row rid content returning = .ok q) :
    ∃ body, q.sql = .upsert body returning ∧ q.recordId "rid" = some rid ∧
      SentUpsert table op clause row content q body := by
  unfold upsertQuery at hq
  obtain ⟨⟨created, b₁⟩, hcreated, hq₁⟩ := bind_eq_ok hq
  obtain ⟨⟨shared, b₂⟩, hset, hq₂⟩ := bind_eq_ok hq₁
  obtain ⟨hnames, hgrows⟩ := sharedSets_spec hset
  have hnum : b₂.Numbered :=
    hgrows.numbered ((createOnlySets_grows hcreated).numbered Binds.numbered_empty)
  dsimp only at hq₂
  split at hq₂
  · rename_i hempty
    injection hq₂ with hq₂; subst hq₂
    obtain ⟨rfl, rfl⟩ : created = [] ∧ shared = [] := by simpa using hempty
    have hparam := @binding_values (.upsert (.merge (b₂.push (.object content)).1) returning) rid
      (b₂.push (.object content)).2 (hnum.push _) (b₂.push (.object content)).1 (.object content)
      (by simp [Binds.push])
    exact ⟨_, rfl, rfl, .merge hcreated (by simpa using hnames.symm) hparam⟩
  · rename_i hempty
    injection hq₂ with hq₂; subst hq₂
    exact ⟨_, rfl, rfl, .set hcreated hset (binding_values hnum) (by simpa using hempty)⟩

omit [Surql] in
/-- Without anything to assign, there is nothing to merge either. -/
theorem content_merged {content : Object} {b : Binds}
    (hcreated : createOnlySets table clause row op.insert.columns 0 .empty = .ok ([], b))
    (hshared : clause.shared = [])
    (hbuild : buildRow "upsert" table op.insert.columns row = .ok (rid, content)) :
    (∀ p ∈ rowPairs row op.insert.columns 0, isPrimaryKey table (table.column p.1) = true ∨ p.2 =
      .null) ∧ content = [] := by
  have hskip : ∀ p ∈ rowPairs row op.insert.columns 0,
      isPrimaryKey table (table.column p.1) = true ∨ p.2 = .null := by
    intro p hp
    rcases createOnlySets_nil hcreated p hp with hk | hk | hk
    · exact .inl hk
    · rw [hshared] at hk; exact absurd hk (by simp [mutationOf])
    · exact .inr hk
  exact ⟨hskip, content_nil hskip hbuild⟩

omit [Sdk] [Surql] in
/-- A column that no assignment is to has a name of its own. -/
theorem not_assigned_name {as : List (ColumnId × Assignment)}
    (hids : ∀ a ∈ as, a.1 ∈ table.columns.map Column.id) {c : Column} (hc : c ∈ table.columns)
    (hnot : mutationOf as c.id = none) : ∀ a ∈ as, (table.column a.1).name ≠ c.name := by
  intro a ha hname
  obtain ⟨hcol, hid⟩ := Table.column_mem (hids a ha)
  have hsame : table.column a.1 = c := Table.eq_of_name hcol hc hname
  have hnofind := List.find?_eq_none.mp (Option.map_eq_none_iff.mp hnot) a ha
  rw [← hsame, hid] at hnofind
  exact hnofind (by simp)

/-- Shared mutations leave the columns that are not shared alone. -/
theorem sharedSets_frame {shared : List SetClause} {b b' : Binds} {o' : Object} {name : String}
    (hset : sharedSets table clause b clause.shared = .ok (shared, b'))
    (happly : applySets q rid shared o = .ok o')
    (hname : ∀ a ∈ clause.shared, (table.column a.1).name ≠ name) :
    Object.field (recordRow rid o') name = Object.field (recordRow rid o) name := by
  refine applySets_frame (fun set hmem => ?_) happly
  have hmem' : set.name ∈ shared.map SetClause.name := List.mem_map_of_mem hmem
  rw [(sharedSets_spec hset).1] at hmem'
  obtain ⟨a, ha, hsame⟩ := List.mem_map.mp hmem'
  rw [← hsame]
  exact hname a ha

/-- **What the generated statement makes of a column that is not shared**: without a value in
the source it stays, and a value of the source fills in what is absent. -/
theorem upsertQuery_fills {content o' : Object} {body : UpsertBody} (hn : op.insert.columns.Nodup)
    (hids : ∀ cid ∈ op.insert.columns, cid ∈ table.columns.map Column.id)
    (hshared : ∀ a ∈ clause.shared, a.1 ∈ table.columns.map Column.id)
    (hbuild : buildRow "upsert" table op.insert.columns row = .ok (rid, content))
    (hsent : SentUpsert table op clause row content q body)
    (happly : applyBody q rid o body = .ok o') {c : Column} (hc : c ∈ table.columns)
    (hnot : mutationOf clause.shared c.id = none) :
    (isPrimaryKey table c = true ∨ valueOf row op.insert.columns c.id = .null →
      Object.field (recordRow rid o') c.name = Object.field (recordRow rid o) c.name) ∧
    (isPrimaryKey table c = false → valueOf row op.insert.columns c.id ≠ .null → c.name ≠ "id" →
      ∃ s, toSurrealForColumn (valueOf row op.insert.columns c.id) c = .ok s ∧
        Object.field (recordRow rid o') c.name =
        coalesce (Object.field (recordRow rid o) c.name) s) := by
  have hmem : valueOf row op.insert.columns c.id ≠ .null → c.id ∈ op.insert.columns := by
    intro hv
    by_contra hno
    exact hv (valueOf_of_not_mem hno)
  cases hsent with
  | merge hcreated hnone hp =>
      -- the record is merged with nothing
      obtain ⟨hskip, hcontent⟩ := content_merged hcreated hnone hbuild
      rw [applyBody, hp, hcontent] at happly
      injection happly with happly
      rw [mergeObject_nil] at happly
      subst happly
      refine ⟨fun _ => rfl, fun hk hv => ?_⟩
      rcases hskip _ (mem_rowPairs hn (hmem hv)) with hk' | hv'
      · rw [Table.column_id hc, hk] at hk'; exact absurd hk' (by simp)
      · exact absurd hv' hv
  | set hcreated hset hbind _ =>
      obtain ⟨o₁, happly₁, happly₂⟩ := applySets_append happly
      obtain ⟨hframe, hsets⟩ := createOnlySets_apply hn hids hcreated
        (fun p v hp => hbind p v ((sharedSets_spec hset).2.grows.subset hp)) happly₁
      rw [sharedSets_frame hset happly₂ (not_assigned_name hshared hc hnot)]
      constructor
      · intro hskip
        refine hframe c.name fun p hp hname => ?_
        have hcid : p.1 ∈ op.insert.columns := by
          rw [← rowPairs_keys row op.insert.columns 0]; exact List.mem_map_of_mem hp
        obtain ⟨hcol, hid⟩ := Table.column_mem (hids p.1 hcid)
        have hpc : table.column p.1 = c := Table.eq_of_name hcol hc hname
        rcases hskip with hk | hv
        · exact .inl (hpc ▸ hk)
        · rw [hpc] at hid
          rw [hid, valueOf_of_mem hn hp] at hv
          exact .inr (.inr hv)
      · intro hk hv hid
        have hnotskip : ¬ Skipped table clause (c.id, valueOf row op.insert.columns c.id) := by
          unfold Skipped
          rw [Table.column_id hc]
          rintro (hk' | hk' | hk')
          · rw [hk] at hk'; exact absurd hk' (by simp)
          · rw [hnot] at hk'; exact absurd hk' (by simp)
          · exact hv hk'
        have hfield := hsets _ (mem_rowPairs hn (hmem hv)) hnotskip (by rwa [Table.column_id hc])
        rwa [Table.column_id hc] at hfield

/-- **What the generated statement keeps of the record.** -/
theorem upsertQuery_kept {content o' : Object} {body : UpsertBody} (hn : op.insert.columns.Nodup)
    (hids : ∀ cid ∈ op.insert.columns, cid ∈ table.columns.map Column.id)
    (hshared : ∀ a ∈ clause.shared, a.1 ∈ table.columns.map Column.id)
    (hbuild : buildRow "upsert" table op.insert.columns row = .ok (rid, content))
    (hsent : SentUpsert table op clause row content q body)
    (happly : applyBody q rid o body = .ok o') {c : Column} (hc : c ∈ table.columns)
    (hnot : mutationOf clause.shared c.id = none) :
    Kept table row op.insert.columns c (Object.field (recordRow rid o) c.name)
      (Object.field (recordRow rid o') c.name) := by
  obtain ⟨hstays, hfills⟩ := upsertQuery_fills hn hids hshared hbuild hsent happly hc hnot
  by_cases hid : c.name = "id"
  · -- the field reads as the record id, before and after
    rw [hid, recordRow_id, recordRow_id]
    exact ⟨fun _ _ => rfl, fun _ => rfl, fun h => absurd h (by simp [RecordId.value])⟩
  · by_cases hskip : isPrimaryKey table c = true ∨ valueOf row op.insert.columns c.id = .null
    · refine ⟨fun _ _ => hstays hskip, hstays, fun _ hk hv => ?_⟩
      rcases hskip with hk' | hv'
      · rw [hk] at hk'; exact absurd hk' (by simp)
      · exact absurd hv' hv
    · obtain ⟨hk, hv⟩ := not_or.mp hskip
      obtain ⟨v, hstored, hfield⟩ := hfills (Bool.eq_false_iff.mpr hk) hv hid
      rw [hfield]
      refine ⟨fun h1 h2 => ?_, fun h => absurd h hskip, fun h _ _ => ?_⟩
      · unfold coalesce
        split
        · exact absurd ‹_› h1
        · exact absurd ‹_› h2
        · rfl
      · rw [h]; exact hstored

variable {conn : Connection} {s s' : Records}

/-- A run of an upsert that updates: it fails and changes nothing, or its statement ran. -/
theorem execUpsert_update {content : Object} {out : Except Error ExecResponse}
    (hsource : upsertSource table op = .ok (clause, row)) (haction : clause.action = .update)
    (hbuild : buildRow "upsert" table op.insert.columns row = .ok (rid, content))
    (h : (execUpsert conn table op).Runs recordStore.Handle s s' out) :
    (s' = s ∧ ∃ err, out = .error err) ∨ ∃ returning q v,
      upsertQuery table op.insert clause row rid content returning = .ok q ∧
      Records.exec s q (.ok v) s' := by
  unfold execUpsert at h
  simp only [hsource, lift_ok_bind, hbuild] at h
  rcases runs_lift_bind.mp h with ⟨e, _, rfl, rfl⟩ | ⟨returning, _, h₁⟩
  · exact .inl ⟨rfl, e, rfl⟩
  rw [haction] at h₁
  rcases runs_lift_bind.mp h₁ with ⟨e, _, rfl, rfl⟩ | ⟨q, hq, h₂⟩
  · exact .inl ⟨rfl, e, rfl⟩
  rcases Database.runs_runQuery_bind.mp h₂ with ⟨e, hexec, rfl⟩ | ⟨v, s₁, hexec, h₃⟩
  · exact .inl ⟨Records.exec_error hexec, _, rfl⟩
  · obtain ⟨rfl, _⟩ := runs_lift.mp h₃
    exact .inr ⟨_, q, v, hq, hexec⟩

/-- **An update is a frame** but for what is absent: whatever it returns, an upsert that
updates a record that is there has either changed nothing or left every other record,
and every column it does not share that holds something or has no source, as it was. -/
theorem upsert_frame {content : Object} {out : Except Error ExecResponse}
    (hsource : upsertSource table op = .ok (clause, row)) (haction : clause.action = .update)
    (htargets : Targets table op.insert.columns)
    (hshared : ∀ a ∈ clause.shared, a.1 ∈ table.columns.map Column.id)
    (hbuild : buildRow "upsert" table op.insert.columns row = .ok (rid, content))
    (ho : AssocMap.lookup rid s = some o)
    (h : (execUpsert conn table op).Runs recordStore.Handle s s' out) :
    (s' = s ∧ ∃ err, out = .error err) ∨ Framed table op clause row rid o s s' := by
  rcases execUpsert_update hsource haction hbuild h with hfail | ⟨returning, q, v, hq, hexec⟩
  · exact .inl hfail
  · obtain ⟨body, hsql, hrid, hsent⟩ := upsertQuery_sent hq
    have hwrote := hexec
    simp only [Records.exec, hsql, hrid] at hwrote
    rcases hwrote with ⟨⟨err, herr⟩, _⟩ | ⟨rid', o', hr, happly, rfl, _⟩
    · exact absurd herr (by simp)
    · injection hr with hr; subst hr
      rw [ho, Option.getD_some] at happly
      refine .inr ⟨fun rid' hne => AssocMap.lookup_insert_ne hne _ _, o',
        AssocMap.lookup_insert_self .., fun c hc hnot => ?_⟩
      exact upsertQuery_kept htargets.nodup htargets.known hshared hbuild hsent happly hc hnot

end Frame

/-- An upsert of a person's name. -/
def nameUpsert : Upsert :=
  ⟨⟨[⟨0, 0⟩, ⟨0, 1⟩], some [[some (.i64 1), some (.string "Ada")]], none⟩,
    some ⟨some [⟨0, 0⟩], .update, [], []⟩⟩

/-- A person whose name is absent is given one. -/
theorem nameUpsert_runs : let := plain
    let := plainSurql
    (execUpsert .new people nameUpsert).Runs recordStore.Handle [(⟨"people", .number 1⟩, [])]
      [(⟨"people", .number 1⟩, [("name", .string "Ada")])] (.ok (.count 1)) := by
  let := plain
  let := plainSurql
  refine ⟨.ok (.array [.object (recordRow ⟨"people", .number 1⟩ [("name", .string "Ada")])]), _,
    .inr ⟨⟨"people", .number 1⟩, [("name", .string "Ada")], rfl, rfl, rfl, rfl⟩, rfl, rfl⟩

/-- The update branch changes a column it does not share: the name that was absent. -/
theorem upsert_fills_absent : ¬ ∀ (op : Upsert) (clause : UpsertClause) (row : Row) (rid : RecordId)
    (content o : Object) (s s' : Records) (resp : ExecResponse),
    @upsertSource people op = .ok (clause, row) → clause.action = .update →
    @buildRow plain "upsert" people op.insert.columns row = .ok (rid, content) →
    AssocMap.lookup rid s = some o →
    (@execUpsert plain .new people op).Runs (@recordStore plainSurql).Handle s s' (.ok resp) →
    ∃ o', AssocMap.lookup rid s' = some o' ∧ ∀ c ∈ people.columns, mutationOf clause.shared c.id =
    none →
      Object.field (recordRow rid o') c.name = Object.field (recordRow rid o) c.name := by
  intro h
  obtain ⟨o', ho', hcols⟩ :=
    h nameUpsert _ _ ⟨"people", .number 1⟩ _ [] _ _ _ rfl rfl rfl rfl nameUpsert_runs
  have hname := hcols ⟨⟨0, 1⟩, "name", .string, .text⟩ (by decide) rfl
  injection ho' with ho'; subst ho'
  exact absurd hname (by simp [recordRow, AssocMap.insert, Object.field, AssocMap.lookup])

/-- Visitors, with how often they came. -/
def visitors : Table where
  id := 0
  name := "visitors"
  columns := [⟨⟨0, 0⟩, "id", .i64, .integer 8⟩, ⟨⟨0, 1⟩, "name", .string, .text⟩,
    ⟨⟨0, 2⟩, "visits", .i64, .integer 8⟩, ⟨⟨0, 3⟩, "city", .string, .text⟩]
  primaryKey := [⟨0, 0⟩]
  indices := []

/-- One visit more, or the first one. -/
def visitClause : UpsertClause :=
  ⟨some [⟨0, 0⟩], .update, [(⟨0, 2⟩, .add (.i64 1))], [(⟨0, 2⟩, .set (.i64 0))]⟩

/-- A visitor comes, with a name and a city. -/
def visit : Upsert :=
  ⟨⟨[⟨0, 0⟩, ⟨0, 1⟩, ⟨0, 2⟩, ⟨0, 3⟩],
    some [[some (.i64 1), some (.string "Ada"), some (.i64 1), some (.string "Bath")]], none⟩,
    some visitClause⟩

/-- The name that is there stays, the visit counts, and the city that is absent is filled in. -/
theorem visit_framed : let := plain
    let := countingSurql
    Framed visitors visit visitClause
    [some (.i64 1), some (.string "Ada"), some (.i64 1), some (.string "Bath")]
      ⟨"visitors", .number 1⟩ [("name", .string "Eve"), ("visits", .number (.int 2))]
      [(⟨"visitors", .number 1⟩, [("name", .string "Eve"), ("visits", .number (.int 2))])]
      [(⟨"visitors", .number 1⟩,
        [("name", .string "Eve"), ("visits", .number (.int 3)), ("city", .string "Bath")])] := by
  let := plain
  let := countingSurql
  have hrun : (execUpsert .new visitors visit).Runs recordStore.Handle
      [(⟨"visitors", .number 1⟩, [("name", .string "Eve"), ("visits", .number (.int 2))])]
      [(⟨"visitors", .number 1⟩,
        [("name", .string "Eve"), ("visits", .number (.int 3)), ("city", .string "Bath")])]
      (.ok (.count 1)) :=
    ⟨_, _, .inr ⟨⟨"visitors", .number 1⟩, _, rfl, rfl, rfl, rfl⟩, rfl, rfl⟩
  have htargets : Targets visitors visit.insert.columns := ⟨by decide, by decide, by decide⟩
  have hframe := upsert_frame rfl rfl htargets (by decide) rfl rfl hrun
  rcases hframe with ⟨hsame, _⟩ | hframe
  · exact absurd hsame (by simp)
  · exact hframe

end ToastySurreal
