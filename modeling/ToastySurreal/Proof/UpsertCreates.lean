import ToastySurreal.Proof.Ignore
import ToastySurreal.Proof.KeyedWrites
import ToastySurreal.Proof.UpsertFrame

/-!
# An upsert creates what an insert would

On a record id that is not there, an upsert has to do what an insert does, and it does
so by other means: it splits the row again, and what the insert writes as content it
writes as assignments to a record that is empty. A column that is shared takes its
mutation, on the default that was declared for it. `upsert_creates_iff` says when the
two agree. They share the flaws of other writes by key: a sum is a sum only of what is
stored as numbers, and a column called `id` reads as the record id.
-/

namespace ToastySurreal

open Results Prog

section

variable [Sdk] {table : Table} {row : Row}

/-! ## The row -/

theorem splitRow_op {op op' : String} : ∀ {columns : List ColumnId} {position : Nat}
    {content : Object} {pk : List (Nat × Value)} {out : Object × List (Nat × Value)},
    splitRow op table row columns position content pk = .ok out →
    splitRow op' table row columns position content pk = .ok out
  | [], _, _, _, _, h => h
  | cid :: columns, position, content, pk, out, h => by
      rw [splitRow] at h ⊢
      obtain ⟨v, hv, h⟩ := bind_eq_ok h
      have hv' : rowValue op' row position = .ok v := by
        unfold rowValue at hv ⊢
        split at hv
        · exact hv
        · exact absurd hv (by simp)
      rw [ok_bind hv']
      split at h
      · rename_i hkey
        rw [if_pos hkey]
        exact splitRow_op h
      · rename_i hkey
        rw [if_neg hkey]
        split at h
        · rename_i hnull
          rw [if_pos hnull]
          exact splitRow_op h
        · rename_i hnull
          rw [if_neg hnull]
          obtain ⟨stored, hstored, h⟩ := bind_eq_ok h
          rw [ok_bind hstored]
          exact splitRow_op h

/-- Every operation splits a row alike. -/
theorem buildRow_op {op op' : String} {columns : List ColumnId} {out : RecordId × Object}
    (h : buildRow op table columns row = .ok out) : buildRow op' table columns row = .ok out := by
  unfold buildRow at h ⊢
  obtain ⟨split, hsplit, h⟩ := bind_eq_ok h
  rw [ok_bind (splitRow_op hsplit)]
  exact h

end

section

variable [Sdk] [Surql] {table : Table} {q : Query} {rid : RecordId} {clause : UpsertClause}

/-! ## The shared columns -/

/-- `d` is stored for the declared default of a column. -/
def DefaultIs (c : Column) (default : Option Assignment) (d : SurValue) : Prop :=
  ∃ v, default = some (.set v) ∧ toSurrealForColumn v c = .ok d

/-- What a shared mutation makes of a column that holds `x`. -/
def Mutates (c : Column) (default : Option Assignment) (x z : SurValue) : Assignment → Prop
  | .set v => Assigns c x z (.set v)
  | .add v => ∃ d, DefaultIs c default d ∧ Assigns c (coalesce x d) z (.add v)
  | .subtract v => ∃ d, DefaultIs c default d ∧ Assigns c (coalesce x d) z (.subtract v)
  | .append v => ∃ d w, DefaultIs c default d ∧ appended v c = .ok w ∧
      Surql.concat (coalesce x d) w = .ok z
  | .other _ => False

omit [Surql] in
theorem defaultParam_is {c : Column} {default : Option Assignment} {b b' : Binds} {p : String}
    (h : defaultParam c b default = .ok (p, b')) :
    ∃ d, DefaultIs c default d ∧ (p, b') = b.push d := by
  unfold defaultParam at h
  split at h
  · rename_i v
    obtain ⟨d, hd, hok⟩ := bind_eq_ok h
    injection hok with hok
    exact ⟨d, ⟨v, rfl, hd⟩, hok.symm⟩
  · exact absurd h (by simp)

/-- A rendered mutation does what the mutation says. -/
theorem renderSharedMutation_mutates {c : Column} {default : Option Assignment} {b b' : Binds}
    {a : Assignment} {set : SetClause} {x z : SurValue}
    (h : renderSharedMutation c default b a = .ok (set, b')) (hq : Binding q b')
    (hz : set.rhs.value q x = .ok z) : Mutates c default x z a := by
  cases a with
  | set v =>
      have hassign : renderAssignment c b (.set v) = .ok (set, b') := h
      exact (renderAssignment_assigns hassign hq).2 x z hz
  | add v | subtract v =>
      rw [renderSharedMutation] at h
      obtain ⟨⟨p, b₁⟩, hp, h₁⟩ := bind_eq_ok h
      obtain ⟨d, hd, hpush⟩ := defaultParam_is hp
      injection hpush with h1 h2; subst h1 h2
      obtain ⟨w, hw, hok⟩ := bind_eq_ok h₁
      injection hok with hok; injection hok with h1 h2; subst h1 h2
      have hw' : q.param (b.push d).2.nextName = w := hq.push
      have hd' : q.param b.nextName = d := (hq.mono (.push (b.push d).2 w)).push
      exact ⟨d, hd, w, hw, by rw [← hd', ← hw']; exact hz⟩
  | append v =>
      rw [renderSharedMutation] at h
      obtain ⟨⟨p, b₁⟩, hp, h₁⟩ := bind_eq_ok h
      obtain ⟨d, hd, hpush⟩ := defaultParam_is hp
      injection hpush with h1 h2; subst h1 h2
      obtain ⟨w, hw, hok⟩ := bind_eq_ok h₁
      injection hok with hok; injection hok with h1 h2; subst h1 h2
      have hw' : q.param (b.push d).2.nextName = w := hq.push
      have hd' : q.param b.nextName = d := (hq.mono (.push (b.push d).2 w)).push
      exact ⟨d, w, hd, hw, by rw [← hd', ← hw']; exact hz⟩
  | other debug => exact absurd h (by simp [renderSharedMutation])

/-- **Every shared column takes its mutation**, on what it held before the statement. -/
theorem sharedSets_mutates : ∀ {shared : List (ColumnId × Assignment)} {b b' : Binds}
    {sets : List SetClause} {o o' : Object}, (shared.map Prod.fst).Nodup →
    (∀ a ∈ shared, a.1 ∈ table.columns.map Column.id) →
    sharedSets table clause b shared = .ok (sets, b') → Binding q b' →
    applySets q rid sets o = .ok o' → ∀ a ∈ shared, ∃ z,
      Mutates (table.column a.1) (mutationOf clause.defaults a.1)
        (Object.field (recordRow rid o) (table.column a.1).name) z a.2 ∧
      ((table.column a.1).name ≠ "id" →
        Object.field (recordRow rid o') (table.column a.1).name = z)
  | [], _, _, _, _, _, _, _, _, _, _, a, ha => absurd ha List.not_mem_nil
  | (cid, m) :: rest, b, b', sets, o, o', hn, hids, h, hq, happly, a, ha => by
      obtain ⟨hnew, hn⟩ := List.nodup_cons.mp hn
      have hids' := fun a ha => hids a (List.mem_cons_of_mem _ ha)
      -- the columns of other mutations have other names
      have hname : ∀ a ∈ rest, (table.column a.1).name ≠ (table.column cid).name := by
        intro a ha hsame
        obtain ⟨hcol, hid⟩ := Table.column_mem (hids' a ha)
        obtain ⟨hcol', hid'⟩ := Table.column_mem (hids _ List.mem_cons_self)
        have hcid : a.1 = cid :=
          hid.symm.trans ((congrArg Column.id (Table.eq_of_name hcol hcol' hsame)).trans hid')
        exact hnew (List.mem_map.mpr ⟨a, ha, hcid⟩)
      rw [sharedSets] at h
      obtain ⟨⟨set, b₁⟩, hset, h₁⟩ := bind_eq_ok h
      obtain ⟨⟨sets', b₂⟩, hrest, hok⟩ := bind_eq_ok h₁
      injection hok with hok; injection hok with h1 h2; subst h1 h2
      obtain ⟨hsname, _⟩ := renderSharedMutation_spec hset
      obtain ⟨hnames, hgrows⟩ := sharedSets_spec hrest
      rw [applySets] at happly
      obtain ⟨z, hz, happly'⟩ := bind_eq_ok happly
      rw [hsname] at hz happly'
      rcases List.mem_cons.mp ha with rfl | ha
      · refine ⟨z, renderSharedMutation_mutates hset (hq.mono hgrows) hz, fun hid => ?_⟩
        have hother : ∀ s ∈ sets', s.name ≠ (table.column cid).name := by
          intro s hs
          have hmem := List.mem_map_of_mem (f := SetClause.name) hs
          rw [hnames] at hmem
          obtain ⟨a, ha, hsame⟩ := List.mem_map.mp hmem
          rw [← hsame]
          exact hname a ha
        rw [applySets_frame hother happly', recordRow_field hid, Object.field_set_self]
      · obtain ⟨z', hz', hfield⟩ := sharedSets_mutates hn hids' hrest hq happly' a ha
        rw [recordRow_set_ne (hname a ha)] at hz'
        exact ⟨z', hz', hfield⟩

/-! ## The created record -/

/-- What a mutation starts from on a record that is new: the declared default, or nothing for
a value that is set. -/
def StartsFrom (c : Column) (default : Option Assignment) (a : Assignment) (x : SurValue) : Prop :=
  match a with
  | .set _ => x = .none
  | _ => DefaultIs c default x

/-- The columns of an upsert are those of its table, each at most once. -/
structure Upsert.Sharing (table : Table) (op : Upsert) (clause : UpsertClause) : Prop where
  nodup : op.insert.columns.Nodup
  known : ∀ cid ∈ op.insert.columns, cid ∈ table.columns.map Column.id
  shared : ∀ a ∈ clause.shared, a.1 ∈ table.columns.map Column.id
  once : (clause.shared.map Prod.fst).Nodup

/-- The source row gives no column outside the key a value. -/
def Bare (table : Table) (columns : List ColumnId) (row : Row) : Prop :=
  ∀ c ∈ table.columns, isPrimaryKey table c = false → valueOf row columns c.id = .null

/-- **The record an upsert is meant to create** where an insert would create `content`. -/
structure CreatedLike (table : Table) (op : Upsert) (clause : UpsertClause) (row : Row)
    (rid : RecordId) (content o : Object) : Prop where
  /-- A column that is not shared holds what the insert stores. -/
  others : ∀ name, (∀ a ∈ clause.shared, (table.column a.1).name ≠ name) →
    Object.field (recordRow rid o) name = Object.field (recordRow rid content) name
  /-- A shared column holds the result of its mutation on the default. -/
  shared : ∀ a ∈ clause.shared, ∃ x, StartsFrom (table.column a.1)
    (mutationOf clause.defaults a.1) a.2 x ∧
    Effect (table.column a.1) a.2 x (Object.field (recordRow rid o) (table.column a.1).name)
  nothing : clause.shared = [] → Bare table op.insert.columns row → o = []

/-- What an insert of the row stores. -/
structure Inserts (conn : Connection) (table : Table) (op : Upsert) (row : Row) (s : Records)
    (rid : RecordId) (content : Object) : Prop where
  built : buildRow "insert" table op.insert.columns row = .ok (rid, content)
  stored : ∀ ret s' resp, (execInsert conn table op.insert ret).Runs recordStore.Handle s s'
    (.ok resp) → s' = AssocMap.insert rid content s

/-- SurrealQL joins arrays only. -/
class SqlConcat : Prop where
  concat_array : ∀ {v w z : SurValue}, Surql.concat v w = .ok z →
    ∃ xs ys, v = .array xs ∧ w = .array ys ∧ z = .array (xs ++ ys)

theorem Mutates.effect [SqlTyped] [SqlArith] [SqlConcat] {c : Column} {default : Option Assignment}
    {z : SurValue} {a : Assignment} (h : Mutates c default .none z a) (hn : a.Numeric c) :
    ∃ x, StartsFrom c default a x ∧ Effect c a x z := by
  cases a with
  | set v => exact ⟨.none, rfl, Assigns.effect h trivial⟩
  | add v | subtract v =>
      obtain ⟨d, hd, hassign⟩ := h
      exact ⟨d, hd, Assigns.effect hassign hn⟩
  | append v =>
      obtain ⟨d, w, hd, hw, hconcat⟩ := h
      obtain ⟨ys, rfl, hys⟩ := appended_array hw
      obtain ⟨xs, ys', hx, hy, rfl⟩ := SqlConcat.concat_array hconcat
      injection hy with hy; subst hy
      have hx' : d = .array xs := hx
      subst hx'
      exact ⟨_, hd, .append hys⟩
  | other debug => exact h.elim

/-- Only a plain value can be assigned to a column called `id`. -/
theorem Mutates.recordId [SqlTyped] [SqlConcat] {c : Column} {default : Option Assignment}
    {z : SurValue} {a : Assignment} (h : Mutates c default rid.value z a) (hn : a.Numeric c) :
    ∃ v, a = .set v := by
  have hkeep : ∀ d, coalesce rid.value d = rid.value := fun _ => rfl
  cases a with
  | set v => exact ⟨v, rfl⟩
  | add v =>
      obtain ⟨d, _, w, hw, hz⟩ := h
      obtain ⟨m, hm⟩ := hn
      rw [hm] at hw
      injection hw with hw; subst hw
      obtain ⟨n, hid⟩ := SqlTyped.add_number hz
      exact absurd hid (by rw [hkeep]; simp [RecordId.value])
  | subtract v =>
      obtain ⟨d, _, w, hw, hz⟩ := h
      obtain ⟨m, hm⟩ := hn
      rw [hm] at hw
      injection hw with hw; subst hw
      obtain ⟨n, hid⟩ := SqlTyped.sub_number hz
      exact absurd hid (by rw [hkeep]; simp [RecordId.value])
  | append v =>
      obtain ⟨d, w, _, _, hz⟩ := h
      obtain ⟨xs, ys, hid, _⟩ := SqlConcat.concat_array hz
      exact absurd hid (by rw [hkeep]; simp [RecordId.value])
  | other debug => exact h.elim

variable {op : Upsert} {row : Row} {content o : Object} {body : UpsertBody}

omit [Sdk] [Surql] in
/-- A mutation that is found is one of a column of the table. -/
theorem mutationOf_mem {as : List (ColumnId × Assignment)} {c : Column} {m : Assignment}
    (hids : ∀ a ∈ as, a.1 ∈ table.columns.map Column.id) (hc : c ∈ table.columns)
    (h : mutationOf as c.id = some m) : (c.id, m) ∈ as := by
  obtain ⟨a, ha, rfl⟩ := Option.map_eq_some_iff.mp h
  suffices hcid : a.1 = c.id by
    rw [← hcid]
    exact List.mem_of_find?_eq_some ha
  have hindex : a.1.index = c.id.index := by simpa using List.find?_some ha
  obtain ⟨hcol, hid⟩ := Table.column_mem (hids a (List.mem_of_find?_eq_some ha))
  obtain ⟨i, hi⟩ := List.mem_iff_getElem?.mp hcol
  obtain ⟨j, hj⟩ := List.mem_iff_getElem?.mp hc
  rw [Table.id_of_getElem hi] at hid
  rw [← hid, Table.id_of_getElem hj] at hindex ⊢
  dsimp only at hindex
  rw [hindex]

omit [Surql] in
/-- A source column that is skipped, and is not shared, has no content. -/
theorem content_skipped (hop : op.Sharing table clause) {name : String}
    (hname : ∀ a ∈ clause.shared, (table.column a.1).name ≠ name)
    (hskip : ∀ p ∈ rowPairs row op.insert.columns 0, (table.column p.1).name = name →
      Skipped table clause p)
    (hbuild : buildRow "upsert" table op.insert.columns row = .ok (rid, content)) :
    AssocMap.lookup name content = none := by
  obtain ⟨⟨content', pk⟩, hsplit, hrest⟩ := bind_eq_ok hbuild
  obtain ⟨rid', _, hok⟩ := bind_eq_ok hrest
  injection hok with hok; injection hok with _ hcontent; subst hcontent
  rw [(splitRow_spec hsplit).2 name, AssocMap.lookup_nil]
  intro p hp hpname
  rcases hskip p hp hpname with hk | hk | hk
  · exact .inl hk
  · obtain ⟨m, hm⟩ := Option.isSome_iff_exists.mp hk
    have hmem : p.1 ∈ op.insert.columns := by
      rw [← rowPairs_keys row op.insert.columns 0]; exact List.mem_map_of_mem hp
    obtain ⟨hcol, _⟩ := Table.column_mem (hop.known p.1 hmem)
    exact absurd (by rw [Table.column_id hcol, hpname])
      (hname _ (mutationOf_mem hop.shared hcol hm))
  · exact .inr hk

/-- **What is not shared is stored as an insert stores it.** -/
theorem created_others (hop : op.Sharing table clause)
    (hbuild : buildRow "upsert" table op.insert.columns row = .ok (rid, content))
    (hsent : SentUpsert table op clause row content q body)
    (happly : applyBody q rid [] body = .ok o) {name : String}
    (hname : ∀ a ∈ clause.shared, (table.column a.1).name ≠ name) :
    Object.field (recordRow rid o) name = Object.field (recordRow rid content) name := by
  by_cases hid : name = "id"
  · rw [hid, recordRow_id, recordRow_id]
  cases hsent with
  | merge hcreated hnone hp =>
      rw [applyBody, hp, (content_merged hcreated hnone hbuild).2] at happly
      injection happly with happly
      rw [← happly, (content_merged hcreated hnone hbuild).2, mergeObject_nil]
  | set hcreated hset hbind _ =>
      obtain ⟨o₁, happly₁, happly₂⟩ := applySets_append happly
      obtain ⟨hframe, hsets⟩ := createOnlySets_apply hop.nodup hop.known hcreated
        (hbind.mono (sharedSets_spec hset).2) happly₁
      rw [sharedSets_frame hset happly₂ hname]
      by_cases hsource : ∃ p ∈ rowPairs row op.insert.columns 0,
          (table.column p.1).name = name ∧ ¬ Skipped table clause p
      · -- the source's value, in both
        obtain ⟨p, hp, rfl, hskip⟩ := hsource
        obtain ⟨s, hs, hfield⟩ := hsets p hp hskip hid
        obtain ⟨⟨content', pk⟩, hsplit, hrest⟩ := bind_eq_ok hbuild
        obtain ⟨rid', _, hok⟩ := bind_eq_ok hrest
        injection hok with hok; injection hok with _ hcontent; subst hcontent
        rw [Skipped, not_or, not_or] at hskip
        obtain ⟨s', hs', hlookup⟩ := splitRow_stored hop.nodup hop.known hsplit p hp
          (Bool.eq_false_iff.mpr hskip.1) hskip.2.2
        rw [hs] at hs'
        injection hs' with hs'; subst hs'
        rw [hfield, recordRow_field hid, recordRow_field hid, Object.field_nil, Object.field,
          hlookup]
        rfl
      · have hskip : ∀ p ∈ rowPairs row op.insert.columns 0, (table.column p.1).name = name →
            Skipped table clause p := by
          intro p hp hpname
          by_contra hnot
          exact hsource ⟨p, hp, hpname, hnot⟩
        rw [hframe name hskip, recordRow_field hid, recordRow_field hid, Object.field_nil,
          Object.field, content_skipped hop hname hskip hbuild]
        rfl

/-- **What is shared takes its mutation.** -/
theorem upsertQuery_mutates {o' : Object} (hop : op.Sharing table clause)
    (hsent : SentUpsert table op clause row content q body)
    (happly : applyBody q rid o body = .ok o')
    {a : ColumnId × Assignment} (ha : a ∈ clause.shared) : ∃ z,
    Mutates (table.column a.1) (mutationOf clause.defaults a.1)
      (Object.field (recordRow rid o) (table.column a.1).name) z a.2 ∧
    ((table.column a.1).name ≠ "id" → Object.field (recordRow rid o') (table.column a.1).name =
      z) := by
  cases hsent with
  | merge _ hnone _ => exact absurd ha (by rw [hnone]; exact List.not_mem_nil)
  | set hcreated hset hbind _ =>
      obtain ⟨o₁, happly₁, happly₂⟩ := applySets_append happly
      obtain ⟨hframe, _⟩ := createOnlySets_apply hop.nodup hop.known hcreated
        (hbind.mono (sharedSets_spec hset).2) happly₁
      obtain ⟨z, hz, hfield⟩ := sharedSets_mutates hop.once hop.shared hset hbind happly₂ a ha
      rw [hframe] at hz
      · exact ⟨z, hz, hfield⟩
      · -- the source's value of a shared column is not used
        intro p hp hname
        have hmem : p.1 ∈ op.insert.columns := by
          rw [← rowPairs_keys row op.insert.columns 0]; exact List.mem_map_of_mem hp
        obtain ⟨hcol, hid⟩ := Table.column_mem (hop.known p.1 hmem)
        obtain ⟨hcol', hid'⟩ := Table.column_mem (hop.shared a ha)
        have hsame : (table.column p.1).id = a.1 := by rw [Table.eq_of_name hcol hcol' hname, hid']
        refine .inr (.inl ?_)
        rw [mutationOf, Option.isSome_map, List.find?_isSome]
        exact ⟨a, ha, by rw [hsame]; exact decide_eq_true rfl⟩

omit [Surql] in
/-- A row without a value outside the key has nothing to create. -/
theorem createOnlySets_bare {columns : List ColumnId} : ∀ {position : Nat} {b b' : Binds}
    {sets : List SetClause}, (∀ p ∈ rowPairs row columns position, Skipped table clause p) →
    createOnlySets table clause row columns position b = .ok (sets, b') → sets = [] := by
  induction columns with
  | nil =>
      intro position b b' sets _ h
      injection h with h; injection h with h _
      exact h.symm
  | cons cid columns ih =>
      intro position b b' sets hskip h
      rcases createOnlySets_cons h with ⟨_, hrest⟩ | ⟨s, rest, hnot, _⟩
      · exact ih (fun p hp => hskip p (List.mem_cons_of_mem _ hp)) hrest
      · exact absurd (hskip _ List.mem_cons_self) hnot

/-- Without anything to assign, the record has no fields. -/
theorem created_nothing (hop : op.Sharing table clause)
    (hbuild : buildRow "upsert" table op.insert.columns row = .ok (rid, content))
    (hsent : SentUpsert table op clause row content q body)
    (happly : applyBody q rid [] body = .ok o) (hnone : clause.shared = [])
    (hbare : Bare table op.insert.columns row) : o = [] := by
  cases hsent with
  | merge hcreated _ hp =>
      rw [applyBody, hp, (content_merged hcreated hnone hbuild).2] at happly
      injection happly with happly
      rw [← happly, mergeObject_nil]
  | set hcreated hset _ hsome =>
      have hskip : ∀ p ∈ rowPairs row op.insert.columns 0, Skipped table clause p := by
        intro p hp
        have hmem : p.1 ∈ op.insert.columns := by
          rw [← rowPairs_keys row op.insert.columns 0]; exact List.mem_map_of_mem hp
        obtain ⟨hcol, hid⟩ := Table.column_mem (hop.known p.1 hmem)
        by_cases hk : isPrimaryKey table (table.column p.1) = true
        · exact .inl hk
        · have hnull := hbare _ hcol (Bool.eq_false_iff.mpr hk)
          rw [hid, valueOf_of_mem hop.nodup hp] at hnull
          exact .inr (.inr hnull)
      have hcreatedNil := createOnlySets_bare hskip hcreated
      rw [hnone] at hset
      injection hset with hset; injection hset with hsharedNil _
      exact absurd (by rw [hcreatedNil, ← hsharedNil]; rfl) hsome

/-! ## Inserts -/

variable {conn : Connection} {s s' : Records} {out : Except Error ExecResponse}

/-- An insert of a row that was accepted has stored what the row makes. -/
theorem insert_stores {ret : Bool} {resp : ExecResponse} (hvalues : op.insert.values = some [row])
    (hbuild : buildRow "insert" table op.insert.columns row = .ok (rid, content))
    (h : (execInsert conn table op.insert ret).Runs recordStore.Handle s s' (.ok resp)) :
    s' = AssocMap.insert rid content s := by
  unfold execInsert at h
  rw [hvalues] at h
  obtain ⟨returning, _, hrest⟩ := runs_lift_bind_ok.mp h
  obtain ⟨⟨count, records⟩, s₁, hins, hdone⟩ := runs_bind_ok.mp hrest
  obtain ⟨rfl, _⟩ := hdone
  rw [insertRows, hbuild, lift_ok_bind] at hins
  obtain ⟨value, s₂, hq, hrest₁⟩ := runs_bind_ok.mp hins
  obtain ⟨decoded, _, hrest₂⟩ := runs_lift_bind_ok.mp hrest₁
  obtain ⟨rfl, _⟩ := hrest₂
  exact (create_ok.mp (Database.runs_runQuery_ok.mp hq)).2.1

omit [Sdk] [Surql] in
/-- Every operation understands a `RETURNING` alike. -/
theorem returningColumns_op {op op' : String} {returning : Option Returning}
    {out : Option (List Column)}
    (h : returningColumns op table returning = .ok out) : returningColumns op' table returning =
    .ok out := by
  have hcolumns : ∀ {items : List (Option ColumnId)} {cols : List Column},
      returningColumns.columns op table items = .ok cols →
      returningColumns.columns op' table items = .ok cols := by
    intro items
    induction items with
    | nil => intro cols h; exact h
    | cons item items ih =>
        intro cols h
        cases item with
        | none => exact absurd h (by simp [returningColumns.columns])
        | some cid =>
            rw [returningColumns.columns] at h ⊢
            obtain ⟨rest, hrest, hok⟩ := bind_eq_ok h
            rw [ok_bind (ih hrest)]
            exact hok
  cases returning with
  | none => exact h
  | some r =>
      cases r with
      | notProjection | notRecord => exact absurd h (by simp [returningColumns])
      | record items =>
          rw [returningColumns] at h ⊢
          obtain ⟨cols, hcols, hok⟩ := bind_eq_ok h
          rw [ok_bind (hcolumns hcols)]
          exact hok

omit [Sdk] in
/-- A computation in between changes nothing, whatever comes of it. -/
theorem runs_lift_some {α β : Type} {x : Except Error α} {f : α → Action β}
    (h : ∀ a, ∃ out, (f a).Runs recordStore.Handle s s out) :
    ∃ out, (Prog.lift x >>= f).Runs recordStore.Handle s s out := by
  cases x with
  | error e => exact ⟨_, rfl, rfl⟩
  | ok a => exact h a

/-- What an insert of one row can do to the records: what its `CREATE` can do. -/
theorem runs_insert_row {returning : Option (List Column)} {ret : Bool}
    (hvalues : op.insert.values = some [row])
    (hret : returningColumns "insert" table op.insert.returning = .ok returning)
    (hbuild : buildRow "insert" table op.insert.columns row = .ok (rid, content)) :
    (∃ out, (execInsert conn table op.insert ret).Runs recordStore.Handle s s' out) ↔
      ∃ r, Records.exec s (createQuery rid content true) r s' := by
  unfold execInsert
  rw [hvalues]
  simp only [hret, lift_ok_bind]
  constructor
  · intro h
    obtain ⟨out, h⟩ := h
    have hrows : ∃ res,
        (insertRows conn table op.insert.columns (returning.isSome || ret) returning [row]
        0 []).Runs recordStore.Handle s s' res := by
      rcases runs_bind.mp h with ⟨e, hfail, _⟩ | ⟨res, s₁, hrows, hdone⟩
      · exact ⟨_, hfail⟩
      · obtain ⟨rfl, _⟩ := hdone
        exact ⟨_, hrows⟩
    obtain ⟨res, hrows⟩ := hrows
    rw [insertRows, hbuild] at hrows
    rcases Database.runs_runQuery_bind.mp hrows with ⟨err, hexec, _⟩ | ⟨v, s₁, hexec, hrest⟩
    · exact ⟨_, hexec⟩
    · refine ⟨.ok v, ?_⟩
      -- whether the answer decodes or not, the record is there
      rcases runs_lift_bind.mp hrest with ⟨e, _, rfl, _⟩ | ⟨decoded, _, hdone⟩
      · exact hexec
      · obtain ⟨rfl, _⟩ := hdone
        exact hexec
  · intro h
    obtain ⟨r, hexec⟩ := h
    have hrows : ∃ res,
        (insertRows conn table op.insert.columns (returning.isSome || ret) returning [row]
        0 []).Runs recordStore.Handle s s' res := by
      rw [insertRows, hbuild]
      cases r with
      | error err => exact ⟨_, Database.runs_runQuery_bind.mpr (.inl ⟨err, hexec, rfl⟩)⟩
      | ok v =>
          have hrest : ∀ decoded : List Value, ∃ res, (insertRows conn table op.insert.columns
              (returning.isSome || ret) returning [] 1 ([] ++ decoded)).Runs recordStore.Handle s'
              s' res :=
            fun decoded => ⟨_, rfl, rfl⟩
          obtain ⟨res, hres⟩ := runs_lift_some hrest
          exact ⟨res, Database.runs_runQuery_bind.mpr (.inr ⟨v, s', hexec, hres⟩)⟩
    obtain ⟨res, hrows⟩ := hrows
    cases res with
    | error e => exact ⟨_, runs_bind.mpr (.inl ⟨e, hrows, rfl⟩)⟩
    | ok out => exact ⟨_, runs_bind.mpr (.inr ⟨out, s', hrows, rfl, rfl⟩)⟩

/-- **An upsert that ignores does to the records what an insert does.** -/
theorem ignore_stores {clause : UpsertClause} (ret : Bool)
    (hsource : upsertSource table op = .ok (clause, row)) (haction : clause.action = .ignore) :
    (∃ out, (execUpsert conn table op).Runs recordStore.Handle s s' out) ↔
      ∃ out, (execInsert conn table op.insert ret).Runs recordStore.Handle s s' out := by
  -- programs that fail at once are alike: the records stay
  have hfail : ∀ {e : Error},
      (∃ out, (Prog.fail e : Action ExecResponse).Runs recordStore.Handle s s' out) ↔ s' = s := by
    intro e
    constructor
    · intro h
      obtain ⟨out, hs, _⟩ := h
      exact hs
    · intro hs
      exact ⟨_, hs, rfl⟩
  obtain ⟨hclause, hvalues⟩ := upsertSource_ok hsource
  have hop : op.Ignores := ⟨clause, hclause, haction⟩
  cases hret : returningColumns "upsert" table op.insert.returning with
  | error e =>
      -- the checks are the same, only the operation's name in the messages differs
      obtain ⟨e', hret'⟩ : ∃ e', returningColumns "insert" table op.insert.returning = .error e' :=
        exists_error (fun _ => returningColumns_op) hret
      have hinsert : execInsert conn table op.insert ret = .fail e' := by
        unfold execInsert
        rw [hvalues]
        simp only [hret', lift_error_bind]
      rw [hinsert, hfail]
      unfold execUpsert
      simp only [hsource, lift_ok_bind]
      cases hbuild : buildRow "upsert" table op.insert.columns row with
      | error e => exact hfail
      | ok out => simp only [lift_ok_bind, hret]; exact hfail
  | ok returning =>
      have hret' : returningColumns "insert" table op.insert.returning = .ok returning :=
        returningColumns_op hret
      cases hbuild : buildRow "upsert" table op.insert.columns row with
      | error e =>
          obtain ⟨e', hbuild'⟩ : ∃ e', buildRow "insert" table op.insert.columns row = .error e' :=
            exists_error (fun _ => buildRow_op) hbuild
          have hinsert : execInsert conn table op.insert ret = .fail e' := by
            unfold execInsert
            rw [hvalues]
            simp only [hret', lift_ok_bind, insertRows, hbuild', lift_error_bind]
            rfl
          rw [hinsert, hfail]
          unfold execUpsert
          simp only [hsource, lift_ok_bind, hbuild]
          exact hfail
      | ok out =>
          -- both come down to one `CREATE` of the same row
          rw [runs_insert_row hvalues hret' (buildRow_op hbuild)]
          have hattempts : Attempts table op out.1 out.2 returning :=
            ⟨⟨clause, row, hsource, hbuild⟩, hret⟩
          constructor
          · intro h
            obtain ⟨out', hrun⟩ := h
            obtain ⟨r, hexec, _⟩ := (runs_ignore hop hattempts).mp hrun
            exact ⟨r, hexec⟩
          · intro h
            obtain ⟨r, hexec⟩ := h
            exact ⟨_, (runs_ignore hop hattempts).mpr ⟨r, hexec, rfl⟩⟩

/-! ## When they agree -/

/-- An upsert created a record like that of an insert, and changed nothing else. -/
def Agrees (conn : Connection) (table : Table) (op : Upsert) (clause : UpsertClause) (row : Row)
    (s s' : Records) : Prop :=
  ∃ rid content o, Inserts conn table op row s rid content ∧ s' = AssocMap.insert rid o s ∧
    CreatedLike table op clause row rid content o

theorem Effect.set_ne_recordId {c : Column} {v : Value} {x z : SurValue}
    (h : Effect c (.set v) x z) : z ≠ rid.value := by
  intro hz
  cases h with
  | store _ _ hv => exact toSurrealForColumn_ne_recordId rid.table rid.key (by rw [hv, hz]; rfl)
  | remove => exact absurd hz (by simp [RecordId.value])

/-- **When what an upsert creates is right**: what it adds is stored as a number, and no shared
column is called `id`. -/
theorem created_like_iff [SqlTyped] [SqlArith] [SqlConcat] (hop : op.Sharing table clause)
    (hbuild : buildRow "upsert" table op.insert.columns row = .ok (rid, content))
    (hsent : SentUpsert table op clause row content q body)
    (happly : applyBody q rid [] body = .ok o) :
    CreatedLike table op clause row rid content o ↔
      ∀ a ∈ clause.shared, (table.column a.1).name ≠ "id" ∧ a.2.Numeric (table.column a.1) := by
  constructor
  · intro h a ha
    obtain ⟨x, _, heffect⟩ := h.shared a ha
    refine ⟨fun hid => ?_, heffect.numeric⟩
    obtain ⟨z, hz, _⟩ := upsertQuery_mutates hop hsent happly ha
    rw [hid, recordRow_id] at hz heffect
    obtain ⟨v, hv⟩ := hz.recordId heffect.numeric
    rw [hv] at heffect
    exact heffect.set_ne_recordId rfl
  · intro h
    refine ⟨fun name hname => created_others hop hbuild hsent happly hname, fun a ha => ?_,
      fun hnone hbare => created_nothing hop hbuild hsent happly hnone hbare⟩
    obtain ⟨hid, hn⟩ := h a ha
    obtain ⟨z, hz, hfield⟩ := upsertQuery_mutates hop hsent happly ha
    rw [recordRow_field hid, Object.field_nil] at hz
    rw [hfield hid]
    exact hz.effect hn

theorem agrees_iff [SqlTyped] [SqlArith] [SqlConcat]
    (hsource : upsertSource table op = .ok (clause, row)) (hop : op.Sharing table clause)
    (haction : clause.action = .update)
    (habsent : ∀ rid content, buildRow "insert" table op.insert.columns row = .ok (rid, content) →
      AssocMap.lookup rid s = none)
    (h : (execUpsert conn table op).Runs recordStore.Handle s s' out) :
    (s' = s ∧ ∃ err, out = .error err) ∨ (Agrees conn table op clause row s s' ↔
      ∀ a ∈ clause.shared, (table.column a.1).name ≠ "id" ∧ a.2.Numeric (table.column a.1)) := by
  have hvalues := (upsertSource_ok hsource).2
  cases hbuild : buildRow "upsert" table op.insert.columns row with
  | error e =>
      unfold execUpsert at h
      simp only [hsource, lift_ok_bind, hbuild] at h
      obtain ⟨hs, hout⟩ := h
      exact .inl ⟨hs, _, hout⟩
  | ok built =>
  obtain ⟨rid, content⟩ := built
  have hbuild' : buildRow "insert" table op.insert.columns row = .ok (rid, content) :=
    buildRow_op hbuild
  rcases execUpsert_update hsource haction hbuild h with hfail | ⟨returning, q, v, hq, hexec⟩
  · exact .inl hfail
  obtain ⟨body, hsql, hrid, hsent⟩ := upsertQuery_sent hq
  simp only [Records.exec, hsql, hrid] at hexec
  rcases hexec with ⟨⟨err, herr⟩, _⟩ | ⟨rid', o, hr, happly, rfl, _⟩
  · exact absurd herr (by simp)
  injection hr with hr; subst hr
  rw [habsent rid content hbuild', Option.getD_none] at happly
  rw [← created_like_iff hop hbuild hsent happly]
  refine .inr ⟨fun hagrees => ?_, fun hlike => ?_⟩
  · -- the record that was written is the one that is compared
    obtain ⟨rid₁, content₁, o₁, hinserts, hs, hlike⟩ := hagrees
    have hsame := hinserts.built
    rw [hbuild'] at hsame
    injection hsame with hsame; injection hsame with h1 h2; subst h1 h2
    have hlookup := congrArg (AssocMap.lookup rid) hs
    rw [AssocMap.lookup_insert_self, AssocMap.lookup_insert_self] at hlookup
    injection hlookup with hlookup; subst hlookup
    exact hlike
  · exact ⟨rid, content, o, ⟨hbuild', fun _ _ _ hrun => insert_stores hvalues hbuild' hrun⟩, rfl,
      hlike⟩

/-- **The create branch of an upsert and an insert.** On a record id that is not there, an upsert
that updates is refused, or creates the record of an insert with the shared columns mutated,
exactly when it adds only what is stored as a number and shares no column called `id`. One that
ignores does to the records what an insert does. -/
theorem upsert_creates_iff [SqlTyped] [SqlArith] [SqlConcat] (conn : Connection) (table : Table)
    (op : Upsert) (clause : UpsertClause) (row : Row) (s : Records)
    (hsource : upsertSource table op = .ok (clause, row)) (hop : op.Sharing table clause)
    (habsent : ∀ rid content, buildRow "insert" table op.insert.columns row = .ok (rid, content) →
      AssocMap.lookup rid s = none) :
    (clause.action = .update → ∀ s' out, (execUpsert conn table op).Runs recordStore.Handle s s'
      out → (s' = s ∧ ∃ err, out = .error err) ∨ (Agrees conn table op clause row s s' ↔
        ∀ a ∈ clause.shared, (table.column a.1).name ≠ "id" ∧ a.2.Numeric (table.column a.1))) ∧
    (clause.action = .ignore → ∀ s' ret,
      (∃ out, (execUpsert conn table op).Runs recordStore.Handle s s' out) ↔
        ∃ out, (execInsert conn table op.insert ret).Runs recordStore.Handle s s' out) :=
  ⟨fun haction _ _ h => agrees_iff hsource hop haction habsent h,
    fun haction _ ret => ignore_stores ret hsource haction⟩

end

/-! ## A new product -/

theorem countingSurql_concat : @SqlConcat countingSurql :=
  let := countingSurql
  { concat_array := fun {v w z} h => by
      have hplain : Plain.concat v w = .ok z := h
      unfold Plain.concat at hplain
      split at hplain
      · injection hplain with hz
        exact ⟨_, _, rfl, rfl, hz.symm⟩
      · exact absurd hplain (by simp) }

/-- The clause of an upsert that adds to a column which starts at a default. -/
def addTo (cid : ColumnId) (start more : Value) : UpsertClause :=
  ⟨some [⟨0, 0⟩], .update, [(cid, .add more)], [(cid, .set start)]⟩

/-- Product 1, its version 1, and an addition to another column. -/
def addProduct (cid : ColumnId) (start more : Value) : Upsert :=
  ⟨⟨[⟨0, 0⟩, ⟨0, 1⟩], some [[some (.i64 1), some (.i64 1)]], none⟩, some (addTo cid start more)⟩

/-- Five on a price of ten are not fifteen. -/
theorem price_started_joined : let := pricing
    let := countingSurql
    let op := addProduct ⟨0, 3⟩ (.text .decimal 1000) (.text .decimal 500)
    let s' := shop [("version", .number (.int 1)), ("price", .string "10.005.00")]
    (execUpsert .new products op).Runs recordStore.Handle [] s' (.ok (.count 1)) ∧
      ¬ Agrees .new products op (addTo ⟨0, 3⟩ (.text .decimal 1000) (.text .decimal 500))
        [some (.i64 1), some (.i64 1)] [] s' := by
  let := pricing
  let := countingSurql
  have := countingSurql_arith
  have := countingSurql_typed
  have := countingSurql_concat
  have hrun : (execUpsert .new products
      (addProduct ⟨0, 3⟩ (.text .decimal 1000) (.text .decimal 500))).Runs recordStore.Handle []
      (shop [("version", .number (.int 1)), ("price", .string "10.005.00")]) (.ok (.count 1)) :=
    ⟨_, _, .inr ⟨firstProduct, _, rfl, rfl, rfl, rfl⟩, rfl, rfl⟩
  refine ⟨hrun, fun hagrees => ?_⟩
  rcases agrees_iff rfl ⟨by decide, by decide, by decide, by decide⟩ rfl
    (fun _ _ _ => rfl) hrun with
    ⟨_, err, hout⟩ | hiff
  · exact absurd hout (by simp)
  · obtain ⟨_, m, hm⟩ := hiff.mp hagrees _ List.mem_cons_self
    have hstored : toSurrealForColumn (.text .decimal 500) (products.column ⟨0, 3⟩) =
        .ok (.string "5.00") := rfl
    have htext := hstored.symm.trans hm
    injection htext with htext
    exact absurd htext (by simp)

/-- Five on a stock of one are six. -/
theorem stock_started : let := plain
    let := countingSurql
    Agrees .new products (addProduct ⟨0, 2⟩ (.i64 1) (.i64 5)) (addTo ⟨0, 2⟩ (.i64 1) (.i64 5))
      [some (.i64 1), some (.i64 1)] []
      (shop [("version", .number (.int 1)), ("stock", .number (.int 6))]) := by
  let := plain
  let := countingSurql
  have := countingSurql_arith
  have := countingSurql_typed
  have := countingSurql_concat
  have hrun : (execUpsert .new products (addProduct ⟨0, 2⟩ (.i64 1) (.i64 5))).Runs
      recordStore.Handle []
      (shop [("version", .number (.int 1)), ("stock", .number (.int 6))]) (.ok (.count 1)) :=
    ⟨_, _, .inr ⟨firstProduct, _, rfl, rfl, rfl, rfl⟩, rfl, rfl⟩
  rcases (upsert_creates_iff .new products _ _ _ _ rfl ⟨by decide, by decide, by decide, by decide⟩
    (fun _ _ _ => rfl)).1 rfl _ _ hrun with ⟨_, err, hout⟩ | hiff
  · exact absurd hout (by simp)
  · refine hiff.mpr fun a ha => ?_
    rw [List.mem_singleton.mp ha]
    exact ⟨by decide, _, rfl⟩

end ToastySurreal
