import ToastySurreal.Proof.Releases

/-!
# Rows through the releases

A row stays in its table while releases alter it, and a field goes where the column changes
say. One release loses nothing if its moves are in an order that overwrites no field
before it is read, and no column enters or leaves the key (`RowMoved.carried`). Along any
number of releases, however they are applied, the value a column held at the start is what
the column it has become holds: `rows_carried`.
-/

namespace ToastySurreal

open Moves Prog Prog.Pool

/-! ## One alteration -/

/-- No column enters the key or leaves it. -/
def KeysKept (previous next : Table) (columns : List ColumnDiff) : Prop :=
  ∀ p ∈ previous.columns, ∀ n, Image next columns p n →
    isPrimaryKey next n = isPrimaryKey previous p

variable {previous next : Table} {columns : List ColumnDiff} {row row' : Object}

theorem KeysKept.noneStranded (h : KeysKept previous next columns) :
    NoneStranded previous next columns := by
  intro p hp n hi hpk hnk
  rw [h p hp n hi, hpk] at hnk
  exact absurd hnk (by simp)

/-- **Rows stay well-formed**: a field that is left belongs to a stored column. -/
theorem RowMoved.conforms (h : RowMoved previous next columns row row')
    (hd : IsColumnDiff previous next columns) (hkeys : KeysKept previous next columns)
    (hc : Conforms previous row) : Conforms next row' := by
  intro name hne
  rw [h.fields] at hne
  by_cases hfilled : ∃ m ∈ fieldMoves previous next columns, m.dst = some name
  · obtain ⟨m, hm, hdst⟩ := hfilled
    obtain ⟨p, _, n, halt, _, hn, hnk⟩ := dst_of_mem hd hm hdst
    exact ⟨n, (hd.alter_mem p n halt).2, hn, hnk⟩
  · have hnofill : ∀ m ∈ fieldMoves previous next columns, m.dst ≠ some name :=
      fun m hm he => hfilled ⟨m, hm, he⟩
    by_cases hemptied : ∃ m ∈ fieldMoves previous next columns, m.src = name
    · exact absurd (run_src hemptied hnofill) hne
    · -- nothing moves the field: its column is still there under its name
      have hno : ∀ m ∈ fieldMoves previous next columns, m.src ≠ name :=
        fun m hm he => hemptied ⟨m, hm, he⟩
      rw [run_frame hno hnofill] at hne
      obtain ⟨q, hq, rfl, hqk⟩ := hc name hne
      obtain ⟨k, hi, hor⟩ := image_of_no_move hd hq hqk hno
      have hkk : isPrimaryKey next k = false := (hkeys q hq k hi).trans hqk
      rcases hor with hkn | hkey
      · exact ⟨k, hi.mem hd, hkn, hkk⟩
      · rw [hkk] at hkey
        exact absurd hkey (by simp)

/-! ## One release -/

variable {κ : Type} {first : List Table} {diffs : List TableDiff} {schema : List Table}
  {Matched : Table → Table → Prop} {c c' : TableStore κ} {p n : Table}

/-- **What a release does to the rows** of a table it alters, and of one it does not. -/
theorem IsSchemaDiff.rows (hd : IsSchemaDiff first schema diffs Matched) (hprev : ValidSchema first)
    (hnext : ValidSchema schema) (hc : c.definitions = completed (fun _ => none) first)
    (hrun : runStore (generate diffs) c = some c') (hp : p ∈ first) :
    (∀ n columns indices, .alter p n columns indices ∈ diffs →
      ∀ k, Option.Rel (RowMoved p n columns) (c.row p.name k) (c'.row n.name k)) ∧
    ∀ n ∈ schema, n.name = p.name → (∀ m columns indices, .alter p m columns indices ∉ diffs) →
      ∀ k, c'.row n.name k = c.row p.name k := by
  have hg := guardFree_of_runStore hrun
  obtain ⟨c₁, hrun₁, _, hat⟩ := hd.migrates hprev hnext hg hc
  obtain rfl : c₁ = c' := Option.some.inj (hrun₁.symm.trans hrun)
  have hnames := (runStore_generate hg c).2.1
  have hstored : (c p.name).map StoredTable.indices = some p.definition :=
    (congrFun hc p.name).trans (completed_of_mem hprev.names hp)
  have hsame : ∀ q ∈ first, q.name = p.name → q = p := fun q hq hname =>
    List.inj_on_of_nodup_map hprev.names hq hp hname
  have h := hat p.name
  generalize hbefore : c p.name = before at h hstored
  generalize hafter : c₁ p.name = after at h
  cases h with
  | created _ _ => exact absurd hstored (by simp)
  | absent _ _ => exact absurd hstored (by simp)
  | @dropped q rows hdrop hname =>
      obtain rfl := hsame q ((hd.drop_iff q).mp hdrop).1 hname
      have hgone := ((hd.drop_iff q).mp hdrop).2
      refine ⟨fun n columns indices halter =>
        absurd (hd.altered q n columns indices halter).1 (hgone n), ?_⟩
      intro n hn hname hno
      rcases hd.matched_name q hp n hn hname.symm with hm | ⟨m, hm, _⟩
      · exact absurd hm (hgone n)
      · exact absurd hm (hgone m)
  | @altered q m columns indices rows rows' halter hname hrows =>
      have hqname := hnames q m columns indices halter
      obtain rfl := hsame q (hd.matched_mem q m (hd.altered q m columns indices halter).1).1
        (hqname.trans hname)
      refine ⟨fun n columns' indices' halter' k => ?_, fun n hn hname hno =>
        absurd halter (hno m columns indices)⟩
      obtain rfl := hd.matched_fun q m n (hd.altered q m columns indices halter).1
        (hd.altered q n columns' indices' halter').1
      obtain ⟨-, -, rfl, rfl⟩ := TableDiff.alter.inj (hd.alter_unique halter halter')
      rw [TableStore.row, TableStore.row, hname, hbefore, hafter]
      exact hrows k
  | @unaltered q m rows hm hno hname =>
      obtain rfl := hsame q (hd.matched_mem q m hm).1 ((hd.matched_names hnames hm).trans hname)
      refine ⟨fun n columns indices halter => ?_, fun n hn hn' _ k => ?_⟩
      · obtain rfl := hd.matched_fun q m n hm (hd.altered q n columns indices halter).1
        exact absurd halter (hno columns indices)
      · rw [TableStore.row, TableStore.row, hn', hbefore, hafter]
        rfl

/-! ## Any number of releases -/

/-- A stored column of a table through the releases: in each it is what the column changes
make of it, moved in a safe order, or its table is not altered. -/
inductive Traced : List Release → Table → Column → Table → Column → Prop where
  | start (t : Table) (x : Column) : Traced [] t x t x
  | altered {r : Release} {rs : List Release} {p n t : Table} {columns : List ColumnDiff}
      {indices : List IndexDiff} {x y z : Column} (h : .alter p n columns indices ∈ r.diffs)
      (hforward : Forward (fieldMoves p n columns)) (hkeys : KeysKept p n columns)
      (hx : Image n columns x y) (hrest : Traced rs n y t z) : Traced (r :: rs) p x t z
  | unaltered {r : Release} {rs : List Release} {p n t : Table} {x y z : Column}
      (hno : ∀ m columns indices, .alter p m columns indices ∉ r.diffs) (hn : n ∈ r.schema)
      (hname : n.name = p.name) (hkeys : KeysKept p n []) (hx : Image n [] x y)
      (hrest : Traced rs n y t z) : Traced (r :: rs) p x t z

/-- The row is well-formed, and its value has moved along. -/
def Carried (p n : Table) (x y : Column) (row row' : Object) : Prop :=
  Conforms p row → Conforms n row' ∧ row'.field y.name = row.field x.name

/-- One altered table, one column of it. -/
theorem RowMoved.carried (h : RowMoved p n columns row row') (hd : IsColumnDiff p n columns)
    (hforward : Forward (fieldMoves p n columns)) (hkeys : KeysKept p n columns) {x y : Column}
    (hx : x ∈ p.columns) (hxk : isPrimaryKey p x = false) (hy : Image n columns x y) :
    Carried p n x y row row' := by
  intro hc
  have hyk : isPrimaryKey n y = false := (hkeys x hx y hy).trans hxk
  exact ⟨h.conforms hd hkeys hc,
    ((h.preserved hforward hkeys.noneStranded hc).kept x hx y hy hyk).2⟩

theorem Carried.trans {t : Table} {x y z : Column} {row'' : Object} (h : Carried p n x y row row')
    (h' : Carried n t y z row' row'') : Carried p t x z row row'' := by
  intro hc
  obtain ⟨hc', hfield⟩ := h hc
  obtain ⟨hc'', hfield'⟩ := h' hc'
  exact ⟨hc'', hfield'.trans hfield⟩

theorem rel_trans {A : Type} {P Q S : A → A → Prop} : ∀ {a b c : Option A}, Option.Rel P a b →
    Option.Rel Q b c → (∀ a b c, P a b → Q b c → S a c) → Option.Rel S a c
  | _, _, _, .none, .none, _ => .none
  | _, _, _, .some h, .some h', htrans => .some (htrans _ _ _ h h')

theorem rel_mono {A : Type} {P Q : A → A → Prop} : ∀ {a b : Option A}, Option.Rel P a b →
    (∀ a b, P a b → Q a b) → Option.Rel Q a b
  | _, _, .none, _ => .none
  | _, _, .some h, himp => .some (himp _ _ h)

/-- Without a column change a table's rows are well-formed as they are. -/
theorem carried_same (hd : IsColumnDiff p n []) (hkeys : KeysKept p n []) {x y : Column}
    (hy : Image n [] x y) : Carried p n x y row row := by
  intro hc
  have huntouched : ∀ q, Untouched [] q := fun q d hd => absurd hd List.not_mem_nil
  refine ⟨fun name hne => ?_, ?_⟩
  · obtain ⟨q, hq, rfl, hqk⟩ := hc name hne
    obtain ⟨m, hm, hname⟩ := hd.kept q hq (huntouched q)
    exact ⟨m, hm, hname, (hkeys q hq m (.inr ⟨huntouched q, hm, hname⟩)).trans hqk⟩
  · rcases hy with hy | ⟨_, _, hname⟩
    · exact absurd hy List.not_mem_nil
    · rw [hname]

theorem IsSchemaDiff.same_columns (hd : IsSchemaDiff first schema diffs Matched) (hp : p ∈ first)
    (hn : n ∈ schema) (hname : n.name = p.name)
    (hno : ∀ m columns indices, .alter p m columns indices ∉ diffs) : IsColumnDiff p n [] := by
  rcases hd.matched_name p hp n hn hname.symm with hm | ⟨m, hm, hne⟩
  · exact (hd.unaltered p n hm (hno n)).2.1
  · exact absurd (hd.unaltered p m hm (hno m)).1 hne

/-- **Through any number of releases** every row is still there, and holds in the column that was
followed what it held. -/
theorem Releases.carries {rs : List Release} (h : Releases first rs) : ∀ {c c' : TableStore κ}
    {p n : Table} {x y : Column}, c.definitions = completed (fun _ => none) first →
    runStore (scriptOf rs) c = some c' → p ∈ first → x ∈ p.columns → isPrimaryKey p x = false →
    Traced rs p x n y → ∀ k, Option.Rel (Carried p n x y) (c.row p.name k) (c'.row n.name k) := by
  induction h with
  | nil _ =>
      intro c c' p n x y _ hrun _ _ _ hfollowed k
      obtain rfl : c = c' := Option.some.inj hrun
      cases hfollowed
      cases c.row p.name k with
      | none => exact .none
      | some row => exact .some fun hc => ⟨hc, rfl⟩
  | @cons first r rs Matched hprev hd hrest ih =>
      intro c c' p t x z hc hrun hp hx hxk hfollowed k
      rw [scriptOf, List.flatMap_cons, runStore_append] at hrun
      obtain ⟨c₁, hone, hlater⟩ := Option.bind_eq_some_iff.mp hrun
      obtain ⟨c₂, htwo, hdef, _⟩ := hd.migrates hprev hrest.valid (guardFree_of_runStore hone) hc
      obtain rfl : c₂ = c₁ := Option.some.inj (htwo.symm.trans hone)
      obtain ⟨haltered, hunaltered⟩ := hd.rows hprev hrest.valid hc hone hp
      cases hfollowed with
      | @altered _ _ _ n _ columns indices _ y _ halter hforward hkeys hy hfollowed =>
          have hdiff := (hd.altered p n columns indices halter).2.1
          have hnext := ih hdef hlater
            (hd.matched_mem p n (hd.altered p n columns indices halter).1).2
            (hy.mem hdiff) ((hkeys x hx y hy).trans hxk) hfollowed k
          have hmoved := haltered n columns indices halter k
          have hcarried : Option.Rel (Carried p n x y) (c.row p.name k) (c₂.row n.name k) :=
            rel_mono hmoved fun _ _ hm => hm.carried hdiff hforward hkeys hx hxk hy
          exact rel_trans hcarried hnext fun _ _ _ => Carried.trans
      | @unaltered _ _ _ n _ _ y _ hno hn hname hkeys hy hfollowed =>
          have hdiff := hd.same_columns hp hn hname hno
          have hnext := ih hdef hlater hn (hy.mem hdiff) ((hkeys x hx y hy).trans hxk) hfollowed k
          have hcarried : Option.Rel (Carried p n x y) (c.row p.name k) (c₂.row n.name k) := by
            rw [hunaltered n hn hname hno k]
            cases c.row p.name k with
            | none => exact .none
            | some row => exact .some (carried_same hdiff hkeys hy)
          exact rel_trans hcarried hnext fun _ _ _ => Carried.trans

/-! ## However they are applied -/

theorem Releases.take {rs : List Release} (h : Releases first rs) :
    ∀ m, Releases first (rs.take m) := by
  induction h with
  | nil h =>
      intro m
      rw [List.take_nil]
      exact .nil h
  | cons hprev hd hrest ih =>
      intro m
      cases m with
      | zero => exact .nil hprev
      | succ m => exact .cons hprev hd (ih m)

/-- **However connections race to apply releases**, no row is lost and none appears in a table
that is followed through those that are tracked, and what a column held is in the column it has
become. -/
theorem rows_carried {D : Database} {T : TrackingTable D} {others : Char → List Char} {ι : Type}
    [DecidableEq ι] {rs : List Release} {requests : ι → Request} {d₀ : D.State} {w : Callers D ι}
    (R : ReadsScripts T others κ) (hplan : Planned first rs) (hreq : ∀ i, (requests i).IsOf rs)
    (hnone : T.tracked d₀ = [])
    (hfirst : (R.tables d₀).definitions = completed (fun _ => none) first)
    (h : Staged T rs requests d₀ w) : ∃ m ≤ rs.length,
      (T.tracked w.shared.committed).Perm ((rs.take m).map fun r => trackingRecord r.id) ∧
      ∀ p n x y, p ∈ first → x ∈ p.columns → isPrimaryKey p x = false → Traced (rs.take m) p x n y →
        ∀ k, Option.Rel (Carried p n x y) ((R.tables d₀).row p.name k)
          ((R.tables w.shared.committed).row n.name k) := by
  obtain ⟨m, hm, _, htracked, hran⟩ := h.applies R hplan hreq hnone
  exact ⟨m, hm, htracked, fun p n x y hp hx hxk hfollowed k =>
    (hplan.releases.take m).carries hfirst hran hp hx hxk hfollowed k⟩

/-! ## A renamed column -/

def valueColumn : Column := ⟨⟨0, 1⟩, "value", .string, .text⟩

def titleColumn : Column := ⟨⟨0, 1⟩, "title", .string, .text⟩

theorem rename_planned : Planned [itemsPrevious] [renameItems] where
  releases := .cons valid_versions.1 renameItems_isSchemaDiff (.nil valid_versions.2)
  ids := by decide
  written := by decide

theorem renameValue_keysKept : KeysKept itemsPrevious itemsNext [renameValue] := by
  intro p hp n hi
  simp only [itemsPrevious, List.mem_cons, List.not_mem_nil, or_false] at hp
  have hn := hi.mem renameValue_isColumnDiff
  simp only [itemsNext, List.mem_cons, List.not_mem_nil, or_false] at hn
  rcases hp with rfl | rfl
  · rcases hi with hi | ⟨_, _, hname⟩
    · exact absurd hi (by simp [renameValue])
    · rcases hn with rfl | rfl
      · decide
      · exact absurd hname (by decide)
  · rcases hi with hi | ⟨huntouched, _⟩
    · obtain ⟨-, rfl⟩ := ColumnDiff.alter.inj (List.mem_singleton.mp hi)
      decide
    · exact absurd rfl (huntouched renameValue List.mem_cons_self)

theorem value_followed : Traced [renameItems] itemsPrevious valueColumn itemsNext titleColumn :=
  .altered List.mem_cons_self (by decide) renameValue_keysKept (.inl List.mem_cons_self)
    (.start _ _)

/-- The items, with one of them stored. -/
def storedItems : tableLedger.State := (⟨false, [], []⟩, fun name =>
  (completed (fun _ => none) [itemsPrevious] name).map fun d =>
    ⟨d, fun k => if k = 7 then some [("value", .string "x")] else none⟩)

theorem item_conforms : Conforms itemsPrevious [("value", .string "x")] := by
  intro name hne
  by_cases hname : name = "value"
  · exact ⟨valueColumn, by simp [itemsPrevious, valueColumn], hname.symm, by decide⟩
  · exact absurd (by simp [Object.field, AssocMap.lookup, Ne.symm hname]) hne

/-- The value is in the renamed column. -/
theorem item_carried : ∃ w : Callers tableLedger Bool, ∃ row,
    TableStore.row w.shared.committed.2 "items" 7 = some row ∧ row.field "title" = .string "x" := by
  let requests : Bool → Request := fun _ =>
    .apply .new renameItems.id renameItems.name renameItems.statements
  have hdef : (ledgerScripts.tables storedItems).definitions =
      completed (fun _ => none) [itemsPrevious] := by
    funext name
    simp [ledgerScripts, storedItems, TableStore.definitions, Function.comp_def]
  obtain ⟨c', hrun, -, _⟩ :=
    renameItems_isSchemaDiff.migrates valid_versions.1 valid_versions.2 (by decide) hdef
  have hready : (requests false).Ready tableLedgerTable [renameItems] storedItems := by
    intro earlier r later hsplit _ e he
    cases earlier with
    | nil => exact absurd he List.not_mem_nil
    | cons a earlier =>
        have hlength := congrArg List.length hsplit
        simp at hlength
  have htrack : ledger.exec ⟨true, [], []⟩ (trackQuery renameItems.id renameItems.name)
      (.ok (.array [])) ⟨true, [trackingRecord 2], []⟩ := rfl
  have hbegin : Staged tableLedgerTable [renameItems] requests storedItems
      (Callers.begin requests storedItems) := .begin
  have hthread : (Callers.begin requests storedItems).threads false = (requests false).program :=
    rfl
  obtain ⟨w, hw, hd, -, -⟩ :=
    staged_ledger (l := ⟨false, [], []⟩) (c := storedItems.2) rename_planned hbegin
    List.mem_cons_self hthread rfl hready htrack hrun
  have hreq : ∀ second, (requests second).IsOf [renameItems] :=
    fun _ => ⟨renameItems, List.mem_cons_self, rfl, rfl, rfl⟩
  obtain ⟨m, hm, htracked, hrows⟩ := rows_carried ledgerScripts rename_planned hreq rfl hdef hw
  -- one release is tracked, so the row is followed through it
  have hcount : 1 = ([renameItems].take m).length := by
    have hlength := htracked.length_eq
    rw [hd, List.length_map] at hlength
    exact hlength
  have hone : m = 1 := by
    rw [List.length_take] at hcount
    simp at hcount hm
    omega
  subst hone
  have hrow := hrows itemsPrevious itemsNext valueColumn titleColumn List.mem_cons_self
    (by simp [itemsPrevious, valueColumn]) (by decide) value_followed 7
  have hstart : (ledgerScripts.tables storedItems).row itemsPrevious.name 7 =
      some [("value", .string "x")] := by
    decide
  rw [hstart] at hrow
  cases hend : (ledgerScripts.tables w.shared.committed).row itemsNext.name 7 with
  | none =>
      rw [hend] at hrow
      cases hrow
  | some row =>
      rw [hend] at hrow
      cases hrow with
      | some hcarried => exact ⟨w, row, hend, (hcarried item_conforms).2⟩

end ToastySurreal
