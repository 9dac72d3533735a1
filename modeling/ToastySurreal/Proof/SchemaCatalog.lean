import ToastySurreal.Lib.Traces
import ToastySurreal.Proof.IndexMigration
import ToastySurreal.Proof.Routing

/-!
# Pushing a schema

A catalog is the tables that are defined, each with its indices. Statements change it or are
refused, and `schemaStore` is a database of them. Pushing a schema only adds what is missing:
however many connections push at once, and wherever some of them stop, nothing that was
defined is touched, nothing is defined but what they push, and a push that returns has all
of its schema in place.
-/

namespace ToastySurreal

open Prog Prog.Pool

/-! ## The catalog -/

/-- The indices defined on a table. -/
abbrev TableDef := String → Option IndexDef

/-- The tables that are defined. -/
abbrev SchemaCatalog := String → Option TableDef

/-- What a statement does to the catalog; `none` when the database refuses it. Removing a
table removes its indices. -/
def Statement.runSchema (s : Statement) (c : SchemaCatalog) : Option SchemaCatalog :=
  match s with
  | .defineTable table ifNotExists =>
      if ifNotExists ∧ (c table).isSome then some c else Catalog.define table (fun _ => none) c
  | .removeTable table => Catalog.remove table c
  | .defineIndex index table columns unique ifNotExists => do
      let d ← c table
      if ifNotExists ∧ (d index).isSome then some c
      else (Catalog.define index ⟨columns, unique⟩ d).map fun d => Function.update c table (some d)
  | .removeIndex index table => do
      let d ← c table
      (Catalog.remove index d).map fun d => Function.update c table (some d)
  | .throw _ => none
  | .updateSet .. | .updateUnset .. | .returnNone => some c

/-- A database of definitions. It may refuse a statement for reasons of its own. -/
def schemaStore : Database where
  State := SchemaCatalog
  exec c q r c' :=
    match q.sql with
    | .schema s => (∃ err, r = .error err) ∧ c' = c ∨ (∃ v, r = .ok v) ∧ s.runSchema c = some c'
    | _ => c' = c
  atomic := by
    intro c q err c' _ h
    split at h
    · rcases h with ⟨_, h⟩ | ⟨⟨_, hr⟩, _⟩
      · exact h
      · exact absurd hr (by simp)
    · exact h
  reads := by
    intro c q r c' hq h
    split at h
    · rename_i hsql
      rw [hsql] at hq
      exact absurd hq (by simp [Sql.isRead])
    · exact h
  unmatched := by
    intro c q v c' hq h _
    split at h
    · rename_i hsql
      rw [hsql] at hq
      exact absurd hq (by simp [Sql.isConditional])
    · exact h

/-- The indices of a table's own. -/
def Table.definition (t : Table) : TableDef :=
  Catalog.ofList (t.secondary.map fun ix => (ix.name, ⟨t.indexFields ix, ix.unique⟩))

/-- What is defined stays defined as it is. -/
structure Grown (c c' : SchemaCatalog) : Prop where
  tables : ∀ name, (c name).isSome → (c' name).isSome
  indices : ∀ name d d' ix i, c name = some d → c' name = some d' → d ix = some i → d' ix = some i

/-- What a statement that defines something asks for is there. -/
def Statement.Stands (c : SchemaCatalog) : Statement → Prop
  | .defineTable table _ => (c table).isSome
  | .defineIndex index table .. => ∃ d, c table = some d ∧ (d index).isSome
  | _ => True

/-- Every definition is an old one, or one of the statements'. -/
structure MadeOf (c₀ : SchemaCatalog) (ss : Statement → Prop) (c : SchemaCatalog) : Prop where
  tables : ∀ name, (c name).isSome → (c₀ name).isSome ∨ ∃ b, ss (.defineTable name b)
  indices : ∀ name d ix i, c name = some d → d ix = some i →
    (∃ d₀, c₀ name = some d₀ ∧ d₀ ix = some i) ∨ ∃ b, ss (.defineIndex ix name i.columns i.unique b)

theorem Grown.refl (c : SchemaCatalog) : Grown c c :=
  ⟨fun _ h => h, fun _ _ _ _ _ h h' hi => by rw [h] at h'; injection h' with h'; rwa [← h']⟩

theorem Grown.trans {c c' c'' : SchemaCatalog} (h : Grown c c') (h' : Grown c' c'') :
    Grown c c'' where
  tables name hc := h'.tables name (h.tables name hc)
  indices name d d'' ix i hc hc'' hi := by
    obtain ⟨d', hd'⟩ := Option.isSome_iff_exists.mp (h.tables name (by rw [hc]; rfl))
    exact h'.indices name d' d'' ix i hd' hc'' (h.indices name d d' ix i hc hd' hi)

theorem Statement.Stands.mono {c c' : SchemaCatalog} {s : Statement} (h : s.Stands c)
    (hg : Grown c c') : s.Stands c' := by
  cases s with
  | defineTable table b => exact hg.tables table h
  | defineIndex index table columns unique b =>
      obtain ⟨d, hd, hi⟩ := h
      obtain ⟨d', hd'⟩ := Option.isSome_iff_exists.mp (hg.tables table (by rw [hd]; rfl))
      obtain ⟨i, hi⟩ := Option.isSome_iff_exists.mp hi
      exact ⟨d', hd', by rw [hg.indices table d d' index i hd hd' hi]; rfl⟩
  | _ => trivial

/-! ## One definition -/

/-- The statement defines something that is not there yet. -/
def Statement.IfMissing : Statement → Prop
  | .defineTable _ b | .defineIndex _ _ _ _ b => b = true
  | _ => False

theorem Grown.update {c : SchemaCatalog} {name : String} {d' : TableDef}
    (h : ∀ d, c name = some d → ∀ ix i, d ix = some i → d' ix = some i) :
    Grown c (Function.update c name (some d')) := by
  refine ⟨fun name' hc => ?_, fun name' d d₁ ix i hc hc' hi => ?_⟩
  · by_cases hn : name' = name
    · rw [hn, Function.update_self]
      rfl
    · rw [Function.update_of_ne hn]
      exact hc
  · by_cases hn : name' = name
    · subst hn
      rw [Function.update_self] at hc'
      injection hc' with hc'; subst hc'
      exact h d hc ix i hi
    · rw [Function.update_of_ne hn, hc] at hc'
      injection hc' with hc'; subst hc'
      exact hi

theorem MadeOf.update {c₀ c : SchemaCatalog} {ss : Statement → Prop} {name : String} {d' : TableDef}
    (hm : MadeOf c₀ ss c) (ht : (c name).isSome ∨ ∃ b, ss (.defineTable name b))
    (hi : ∀ ix i, d' ix = some i → (∃ d, c name = some d ∧ d ix = some i) ∨
      ∃ b, ss (.defineIndex ix name i.columns i.unique b)) :
    MadeOf c₀ ss (Function.update c name (some d')) := by
  refine ⟨fun name' hc => ?_, fun name' d ix i hc hix => ?_⟩
  · by_cases hn : name' = name
    · subst hn
      exact ht.elim (hm.tables name') .inr
    · rw [Function.update_of_ne hn] at hc
      exact hm.tables name' hc
  · by_cases hn : name' = name
    · subst hn
      rw [Function.update_self] at hc
      injection hc with hc; subst hc
      rcases hi ix i hix with ⟨d, hd, hdix⟩ | hs
      · exact hm.indices name' d ix i hd hdix
      · exact .inr hs
    · rw [Function.update_of_ne hn] at hc
      exact hm.indices name' d ix i hc hix

/-- **A definition that goes for what is missing** adds it or finds it there, and touches
nothing else. -/
theorem Statement.IfMissing.runs {s : Statement} {c c' c₀ : SchemaCatalog} {ss : Statement → Prop}
    (hs : s.IfMissing) (hmem : ss s) (hmade : MadeOf c₀ ss c) (h : s.runSchema c = some c') :
    Grown c c' ∧ s.Stands c' ∧ MadeOf c₀ ss c' := by
  cases s with
  | defineTable table b =>
      obtain rfl : b = true := hs
      rw [Statement.runSchema] at h
      split at h
      · rename_i hthere
        injection h with h; subst h
        exact ⟨.refl c, hthere.2, hmade⟩
      · rename_i hmissing
        have hnone : c table = none := by simpa using hmissing
        rw [Catalog.define, hnone, if_neg (by simp)] at h
        injection h with h; subst h
        refine ⟨.update fun d hd => absurd hd (by rw [hnone]; simp), ?_,
          hmade.update (.inr ⟨true, hmem⟩) fun ix i hi => absurd hi (by simp)⟩
        rw [Statement.Stands, Function.update_self]
        rfl
  | defineIndex index table columns unique b =>
      obtain rfl : b = true := hs
      rw [Statement.runSchema] at h
      obtain ⟨d, hd, h⟩ := Option.bind_eq_some_iff.mp h
      split at h
      · rename_i hthere
        injection h with h; subst h
        exact ⟨.refl c, ⟨d, hd, hthere.2⟩, hmade⟩
      · rename_i hmissing
        have hnone : d index = none := by simpa using hmissing
        rw [Catalog.define, hnone, if_neg (by simp)] at h
        injection h with h; subst h
        refine ⟨.update fun d₁ hd₁ ix i hi => ?_,
          ⟨_, Function.update_self .., by rw [Function.update_self]; rfl⟩,
          hmade.update (.inl (by rw [hd]; rfl)) fun ix i hi => ?_⟩
        · rw [hd] at hd₁
          injection hd₁ with hd₁; subst hd₁
          have hne : ix ≠ index := fun he => absurd hi (by rw [he, hnone]; simp)
          rw [Function.update_of_ne hne]
          exact hi
        · by_cases he : ix = index
          · subst he
            rw [Function.update_self] at hi
            injection hi with hi; subst hi
            exact .inr ⟨true, hmem⟩
          · rw [Function.update_of_ne he] at hi
            exact .inl ⟨d, hd, hi⟩
  | removeTable | removeIndex | updateSet | updateUnset | throw | returnNone => exact hs.elim

/-! ## A push -/

/-- The statements of a push. -/
def pushStatements (tables : List Table) : List Statement :=
  tables.flatMap fun t => defineTableStatements t true

theorem mem_pushStatements {tables : List Table} {s : Statement} : s ∈ pushStatements tables ↔
    ∃ t ∈ tables, s = .defineTable t.name true ∨ ∃ ix ∈ t.secondary, s =
    defineIndexStatement t ix true := by
  simp only [pushStatements, List.mem_flatMap, defineTableStatements, List.mem_cons, List.mem_map]
  constructor
  · rintro ⟨t, ht, h | ⟨ix, hix, rfl⟩⟩
    · exact ⟨t, ht, .inl h⟩
    · exact ⟨t, ht, .inr ⟨ix, hix, rfl⟩⟩
  · rintro ⟨t, ht, h | ⟨ix, hix, rfl⟩⟩
    · exact ⟨t, ht, .inl h⟩
    · exact ⟨t, ht, .inr ⟨ix, hix, rfl⟩⟩

theorem ifMissing_of_push {tables : List Table} {s : Statement} (h : s ∈ pushStatements tables) :
    s.IfMissing := by
  obtain ⟨t, _, rfl | ⟨ix, _, rfl⟩⟩ := mem_pushStatements.mp h <;> rfl

/-- The call of a statement. -/
def Statement.call (s : Statement) : Call := .plain ⟨.schema s, []⟩

theorem asks_go {P : Call → Prop} : ∀ {ss : List Statement}, (∀ s ∈ ss, P s.call) →
    (defineTable.go ss).Asks P
  | [], _ => trivial
  | s :: ss, h => by
      have hquery : (queryPlain (.schema s)).Asks P :=
        Asks.bind ⟨h s List.mem_cons_self, fun r => by cases r <;> trivial⟩ fun _ => trivial
      exact hquery.bind fun _ => asks_go fun s' hs' => h s' (List.mem_cons_of_mem _ hs')

/-- **A push asks for its statements only.** -/
theorem asks_pushTables {P : Call → Prop} : ∀ {tables : List Table},
    (∀ s ∈ pushStatements tables, P s.call) → (pushTables tables).Asks P
  | [], _ => trivial
  | t :: tables, h => by
      refine (asks_go fun s hs => h s ?_).bind fun _ => asks_pushTables fun s hs => h s ?_
      · exact List.mem_append_left _ hs
      · exact List.mem_append_right _ hs

theorem noted_mem {α : Type} {p : Action α} {log log' : List (Call × Reply)} {out : Except Error α}
    (h : p.Runs Noted log log' out) {e : Call × Reply} (he : e ∈ log) : e ∈ log' := by
  obtain ⟨sent, rfl⟩ := noted_extends h
  exact List.mem_append_left _ he

theorem noted_go : ∀ {ss : List Statement} {log log' : List (Call × Reply)},
    (defineTable.go ss).Runs Noted log log' (.ok ()) → ∀ s ∈ ss, ∃ v, (s.call, .ok v) ∈ log'
  | [], _, _, _, s, hs => absurd hs List.not_mem_nil
  | s₁ :: ss, log, log', h, s, hs => by
      obtain ⟨_, log₁, hquery, hrest⟩ := runs_bind_ok.mp h
      obtain ⟨v, log₂, hcall, hdone⟩ := runs_bind_ok.mp hquery
      obtain ⟨r, hnoted, hv⟩ := Database.runs_callWith.mp hcall
      rcases List.mem_cons.mp hs with rfl | hs
      · refine ⟨v, noted_mem hrest ?_⟩
        rw [hdone.1, hnoted]
        cases r with
        | ok w =>
            injection hv with hv; subst hv
            exact List.mem_append_right _ (List.mem_singleton.mpr rfl)
        | error err => exact absurd hv (by simp [Except.mapError])
      · exact noted_go hrest s hs

/-- **A push that returns** was told that every statement of it succeeded. -/
theorem noted_pushTables : ∀ {tables : List Table} {log log' : List (Call × Reply)},
    (pushTables tables).Runs Noted log log' (.ok ()) →
    ∀ s ∈ pushStatements tables, ∃ v, (s.call, .ok v) ∈ log'
  | [], _, _, _, s, hs => absurd hs List.not_mem_nil
  | t :: tables, log, log', h, s, hs => by
      obtain ⟨_, log₁, hgo, hrest⟩ := runs_bind_ok.mp h
      rcases List.mem_append.mp hs with hs | hs
      · obtain ⟨v, hv⟩ := noted_go hgo s hs
        exact ⟨v, noted_mem hrest hv⟩
      · exact noted_pushTables hrest s hs

theorem told_pushSchema {conn conn' : Connection} {tables : List Table} {es : List (Call × Reply)}
    (h : (pushSchema conn tables).Told es (.done (conn', .ok ()))) :
    ∀ s ∈ pushStatements tables, ∃ v, (s.call, .ok v) ∈ es := by
  have hruns : (pushSchema conn tables).Runs Noted [] es (.ok (conn', .ok ())) :=
    runs_noted_iff.mpr ⟨es, rfl, h⟩
  obtain ⟨result, hpush, hout⟩ := runs_keep.mp hruns
  injection hout with hout; injection hout with _ hresult; subst hresult
  exact noted_pushTables hpush

/-! ## Any number of pushes -/

/-- The catalog with what a schema has and it has not. -/
def completed (c : SchemaCatalog) (tables : List Table) : SchemaCatalog := fun name =>
  match AssocMap.lookup name (tables.map fun t => (t.name, t.definition)) with
  | none => c name
  | some e => some fun ix => ((c name).bind fun d => d ix).or (e ix)

variable {ι : Type} [DecidableEq ι]

/-- Any number of connections push, each a schema of its own. -/
abbrev Pushes (ι : Type) := Pool ι (schemaStore.Server ι) Call Reply Error (Outcome Unit)

def Pushes.begin (conns : ι → Connection) (tables : ι → List Table) (s₀ : schemaStore.Server ι) :
    Pushes ι :=
  ⟨s₀, fun i => pushSchema (conns i) (tables i), []⟩

/-- What pushes do to the catalog, wherever they are: what was defined stays as it is, what is
defined besides is of their schemas, a schema whose push returned is in place, and if they
all push one schema, the first push that returns has made the catalog what it will be. -/
structure PushedSafely (c₀ : SchemaCatalog) (tables : ι → List Table) (p : Pushes ι) : Prop where
  grown : Grown c₀ p.shared.committed
  only : MadeOf c₀ (fun s => ∃ i, s ∈ pushStatements (tables i)) p.shared.committed
  placed : ∀ i conn, p.threads i = .done (conn, .ok ()) →
    ∀ s ∈ pushStatements (tables i), s.Stands p.shared.committed
  exact : ∀ ts, (∀ i, tables i = ts) → (ts.map Table.name).Nodup →
    (∃ i conn, p.threads i = .done (conn, .ok ())) → p.shared.committed = completed c₀ ts

theorem mem_definition {t : Table} {ix : String} {i : IndexDef} : t.definition ix = some i ↔
    ∃ jx ∈ t.secondary, jx.name = ix ∧ i = ⟨t.indexFields jx, jx.unique⟩ := by
  have hn : ((t.secondary.map fun jx => (jx.name, (⟨t.indexFields jx, jx.unique⟩ : IndexDef))).map
      Prod.fst).Nodup := by
    rw [List.map_map]
    exact t.index_names
  rw [Table.definition, Catalog.ofList_eq_some hn, List.mem_map]
  constructor
  · rintro ⟨jx, hjx, he⟩
    obtain ⟨rfl, rfl⟩ := Prod.mk.inj he
    exact ⟨jx, hjx, rfl, rfl⟩
  · rintro ⟨jx, hjx, rfl, rfl⟩
    exact ⟨jx, hjx, rfl⟩

theorem mem_push_table {tables : List Table} {name : String} {b : Bool}
    (h : Statement.defineTable name b ∈ pushStatements tables) : ∃ t ∈ tables, t.name = name := by
  obtain ⟨t, ht, he | ⟨ix, _, he⟩⟩ := mem_pushStatements.mp h
  · exact ⟨t, ht, (Statement.defineTable.inj he).1.symm⟩
  · exact absurd he (by simp [defineIndexStatement])

theorem mem_push_index {tables : List Table} {ix name : String} {i : IndexDef} {b : Bool}
    (h : Statement.defineIndex ix name i.columns i.unique b ∈ pushStatements tables) :
    ∃ t ∈ tables, t.name = name ∧ t.definition ix = some i := by
  obtain ⟨t, ht, he | ⟨jx, hjx, he⟩⟩ := mem_pushStatements.mp h
  · exact absurd he (by simp)
  · obtain ⟨rfl, rfl, hcols, hunique, _⟩ := Statement.defineIndex.inj he
    refine ⟨t, ht, rfl, mem_definition.mpr ⟨jx, hjx, rfl, ?_⟩⟩
    cases i
    exact congrArg₂ IndexDef.mk hcols hunique

/-- A catalog that grew by the definitions of one schema, and has them all. -/
theorem eq_completed {c₀ c : SchemaCatalog} {ts : List Table} (hn : (ts.map Table.name).Nodup)
    (hg : Grown c₀ c) (hm : MadeOf c₀ (· ∈ pushStatements ts) c)
    (hp : ∀ s ∈ pushStatements ts, s.Stands c) : c = completed c₀ ts := by
  have hkeys : ((ts.map fun t => (t.name, t.definition)).map Prod.fst).Nodup := by
    rw [List.map_map]
    exact hn
  funext name
  cases hl : AssocMap.lookup name (ts.map fun t => (t.name, t.definition)) with
  | none =>
      have hno : ¬ ∃ t ∈ ts, t.name = name := by
        rintro ⟨t, ht, rfl⟩
        refine AssocMap.lookup_eq_none.mp hl ?_
        rw [List.map_map]
        exact List.mem_map_of_mem ht
      simp only [completed, hl]
      cases hc : c name with
      | none =>
          cases hc₀ : c₀ name with
          | none => rfl
          | some d₀ => exact absurd (hg.tables name (by rw [hc₀]; rfl)) (by rw [hc]; simp)
      | some d =>
          rcases hm.tables name (by rw [hc]; rfl) with h₀ | ⟨b, hb⟩
          · obtain ⟨d₀, hd₀⟩ := Option.isSome_iff_exists.mp h₀
            rw [hd₀]
            congr 1
            funext ix
            refine Option.ext fun i => ⟨fun hi => ?_, hg.indices name d₀ d ix i hd₀ hc⟩
            rcases hm.indices name d ix i hc hi with ⟨d₁, hd₁, hi⟩ | ⟨b, hb⟩
            · rw [hd₀] at hd₁
              injection hd₁ with hd₁
              rwa [hd₁]
            · obtain ⟨t, ht, hname, _⟩ := mem_push_index hb
              exact absurd ⟨t, ht, hname⟩ hno
          · exact absurd (mem_push_table hb) hno
  | some e =>
      obtain ⟨t, ht, he⟩ := List.mem_map.mp (AssocMap.mem_of_lookup hl)
      obtain ⟨rfl, rfl⟩ := Prod.mk.inj he
      obtain ⟨d, hd⟩ := Option.isSome_iff_exists.mp
        (hp (.defineTable t.name true) (mem_pushStatements.mpr ⟨t, ht, .inl rfl⟩))
      have hfound : ∀ ix i, d ix = some i →
          (((c₀ t.name).bind fun d => d ix).or (t.definition ix)) = some i := by
        intro ix i hi
        rcases hm.indices t.name d ix i hd hi with ⟨d₀, hd₀, hi₀⟩ | ⟨b, hb⟩
        · rw [hd₀, Option.bind_some, hi₀, Option.some_or]
        · obtain ⟨t', ht', hname, hdef⟩ := mem_push_index hb
          obtain rfl := List.inj_on_of_nodup_map hn ht' ht hname
          cases hold : (c₀ t'.name).bind fun d => d ix with
          | none => rw [Option.none_or, hdef]
          | some j =>
              -- an index that was there before is still the one under its name
              obtain ⟨d₀, hd₀, hj⟩ := Option.bind_eq_some_iff.mp hold
              have hsame := hg.indices t'.name d₀ d ix j hd₀ hd hj
              rw [hi] at hsame
              rw [Option.some_or, hsame]
      simp only [completed, hl, hd]
      congr 1
      funext ix
      cases hi : d ix with
      | some i => exact (hfound ix i hi).symm
      | none =>
          have hold : ((c₀ t.name).bind fun d => d ix) = none := by
            refine Option.eq_none_iff_forall_not_mem.mpr fun j hj => ?_
            obtain ⟨d₀, hd₀, hj⟩ := Option.bind_eq_some_iff.mp hj
            exact absurd (hg.indices t.name d₀ d ix j hd₀ hd hj) (by rw [hi]; simp)
          have hnew : t.definition ix = none := by
            refine Option.eq_none_iff_forall_not_mem.mpr fun j hj => ?_
            obtain ⟨jx, hjx, rfl, _⟩ := mem_definition.mp hj
            obtain ⟨d', hd', hthere⟩ := hp _ (mem_pushStatements.mpr ⟨t, ht, .inr ⟨jx, hjx, rfl⟩⟩)
            rw [hd] at hd'
            injection hd' with hd'
            subst hd'
            exact absurd hthere (by rw [hi]; simp)
          rw [hold, hnew]
          rfl

/-- A catalog the pushes of these schemas can have made, with what they were told. -/
structure Pushed (c₀ : SchemaCatalog) (tables : ι → List Table) (c : SchemaCatalog)
    (log : List (ι × Call × Reply)) : Prop where
  grown : Grown c₀ c
  only : MadeOf c₀ (fun s => ∃ i, s ∈ pushStatements (tables i)) c
  told : ∀ i s v, s ∈ pushStatements (tables i) → (i, s.call, .ok v) ∈ log → s.Stands c

/-- One statement of a push. -/
theorem Pushed.step {c₀ : SchemaCatalog} {tables : ι → List Table} {srv srv' : schemaStore.Server ι}
    {log : List (ι × Call × Reply)} {i : ι} {s : Statement} {r : Reply}
    (h : Pushed c₀ tables srv.committed log) (hs : s ∈ pushStatements (tables i))
    (hstep : Database.Step i srv s.call r srv') :
    Pushed c₀ tables srv'.committed (log ++ [(i, s.call, r)]) := by
  cases hstep with
  | plain hexec =>
      have hrun : (∃ err, r = .error err) ∧ _ = srv.committed ∨
          (∃ v, r = .ok v) ∧ s.runSchema srv.committed = some _ := hexec
      rcases hrun with ⟨⟨err, rfl⟩, rfl⟩ | ⟨⟨v, rfl⟩, hrun⟩
      · refine ⟨h.grown, h.only, fun j s' v hs' hmem => ?_⟩
        rcases List.mem_append.mp hmem with hmem | hmem
        · exact h.told j s' v hs' hmem
        · exact absurd (congrArg (·.2.2) (List.mem_singleton.mp hmem)) (by simp)
      · obtain ⟨hgrown, hstands, hmade⟩ := (ifMissing_of_push hs).runs ⟨i, hs⟩ h.only hrun
        refine ⟨h.grown.trans hgrown, hmade, fun j s' w hs' hmem => ?_⟩
        rcases List.mem_append.mp hmem with hmem | hmem
        · exact (h.told j s' w hs' hmem).mono hgrown
        · have hcall := congrArg (·.2.1) (List.mem_singleton.mp hmem)
          simp only [Statement.call, Call.plain.injEq, Query.mk.injEq, Sql.schema.injEq,
            and_true] at hcall
          rw [hcall]
          exact hstands

theorem mem_own {i : ι} {log : List (ι × Call × Reply)} {e : Call × Reply} (h : e ∈ own i log) :
    (i, e) ∈ log := by
  obtain ⟨entry, hentry, he⟩ := List.mem_filterMap.mp h
  split at he
  · rename_i hi
    injection he with he
    rw [← he, ← hi]
    exact hentry
  · exact absurd he (by simp)

/-- **Each statement of any push** leaves a catalog that pushes can have made. -/
theorem pushed_steps {conns : ι → Connection} {tables : ι → List Table} {s₀ : schemaStore.Server ι}
    {p : Pushes ι} (h : Steps Database.Step (Pushes.begin conns tables s₀) p) :
    Pushed s₀.committed tables p.shared.committed p.log := by
  have hall := Steps.invariant (I := fun s log => Pushed s₀.committed tables s.committed log)
    (L := fun i prog _ _ => prog.Asks fun call => ∃ s ∈ pushStatements (tables i), call = s.call)
    (fun hi hl hstep => by
      obtain ⟨s, hs, rfl⟩ := hl.1
      exact ⟨hi.step hs hstep, hl.2 _⟩)
    (fun _ hl _ => hl) h
    ⟨⟨.refl _, ⟨fun _ h => .inl h, fun _ d _ _ hd hi => .inl ⟨d, hd, hi⟩⟩,
        fun _ _ _ _ h => absurd h (by simp [Pushes.begin])⟩,
      fun i => (asks_pushTables fun s hs => ⟨s, hs, rfl⟩).attempt.bind fun _ => trivial⟩
  exact hall.shared

theorem placed_of_done {conns : ι → Connection} {tables : ι → List Table}
    {s₀ : schemaStore.Server ι} {p : Pushes ι}
    (h : Steps Database.Step (Pushes.begin conns tables s₀) p) {i : ι} {conn : Connection}
    (hdone : p.threads i = .done (conn, .ok ())) :
    ∀ s ∈ pushStatements (tables i), s.Stands p.shared.committed := by
  intro s hs
  have htold := Steps.told h rfl i
  rw [hdone] at htold
  obtain ⟨v, hv⟩ := told_pushSchema htold s hs
  exact (pushed_steps h).told i s v hs (mem_own hv)

/-- Where all push one schema, the first that is done has brought the catalog there. -/
theorem completed_of_done {conns : ι → Connection} {ts : List Table} {s₀ : schemaStore.Server ι}
    {p : Pushes ι} (hn : (ts.map Table.name).Nodup)
    (h : Steps Database.Step (Pushes.begin conns (fun _ => ts) s₀) p) {i : ι} {conn : Connection}
    (hdone : p.threads i = .done (conn, .ok ())) : p.shared.committed =
    completed s₀.committed ts := by
  have hpushed := pushed_steps h
  refine eq_completed hn hpushed.grown ?_ (placed_of_done h hdone)
  refine ⟨fun name hc => (hpushed.only.tables name hc).imp_right fun ⟨b, _, hb⟩ => ⟨b, hb⟩,
    fun name d ix k hc hi =>
    (hpushed.only.indices name d ix k hc hi).imp_right fun ⟨b, _, hb⟩ => ⟨b, hb⟩⟩

/-- **However many connections push at once, and wherever each of them is**, a schema is only
added to, and a push that returned has its schema in place. -/
theorem push_safe (conns : ι → Connection) (tables : ι → List Table) (s₀ : schemaStore.Server ι)
    (p : Pushes ι) (h : Steps Database.Step (Pushes.begin conns tables s₀) p) :
    PushedSafely s₀.committed tables p where
  grown := (pushed_steps h).grown
  only := (pushed_steps h).only
  placed i conn hdone := placed_of_done h hdone
  exact := by
    rintro ts hts hn ⟨i, conn, hdone⟩
    obtain rfl : tables = fun _ => ts := funext hts
    exact completed_of_done hn h hdone

theorem items_pushed : ∃ p : Pushes Bool, (∃ conn, p.threads true = .done (conn, .ok ())) ∧
    p.shared.committed = completed (fun _ => none) [itemsPrevious] := by
  have hruns : (pushSchema .new [itemsPrevious]).Runs (Database.Step (D := schemaStore) true)
      ⟨fun _ => none, fun _ => none⟩
      ⟨Function.update (Function.update (fun _ => none) "items" (some fun _ => none)) "items"
        (some (Function.update (fun _ => none) "items_value" (some ⟨["value"], true⟩))),
        fun _ => none⟩
      (.ok (.new, .ok ())) :=
    ⟨.ok .none, _, .plain (.inr ⟨⟨_, rfl⟩, rfl⟩), .ok .none, _, .plain (.inr ⟨⟨_, rfl⟩, rfl⟩), rfl,
      rfl⟩
  obtain ⟨log, hsteps⟩ :=
    Steps.of_runs (p := Pushes.begin (fun _ : Bool => .new) (fun _ => [itemsPrevious])
    ⟨fun _ => none, fun _ => none⟩) rfl hruns
  exact ⟨_, ⟨_, rfl⟩, (push_safe _ _ _ _ hsteps).exact _ (fun _ => rfl) (by decide) ⟨true, _, rfl⟩⟩

end ToastySurreal
