import ToastySurreal.Proof.SchemaMigration
import ToastySurreal.Proof.Scripts
import ToastySurreal.Proof.Tracking

/-!
# From release to release

The migrations of several releases are generated from their schema diffs, written as texts,
and applied by any number of connections that race, fail and repeat what others do. A
database reads each text and does what it says. If nobody starts on a release before the
ones before it are tracked, then the committed database is at one release at every moment:
the tracked ids are those of the first releases, and the tables are what the statements of
these, and of no other, make of the tables at the start.
-/

namespace ToastySurreal

open Prog Prog.Pool

/-! ## Releases -/

/-- A migration, with the schema it leads to. -/
structure Release where
  id : UInt64
  name : String
  diffs : List TableDiff
  schema : List Table

/-- The texts of its migration. -/
def Release.statements (r : Release) : List String := (generate r.diffs).map Statement.text

/-- All their statements, in order. -/
def scriptOf (rs : List Release) : List Statement := rs.flatMap fun r => generate r.diffs

/-- The schema of the last release. -/
def schemaAfter (first : List Table) : List Release → List Table
  | [] => first
  | r :: rs => schemaAfter r.schema rs

/-- Every release was generated against the schema of the one before it. -/
inductive Releases : List Table → List Release → Prop where
  | nil {tables : List Table} (h : ValidSchema tables) : Releases tables []
  | cons {previous : List Table} {r : Release} {rs : List Release} {Matched : Table → Table → Prop}
      (hprev : ValidSchema previous) (hd : IsSchemaDiff previous r.schema r.diffs Matched)
      (h : Releases r.schema rs) : Releases previous (r :: rs)

/-- Releases with ids of their own, whose names can be written and leave the tracking table
to the driver. -/
structure Planned (first : List Table) (rs : List Release) : Prop where
  releases : Releases first rs
  ids : (rs.map Release.id).Nodup
  written : ∀ r ∈ rs, ∀ s ∈ generate r.diffs, s.Legible ∧ s.tableName ≠ trackingTable

/-! ## The database that reads them -/

/-- What a database makes of the texts it is sent: what they are read as, if it does not
refuse it. The tracking table is apart from the other tables, and nothing is said of data of a
column called `id`. -/
structure ReadsScripts {D : Database} (T : TrackingTable D) (others : Char → List Char)
    (κ : Type) where
  tables : D.State → TableStore κ
  script : ∀ {d text s v d'}, D.exec d (scriptQuery text) (.ok v) d' →
    readStatement others text = some s → s.Legible → s.tableName ≠ trackingTable →
    Catalog.change Statement.tableName Statement.act s (tables d) = some (tables d') ∧
    T.tracked d' = T.tracked d
  define : ∀ {d v d'}, D.exec d defineTracking (.ok v) d' → tables d' = tables d
  track : ∀ {d id name v d'}, D.exec d (trackQuery id name) (.ok v) d' → tables d' = tables d

variable {D : Database} {T : TrackingTable D} {others : Char → List Char} {κ ι : Type}

/-! ## Calls in turn -/

/-- A call that applies one of the releases, or lists what was applied. -/
def Request.IsOf (rs : List Release) : Request → Prop
  | .apply _ id name statements => ∃ r ∈ rs, id = r.id ∧ name = r.name ∧ statements = r.statements
  | .applied _ => True

variable (T) in
/-- The releases before the one that is to be applied are tracked. -/
def Request.Ready (rs : List Release) (request : Request) (d : D.State) : Prop :=
  ∀ earlier r later, rs = earlier ++ r :: later → request.id = some r.id →
    ∀ e ∈ earlier, trackingRecord e.id ∈ T.tracked d

variable [DecidableEq ι]

variable (T) in
/-- The calls go on in any order, but none starts on a release before its turn: the embedded
apply flow lists what is applied and goes through the rest in order. -/
inductive Staged (rs : List Release) (requests : ι → Request) (d₀ : D.State) :
    Callers D ι → Prop where
  | begin : Staged rs requests d₀ (Callers.begin requests d₀)
  | ask {p : Callers D ι} {i : ι} {call : Call} {k : Reply → Action (List UInt64)} {r : Reply}
      {s : D.Server ι} (h : Staged rs requests d₀ p) (ht : p.threads i = .ask call k)
      (hs : Database.Step i p.shared call r s)
      (hready : i ∉ p.log.map Prod.fst → (requests i).Ready T rs p.shared.committed) :
      Staged rs requests d₀ ⟨s, Function.update p.threads i (k r), p.log ++ [(i, call, r)]⟩

/-- The database is at the `m`-th release, and everybody was told so. -/
structure AtRelease (R : ReadsScripts T others κ) (first : List Table) (rs : List Release)
    (requests : ι → Request) (d₀ : D.State) (p : Callers D ι) (m : Nat) : Prop where
  le : m ≤ rs.length
  tracked : (T.tracked p.shared.committed).Perm ((rs.take m).map fun r => trackingRecord r.id)
  ran : runStore (scriptOf (rs.take m)) (R.tables d₀) = some (R.tables p.shared.committed)
  defined : (R.tables p.shared.committed).definitions =
    completed (fun _ => none) (schemaAfter first (rs.take m))
  unguarded : ∀ r ∈ rs.take m, GuardFree (generate r.diffs)
  /-- A call that returned has its release in the database. -/
  returned : ∀ i id, (requests i).id = some id → (∃ ids, p.threads i = .done ids) →
    id ∈ (rs.take m).map Release.id
  listed : ∀ i conn ids, requests i = .applied conn → p.threads i = .done ids →
    ∃ n ≤ m, ids.Perm ((rs.take n).map Release.id)

/-! ## Running a release -/

theorem isBlank_append (a b : String) : isBlank (a ++ b) = (isBlank a && isBlank b) := by
  rw [isBlank, String.toList_append, List.all_append]
  rfl

/-- No statement is passed over: each starts with a word. -/
theorem isBlank_text (s : Statement) : isBlank s.text = false := by
  have hblank : ∀ {a : String} (b : String), isBlank a = false → isBlank (a ++ b) = false := by
    intro a b ha
    rw [isBlank_append, ha]
    rfl
  cases s with
  | defineTable table ifNotExists =>
      exact hblank _ (hblank _
        (hblank _ (hblank (ifNotExistsText ifNotExists) (a := "DEFINE TABLE") (by decide))))
  | removeTable table => exact hblank (a := "REMOVE TABLE ") _ (by decide)
  | defineIndex index table columns unique ifNotExists =>
      exact hblank _ (hblank _
        (hblank (ifNotExistsText ifNotExists) (a := "DEFINE INDEX") (by decide)))
  | removeIndex index table => exact hblank (a := "REMOVE INDEX ") _ (by decide)
  | updateSet table next previous =>
      exact hblank _ (hblank _ (hblank _
        (hblank _ (hblank _ (hblank _ (hblank _ (hblank (a := "UPDATE ") _ (by decide))))))))
  | updateUnset table column =>
      exact hblank _ (hblank _ (hblank _ (hblank (a := "UPDATE ") _ (by decide))))
  | throw reason =>
      exact hblank _ (hblank (a := "THROW 'manual migration required: ") _ (by decide))
  | returnNone => decide

theorem migrationQueries_text (id : UInt64) (name : String) (ss : List Statement) :
    migrationQueries id name (ss.map Statement.text) =
      ss.map (fun s => scriptQuery s.text) ++ [trackQuery id name] := by
  have hall : ∀ t ∈ ss.map Statement.text, (!isBlank t) = true := by
    intro t ht
    obtain ⟨s, _, rfl⟩ := List.mem_map.mp ht
    rw [isBlank_text]
    rfl
  rw [migrationQueries, List.filter_eq_self.mpr hall, List.map_map]
  rfl

omit [DecidableEq ι] in
/-- **A migration that ran** has done what its statements say. -/
theorem ReadsScripts.ran (R : ReadsScripts T others κ) {id : UInt64} {name : String} :
    ∀ {ss : List Statement} {d d' : D.State}, (∀ s ∈ ss, s.Legible ∧ s.tableName ≠ trackingTable) →
      Ran D d (ss.map (fun s => scriptQuery s.text) ++ [trackQuery id name]) d' →
      runStore ss (R.tables d) = some (R.tables d')
  | [], d, d', _, h => by
      obtain ⟨v, d₁, htrack, rfl⟩ := h
      exact congrArg some (R.track htrack).symm
  | s :: ss, d, d', hs, h => by
      obtain ⟨v, d₁, hscript, hrest⟩ := h
      obtain ⟨hlegible, htable⟩ := hs s List.mem_cons_self
      have hrun := R.ran (fun s' hs' => hs s' (List.mem_cons_of_mem _ hs')) hrest
      have hone := (R.script hscript (readStatement_text others hlegible) hlegible htable).1
      rw [runStore, Catalog.changeAll, hone]
      exact hrun

omit [DecidableEq ι] in
/-- The statements of a release leave the tracking table alone. -/
theorem ReadsScripts.spares (R : ReadsScripts T others κ) {first : List Table} {rs : List Release}
    (hplan : Planned first rs) {requests : ι → Request} (hreq : ∀ i, (requests i).IsOf rs) (i : ι) :
    ∀ statement ∈ (requests i).statements, T.Spares statement := by
  intro statement hmem d v d' hexec
  have hi := hreq i
  cases hrequest : requests i with
  | apply conn id name statements =>
      rw [hrequest] at hi hmem
      obtain ⟨r, hr, -, -, rfl⟩ := hi
      obtain ⟨s, hs, rfl⟩ := List.mem_map.mp hmem
      obtain ⟨hlegible, htable⟩ := hplan.written r hr s hs
      exact (R.script hexec (readStatement_text others hlegible) hlegible htable).2
  | applied conn =>
      rw [hrequest] at hmem
      exact absurd hmem List.not_mem_nil

omit [DecidableEq ι] in
/-- **What some calls made** is what the statements of their releases make. -/
theorem ReadsScripts.made (R : ReadsScripts T others κ) {first : List Table} {rs : List Release}
    (hplan : Planned first rs) {requests : ι → Request} (hreq : ∀ i, (requests i).IsOf rs)
    {d₀ : D.State} {is : List ι} {d : D.State} (h : MadeBy T requests d₀ is d) :
    ∃ done : List Release, (∀ r ∈ done, r ∈ rs) ∧ idsOf requests is = done.map Release.id ∧
      runStore (scriptOf done) (R.tables d₀) = some (R.tables d) := by
  induction h with
  | start => exact ⟨[], by simp, rfl, rfl⟩
  | define _ _ hdef ih =>
      obtain ⟨done, hmem, hids, hrun⟩ := ih
      exact ⟨done, hmem, hids, by rw [R.define hdef]; exact hrun⟩
  | @call is d d' i conn id name statements _ hi hran ih =>
      obtain ⟨done, hmem, hids, hrun⟩ := ih
      have hof := hreq i
      rw [hi] at hof
      obtain ⟨r, hr, rfl, rfl, rfl⟩ := hof
      rw [Release.statements, migrationQueries_text] at hran
      refine ⟨done ++ [r], ?_, ?_, ?_⟩
      · intro r' hr'
        rcases List.mem_append.mp hr' with hr' | hr'
        · exact hmem r' hr'
        · exact List.mem_singleton.mp hr' ▸ hr
      · rw [idsOf_append, hids]
        simp [idsOf, hi, Request.id]
      · rw [scriptOf, List.flatMap_append, runStore_append]
        change (runStore (scriptOf done) _).bind _ = _
        rw [hrun, Option.bind_some, List.flatMap_singleton]
        exact R.ran (hplan.written r hr) hran

/-! ## The order of the releases -/

variable {rs : List Release} {requests : ι → Request} {d₀ : D.State} {p : Callers D ι}

theorem Staged.go (h : Staged T rs requests d₀ p) : Go (Callers.begin requests d₀) p := by
  induction h with
  | begin => exact .refl
  | ask _ ht hs _ ih => exact ih.tail (.ask ht hs)

theorem trackingRecord_inj {a b : UInt64} (h : trackingRecord a = trackingRecord b) : a = b := by
  have htext : toString a.toNat = toString b.toNat :=
    SurValue.string.inj (congrArg (fun rid : RecordId => rid.key.value) h)
  have hparsed : some a = some b := by rw [← parseU64_toString, htext, parseU64_toString]
  exact Option.some.inj hparsed

omit [DecidableEq ι] in
theorem mem_idsOf_mono {log : List (ι × Call × Reply)} {entry : ι × Call × Reply} {id : UInt64}
    (h : id ∈ idsOf requests (commitsOf log)) : id ∈
    idsOf requests (commitsOf (log ++ [entry])) := by
  obtain ⟨is, his⟩ := commitsOf_grows log entry
  rw [← his, idsOf_append]
  exact List.mem_append_left _ h

/-- **The release after a prefix**: one that is new to it, where it has all the earlier ones. -/
theorem Planned.next_prefix {first : List Table} (hplan : Planned first rs)
    {earlier later : List Release} {r : Release} (hsplit : rs = earlier ++ r :: later)
    {ids : List UInt64} (hinitial : ids <+: rs.map Release.id) (hnew : (ids ++ [r.id]).Nodup)
    (hearlier : ∀ e ∈ earlier, e.id ∈ ids ++ [r.id]) : ids ++ [r.id] <+: rs.map Release.id := by
  have hids : rs.map Release.id = earlier.map Release.id ++ r.id :: later.map Release.id := by
    rw [hsplit, List.map_append, List.map_cons]
  have hdistinct := hplan.ids
  rw [hids] at hinitial hdistinct ⊢
  have hfresh : r.id ∉ ids := fun hmem =>
    (List.nodup_append.mp hnew).2.2 _ hmem _ List.mem_cons_self rfl
  have hsub : ∀ id ∈ earlier.map Release.id, id ∈ ids := by
    intro id hid
    obtain ⟨e, he, rfl⟩ := List.mem_map.mp hid
    rcases List.mem_append.mp (hearlier e he) with hmem | hmem
    · exact hmem
    · exact absurd (List.mem_singleton.mp hmem)
        ((List.nodup_append.mp hdistinct).2.2 _ hid _ List.mem_cons_self)
  rw [Lists.eq_of_prefix_of_mem hinitial hsub (List.nodup_append.mp hdistinct).1 hfresh]
  exact ⟨later.map Release.id, by simp⟩

section Order

variable {first : List Table} (R : ReadsScripts T others κ) (hplan : Planned first rs)
  (hreq : ∀ i, (requests i).IsOf rs) (hnone : T.tracked d₀ = [])

include R hplan hreq hnone

/-- What is tracked is what was committed, once each. -/
theorem Staged.tracked (h : Staged T rs requests d₀ p) : (idsOf requests p.commits).Nodup ∧
    (T.tracked p.shared.committed).Perm ((idsOf requests p.commits).map trackingRecord) :=
  (applied T h.go).built.tracked (R.spares hplan hreq) hnone

/-- **Whoever has started** has the releases before its own committed. -/
theorem Staged.ready (h : Staged T rs requests d₀ p) : ∀ i ∈ p.log.map Prod.fst, ∀ earlier r later,
    rs = earlier ++ r :: later → (requests i).id = some r.id →
    ∀ e ∈ earlier, e.id ∈ idsOf requests p.commits := by
  induction h with
  | begin => exact fun i hi => absurd hi List.not_mem_nil
  | @ask p i call k r s hstaged ht hs hready ih =>
      intro j hj earlier r' later hsplit hid e he
      refine mem_idsOf_mono ?_
      by_cases hold : j ∈ p.log.map Prod.fst
      · exact ih j hold earlier r' later hsplit hid e he
      · -- its first question: the release is ready
        have hji : j = i := by
          rw [List.map_append, List.mem_append] at hj
          exact List.mem_singleton.mp (hj.resolve_left hold)
        subst hji
        have hmem := hready hold earlier r' later hsplit hid e he
        obtain ⟨id, hcommitted, hrecord⟩ :=
          List.mem_map.mp ((hstaged.tracked R hplan hreq hnone).2.mem_iff.mp hmem)
        exact trackingRecord_inj hrecord ▸ hcommitted

/-- **Releases are committed in their order**, without a gap. -/
theorem Staged.ids_prefix (h : Staged T rs requests d₀ p) :
    idsOf requests p.commits <+: rs.map Release.id := by
  induction h with
  | begin => exact List.nil_prefix
  | @ask p i call k r s hstaged ht hs hready ih =>
      have hnext := Staged.ask hstaged ht hs hready
      have htracked : (idsOf requests (commitsOf (p.log ++ [(i, call, r)]))).Nodup :=
        (hnext.tracked R hplan hreq hnone).1
      have hearlier : ∀ (earlier : List Release) (r' : Release) (later : List Release),
          rs = earlier ++ r' :: later → (requests i).id = some r'.id →
          ∀ e ∈ earlier, e.id ∈ idsOf requests (commitsOf (p.log ++ [(i, call, r)])) :=
        hnext.ready R hplan hreq hnone i (by simp)
      have hwhere : Whereabouts requests i _ s (p.log ++ [(i, call, r)]) :=
        (go_holds (T := T) hnext.go).threads i
      change idsOf requests (commitsOf (p.log ++ [(i, call, r)])) <+: _
      cases hcommit : committer (i, call, r) with
      | none =>
          rw [commitsOf_none hcommit]
          exact ih
      | some j =>
          obtain rfl := committer_eq_some hcommit
          rw [commitsOf_some hcommit] at htracked hearlier ⊢
          have hof := hreq j
          cases hrequest : requests j with
          | applied conn =>
              unfold Whereabouts at hwhere
              rw [hrequest, commitsOf_some hcommit] at hwhere
              exact absurd (List.mem_append_right _ List.mem_cons_self) hwhere.1
          | apply conn id name statements =>
              rw [hrequest] at hof
              obtain ⟨r', hr', rfl, -, -⟩ := hof
              obtain ⟨earlier, later, hsplit⟩ := List.append_of_mem hr'
              have hids : idsOf requests (commitsOf p.log ++ [j]) =
                  idsOf requests (commitsOf p.log) ++ [r'.id] := by
                rw [idsOf_append]
                simp [idsOf, hrequest, Request.id]
              rw [hids] at htracked ⊢
              refine hplan.next_prefix hsplit ih htracked fun e he => ?_
              rw [← hids]
              exact hearlier earlier r' later hsplit (by rw [hrequest]; rfl) e he

end Order

/-! ## At a release -/

theorem Releases.valid {first : List Table} (h : Releases first rs) : ValidSchema first := by
  cases h with
  | nil h => exact h
  | cons h _ _ => exact h

/-- **The first releases, one after the other**, define the schema of the last of them. -/
theorem Releases.definitions {first : List Table} (h : Releases first rs) :
    ∀ {m : Nat} {c c' : TableStore κ},
    c.definitions = completed (fun _ => none) first → runStore (scriptOf (rs.take m)) c = some c' →
    c'.definitions = completed (fun _ => none) (schemaAfter first (rs.take m)) := by
  induction h with
  | nil _ =>
      intro m c c' hc hrun
      rw [List.take_nil] at hrun ⊢
      obtain rfl : c = c' := Option.some.inj hrun
      exact hc
  | @cons previous r rs Matched hprev hd hrest ih =>
      intro m c c' hc hrun
      cases m with
      | zero =>
          obtain rfl : c = c' := Option.some.inj hrun
          exact hc
      | succ m =>
          rw [List.take_succ_cons, scriptOf, List.flatMap_cons, runStore_append] at hrun
          obtain ⟨c₁, hone, hlater⟩ := Option.bind_eq_some_iff.mp hrun
          obtain ⟨c₂, htwo, hdef, _⟩ :=
            hd.migrates hprev hrest.valid (guardFree_of_runStore hone) hc
          obtain rfl : c₂ = c₁ := Option.some.inj (htwo.symm.trans hone)
          exact ih hdef hlater

/-- Releases are known by their ids. -/
theorem Planned.eq_take {first : List Table} (hplan : Planned first rs) {done : List Release}
    {m : Nat}
    (hmem : ∀ r ∈ done, r ∈ rs) (hids : done.map Release.id = (rs.map Release.id).take m) :
    done = rs.take m := by
  rw [← List.map_take] at hids
  have hlength : done.length = (rs.take m).length := by simpa using congrArg List.length hids
  refine List.ext_getElem hlength fun k hk hk' => ?_
  have hid : done[k].id = (rs.take m)[k].id := by
    have hat : (done.map Release.id)[k]? = ((rs.take m).map Release.id)[k]? := by rw [hids]
    rw [List.getElem?_map, List.getElem?_map, List.getElem?_eq_getElem hk,
      List.getElem?_eq_getElem hk'] at hat
    exact Option.some.inj hat
  exact List.inj_on_of_nodup_map hplan.ids (hmem _ (List.getElem_mem hk))
    (List.mem_of_mem_take (List.getElem_mem hk')) hid

/-- **What is committed** is some of the first releases, and their statements made it. -/
theorem Staged.applies (R : ReadsScripts T others κ) {first : List Table} (hplan : Planned first rs)
    (hreq : ∀ i, (requests i).IsOf rs) (hnone : T.tracked d₀ = []) (h : Staged T rs requests d₀ p) :
    ∃ m ≤ rs.length, idsOf requests p.commits = (rs.take m).map Release.id ∧
      (T.tracked p.shared.committed).Perm ((rs.take m).map fun r => trackingRecord r.id) ∧
      runStore (scriptOf (rs.take m)) (R.tables d₀) = some (R.tables p.shared.committed) := by
  have hinitial := h.ids_prefix R hplan hreq hnone
  obtain ⟨done, hmem, hids, hran⟩ := R.made hplan hreq (applied T h.go).built
  have hcount : idsOf requests p.commits =
      (rs.map Release.id).take (idsOf requests p.commits).length :=
    List.prefix_iff_eq_take.mp hinitial
  obtain rfl := hplan.eq_take hmem (hids.symm.trans hcount)
  refine ⟨(idsOf requests p.commits).length, by simpa using hinitial.length_le, hids, ?_, hran⟩
  have htracked := (h.tracked R hplan hreq hnone).2
  rw [hids, List.map_map] at htracked
  exact htracked

/-- **However connections race to apply releases**, and whatever fails on the way, if none starts
on a release before its turn, then the database is at one release at every moment: its tables are
what the statements of the first releases make of those it started with, whole and in order, its
schema is the last one's, and exactly these releases are tracked. -/
theorem releases_in_order (R : ReadsScripts T others κ) {first : List Table}
    (hplan : Planned first rs) (hreq : ∀ i, (requests i).IsOf rs) (hnone : T.tracked d₀ = [])
    (hfirst : (R.tables d₀).definitions = completed (fun _ => none) first)
    (h : Staged T rs requests d₀ p) : ∃ m, AtRelease R first rs requests d₀ p m := by
  obtain ⟨m, hm, hids, htracked, hran⟩ := h.applies R hplan hreq hnone
  refine ⟨m, hm, htracked, hran, hplan.releases.definitions hfirst hran, ?_, ?_, ?_⟩
  · intro r hr s hs
    exact guardFree_of_runStore hran s (List.mem_flatMap.mpr ⟨r, hr, hs⟩)
  · intro i id hid hdone
    rw [← hids]
    cases hrequest : requests i with
    | applied conn =>
        rw [hrequest] at hid
        exact absurd hid (by simp [Request.id])
    | apply conn id' name statements =>
        exact List.mem_filterMap.mpr ⟨i, ((applied T h.go).ok_iff hrequest).mp hdone, hid⟩
  · intro i conn ids hrequest hdone
    obtain ⟨is, _, his, hperm⟩ :=
      lists (R.spares hplan hreq) hnone .refl i conn p ids hrequest rfl h.go hdone
    obtain ⟨js, hjs⟩ := his
    have hbefore : idsOf requests is <+: (rs.take m).map Release.id := by
      rw [← hids, ← hjs, idsOf_append]
      exact List.prefix_append _ _
    have hall : (rs.take m).map Release.id <+: rs.map Release.id := by
      rw [List.map_take]
      exact List.take_prefix _ _
    refine ⟨(idsOf requests is).length, hbefore.length_le.trans (by simp), ?_⟩
    rw [List.map_take, ← List.prefix_iff_eq_take.mp (hbefore.trans hall)]
    exact hperm

/-! ## A ledger that runs its scripts -/

/-- A text does what it is read as; one that is not read, or is about the tracking table, is
refused. -/
def runScript (text : String) (c : TableStore Nat) : Option (TableStore Nat) :=
  (readStatement (fun c => [c]) text).bind fun s =>
    if s.tableName = trackingTable then none
    else Catalog.change Statement.tableName Statement.act s c

/-- The ledger with tables beside it. -/
def tableLedger : Database where
  State := Ledger × TableStore Nat
  exec d q r d' :=
    (∃ text c, q.sql = .script text ∧ runScript text d.2 = some c ∧ r = .ok .none ∧ d' = (d.1, c)) ∨
    (q.sql.isScript = true ∧ r = .error ⟨"The script was refused", false⟩ ∧ d' = d) ∨
    (q.sql.isScript = false ∧ ledger.exec d.1 q r d'.1 ∧ d'.2 = d.2)
  atomic := by
    intro d q err d' hq h
    rcases h with ⟨text, c, hsql, -⟩ | ⟨hscript, -⟩ | ⟨-, h, hc⟩
    · rw [hsql] at hq
      exact absurd hq (by simp [Sql.isScript])
    · rw [hscript] at hq
      exact absurd hq (by simp)
    · exact Prod.ext (ledger.atomic hq h) hc
  reads := by
    intro d q r d' hq h
    rcases h with ⟨text, c, hsql, -⟩ | ⟨-, -, h⟩ | ⟨-, h, hc⟩
    · rw [hsql] at hq
      exact absurd hq (by simp [Sql.isRead])
    · exact h
    · exact Prod.ext (ledger.reads hq h) hc
  unmatched := by
    intro d q v d' hq h hv
    rcases h with ⟨text, c, hsql, -⟩ | ⟨-, -, h⟩ | ⟨-, h, hc⟩
    · rw [hsql] at hq
      exact absurd hq (by simp [Sql.isConditional])
    · exact h
    · exact Prod.ext (ledger.unmatched hq h hv) hc

theorem exec_ledger {d d' : tableLedger.State} {q : Query} {r : Reply} (hq : q.sql.isScript = false)
    (h : tableLedger.exec d q r d') : ledger.exec d.1 q r d'.1 ∧ d'.2 = d.2 := by
  rcases h with ⟨text, c, hsql, -⟩ | ⟨hscript, -⟩ | ⟨-, h⟩
  · rw [hsql] at hq
    exact absurd hq (by simp [Sql.isScript])
  · rw [hscript] at hq
    exact absurd hq (by simp)
  · exact h

def tableLedgerTable : TrackingTable tableLedger where
  Defined d := ledgerTable.Defined d.1
  tracked d := ledgerTable.tracked d.1
  define_defined hdef h :=
    have hledger := exec_ledger rfl h
    Prod.ext (ledgerTable.define_defined hdef hledger.1) hledger.2
  define_tracked h := ledgerTable.define_tracked (exec_ledger rfl h).1
  create h := ledgerTable.create (exec_ledger rfl h).1
  select h := ledgerTable.select (exec_ledger rfl h).1

def ledgerScripts : ReadsScripts tableLedgerTable (fun c => [c]) Nat where
  tables d := d.2
  script := by
    intro d text s v d' h hread _ htable
    rcases h with ⟨text', c, hsql, hrun, -, rfl⟩ | ⟨-, hr, -⟩ | ⟨hscript, -⟩
    · obtain rfl : text = text' := Sql.script.inj hsql
      rw [runScript, hread, Option.bind_some, if_neg htable] at hrun
      exact ⟨hrun, rfl⟩
    · exact absurd hr (by simp)
    · exact absurd hscript (by simp [scriptQuery, Sql.isScript])
  define h := (exec_ledger rfl h).2
  track h := (exec_ledger rfl h).2

/-- A release whose statements run through is applied. -/
theorem ran_tableLedger {id : UInt64} {name : String} {l l' : Ledger} {v : SurValue}
    (htrack : ledger.exec l (trackQuery id name) (.ok v) l') : ∀ {ss : List Statement}
    {c c' : TableStore Nat},
    (∀ s ∈ ss, s.Legible ∧ s.tableName ≠ trackingTable) → runStore ss c = some c' →
    Ran tableLedger (l, c) (ss.map (fun s => scriptQuery s.text) ++ [trackQuery id name]) (l', c')
  | [], c, c', _, hrun => by
      obtain rfl : c = c' := Option.some.inj hrun
      exact ⟨v, (l', c), .inr (.inr ⟨rfl, htrack, rfl⟩), rfl⟩
  | s :: ss, c, c', hs, hrun => by
      obtain ⟨c₁, hone, hrest⟩ := Option.bind_eq_some_iff.mp hrun
      obtain ⟨hlegible, htable⟩ := hs s List.mem_cons_self
      refine ⟨.none, (l, c₁), .inl ⟨s.text, c₁, rfl, ?_, rfl, rfl⟩,
        ran_tableLedger htrack (fun s' hs' => hs s' (List.mem_cons_of_mem _ hs')) hrest⟩
      rw [runScript, readStatement_text _ hlegible, Option.bind_some, if_neg htable]
      exact hone

/-- A call that runs alone when it is ready. -/
theorem Staged.of_runs {i : ι} : ∀ {prog : Action (List UInt64)} {p : Callers D ι} {s : D.Server ι}
    {out : Except Error (List UInt64)}, Staged T rs requests d₀ p → p.threads i = prog →
    prog.Runs (Database.Step i) p.shared s out →
    (i ∉ p.log.map Prod.fst → (requests i).Ready T rs p.shared.committed) →
    ∃ log, Staged T rs requests d₀ ⟨s, Function.update p.threads i (lift out), log⟩
  | .done _, p, _, _, h, ht, hruns, _ | .fail _, p, _, _, h, ht, hruns, _ => by
      obtain ⟨rfl, rfl⟩ := hruns
      refine ⟨p.log, ?_⟩
      rw [lift, ← ht, Function.update_eq_self]
      exact h
  | .ask call k, p, s, out, h, ht, hruns, hready => by
      obtain ⟨r, s₁, hs, hruns⟩ := hruns
      obtain ⟨log, hstaged⟩ :=
        Staged.of_runs (Staged.ask h ht hs hready) (Function.update_self i _ _) hruns
        (fun hnot => absurd (by simp) hnot)
      rw [Function.update_idem] at hstaged
      exact ⟨log, hstaged⟩

/-! ## Two releases -/

def createItems : Release := ⟨1, "create items", [.create itemsPrevious], [itemsPrevious]⟩

def renameItems : Release :=
  ⟨2, "rename value", [.alter itemsPrevious itemsNext [renameValue] []], [itemsNext]⟩

theorem items_planned : Planned [] [createItems, renameItems] where
  releases := .cons valid_nil createItems_isSchemaDiff
    (.cons valid_versions.1 renameItems_isSchemaDiff (.nil valid_versions.2))
  ids := by decide
  written := by decide

/-- Two calls, one for each release. -/
def itemRequests (second : Bool) : Request :=
  if second then .apply .new renameItems.id renameItems.name renameItems.statements
  else .apply .new createItems.id createItems.name createItems.statements

/-- A ready call of the ledger whose statements succeed, on its own. -/
theorem staged_ledger {first : List Table} {rs : List Release} (hplan : Planned first rs)
    {requests : Bool → Request} {second : Bool} {r : Release} {l : Ledger} {c c' : TableStore Nat}
    {d₀ : tableLedger.State} {p : Callers tableLedger Bool} {v : SurValue} {l' : Ledger}
    (h : Staged tableLedgerTable rs requests d₀ p) (hr : r ∈ rs)
    (hp : p.threads second = (Request.apply .new r.id r.name r.statements).program)
    (hd : p.shared.committed = (l, c))
    (hready : (requests second).Ready tableLedgerTable rs p.shared.committed)
    (htrack : ledger.exec { l with defined := true } (trackQuery r.id r.name) (.ok v) l')
    (hrun : runStore (generate r.diffs) c = some c') :
    ∃ p', Staged tableLedgerTable rs requests d₀ p' ∧
      p'.shared.committed = (l', c') ∧ p'.threads second = .done [] ∧
      ∀ j, j ≠ second → p'.threads j = p.threads j := by
  have hdef : tableLedger.exec p.shared.committed defineTracking (.ok .none)
      ({ l with defined := true }, c) := by
    rw [hd]
    exact .inr (.inr ⟨rfl, rfl, rfl⟩)
  have hran := ran_tableLedger htrack (hplan.written r hr) hrun
  rw [← migrationQueries_text] at hran
  obtain ⟨s', hs', hruns⟩ := runs_startMigration (i := second) hdef hran
  obtain ⟨log, hstaged⟩ := h.of_runs (hp.trans (apply_program rfl)) hruns fun _ => hready
  exact ⟨_, hstaged, hs', Function.update_self second _ _, fun j hj => Function.update_of_ne hj _ _⟩

/-- The first of two has nothing to wait for. -/
theorem ready_first (d : tableLedger.State) :
    (itemRequests false).Ready tableLedgerTable [createItems, renameItems] d := by
  intro earlier r later hsplit hid e he
  rcases earlier with _ | ⟨x, earlier⟩
  · exact absurd he List.not_mem_nil
  · -- the release would be the second, which has another id
    have hmem : r ∈ [renameItems] := by
      rw [(List.cons.inj hsplit).2]
      exact List.mem_append_right _ List.mem_cons_self
    rw [List.mem_singleton.mp hmem] at hid
    exact absurd hid (by decide)

/-- The second waits for the first. -/
theorem ready_second {d : tableLedger.State} (h : trackingRecord 1 ∈ d.1.tracked) :
    (itemRequests true).Ready tableLedgerTable [createItems, renameItems] d := by
  intro earlier r later hsplit hid e he
  rcases earlier with _ | ⟨x, _ | ⟨y, earlier⟩⟩
  · exact absurd he List.not_mem_nil
  · obtain rfl := List.mem_singleton.mp he
    obtain rfl := (List.cons.inj hsplit).1
    exact h
  · have hlength := congrArg List.length hsplit
    simp at hlength

/-- Nothing is defined. -/
def emptyLedger : tableLedger.State := (⟨false, [], []⟩, fun _ => none)

/-- Both releases are applied, and the items are those of the second. -/
theorem items_released : ∃ p : Callers tableLedger Bool,
    AtRelease ledgerScripts [] [createItems, renameItems] itemRequests emptyLedger p 2 := by
  have hempty : (ledgerScripts.tables emptyLedger).definitions = completed (fun _ => none) [] := rfl
  obtain ⟨c₁, hrun₁, hdef₁, _⟩ :=
    createItems_isSchemaDiff.migrates valid_nil valid_versions.1 (by decide) hempty
  obtain ⟨c₂, hrun₂, -, _⟩ :=
    renameItems_isSchemaDiff.migrates valid_versions.1 valid_versions.2 (by decide) hdef₁
  have htrack₁ : ledger.exec ⟨true, [], []⟩ (trackQuery createItems.id createItems.name)
      (.ok (.array [])) ⟨true, [trackingRecord 1], []⟩ := rfl
  have htrack₂ : ledger.exec ⟨true, [trackingRecord 1], []⟩
      (trackQuery renameItems.id renameItems.name)
      (.ok (.array [])) ⟨true, [trackingRecord 2, trackingRecord 1], []⟩ := rfl
  have hbegin : Staged tableLedgerTable [createItems, renameItems] itemRequests emptyLedger
      (Callers.begin itemRequests emptyLedger) := .begin
  obtain ⟨p₁, h₁, hd₁, -, hother₁⟩ := staged_ledger (l := ⟨false, [], []⟩) (c := fun _ => none)
    items_planned hbegin List.mem_cons_self rfl rfl (ready_first _) htrack₁ hrun₁
  have hready : (itemRequests true).Ready tableLedgerTable
      [createItems, renameItems] p₁.shared.committed :=
    ready_second (by rw [hd₁]; exact List.mem_cons_self)
  obtain ⟨p₂, h₂, -, hdone₂, -⟩ :=
    staged_ledger (l := ⟨true, [trackingRecord 1], []⟩) items_planned h₁
    (List.mem_cons_of_mem _ List.mem_cons_self) (hother₁ true (by decide)) hd₁ hready htrack₂ hrun₂
  have hrequests : ∀ second, (itemRequests second).IsOf [createItems, renameItems] := by
    intro second
    cases second with
    | false => exact ⟨createItems, List.mem_cons_self, rfl, rfl, rfl⟩
    | true => exact ⟨renameItems, List.mem_cons_of_mem _ List.mem_cons_self, rfl, rfl, rfl⟩
  obtain ⟨m, hm⟩ := releases_in_order ledgerScripts items_planned hrequests rfl hempty h₂
  -- the second call returned, so its release is among the first `m`
  have hsecond := hm.returned true 2 rfl ⟨[], hdone₂⟩
  have hle : m ≤ 2 := hm.le
  rcases m with _ | _ | _ | m
  · exact absurd hsecond (by decide)
  · exact absurd hsecond (by decide)
  · exact ⟨p₂, hm⟩
  · omega

end ToastySurreal
