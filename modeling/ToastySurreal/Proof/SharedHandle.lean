import Mathlib.Data.List.Pairwise
import Mathlib.Data.List.Perm.Subperm
import ToastySurreal.Handles
import ToastySurreal.Lib.Simulation

/-!
# One handle for all clones

However the clones of a driver interleave their calls, the handle is opened at most once
between two resets, and all sessions that were given out in between are on it. A reset
renews the database: what is given out after it is on a database that was in use by nobody
before it, unless a handle was opened between its two steps.
-/

namespace ToastySurreal

open Simulation

variable {ι : Type} [DecidableEq ι]

/-! ## The mutex -/

/-- The caller is inside of `session`. -/
def Phase.inSession : Phase → Bool
  | .locked | .holding _ => true
  | .idle | .cleared => false

/-- Whoever is inside of `session` has the mutex, and the handle it has is in the slot. -/
structure Guarded (w : World ι) : Prop where
  holder : ∀ i, (w.phases i).inSession → w.holder = some i
  held : ∀ i h, w.phases i = .holding h → w.slot = some h

/-- One caller moves on, and nobody else who is inside of `session` can tell. -/
theorem Guarded.move {w w' : World ι} (h : Guarded w) {i : ι} {phase : Phase}
    (hphases : w'.phases = Function.update w.phases i phase)
    (hin : phase.inSession → w'.holder = some i)
    (hheld : ∀ d, phase = .holding d → w'.slot = some d)
    (hothers : ∀ j, j ≠ i → (w.phases j).inSession → w'.holder = w.holder ∧ w'.slot = w.slot) :
    Guarded w' where
  holder := by
    intro j hj
    by_cases hji : j = i
    · subst hji
      rw [hphases, Function.update_self] at hj
      exact hin hj
    · rw [hphases, Function.update_of_ne hji] at hj
      exact (hothers j hji hj).1.trans (h.holder j hj)
  held := by
    intro j d hj
    by_cases hji : j = i
    · subst hji
      rw [hphases, Function.update_self] at hj
      exact hheld d hj
    · rw [hphases, Function.update_of_ne hji] at hj
      exact (hothers j hji (by rw [hj]; rfl)).2.trans (h.held j d hj)

/-- One caller leaves, or comes to `reset_db`. -/
theorem Guarded.leave {w w' : World ι} (h : Guarded w) {i : ι} {phase : Phase}
    (hphases : w'.phases = Function.update w.phases i phase) (hout : ¬ phase.inSession)
    (hothers : ∀ j, j ≠ i → (w.phases j).inSession → w'.holder = w.holder ∧ w'.slot = w.slot) :
    Guarded w' := by
  refine h.move hphases (fun hin => absurd hin hout) ?_ hothers
  intro d hd
  subst hd
  exact absurd rfl hout

omit [DecidableEq ι] in
/-- Nobody else is inside of `session`. -/
theorem Guarded.alone {w : World ι} (h : Guarded w) {i j : ι} (hi : (w.phases i).inSession)
    (hj : (w.phases j).inSession) : j = i :=
  Option.some.inj ((h.holder j hj).symm.trans (h.holder i hi))

omit [DecidableEq ι] in
/-- Nobody is inside of `session` when the mutex is free. -/
theorem Guarded.empty {w : World ι} (h : Guarded w) (hfree : w.holder = none) (j : ι) :
    ¬ (w.phases j).inSession := by
  intro hj
  rw [h.holder j hj] at hfree
  cases hfree

/-- **The mutex guards the slot.** -/
theorem Guarded.step {drivers : ι → SurrealDb} {w w' : World ι} {e : Event ι} (h : Guarded w)
    (hs : HandleStep drivers w e w') : Guarded w' := by
  cases hs with
  | @lock i hp hfree =>
      exact h.move rfl (fun _ => rfl) (fun d hd => by cases hd) fun j _ hj =>
        absurd hj (h.empty hfree j)
  | @reuse i d hp hslot =>
      have hin : (w.phases i).inSession := by rw [hp]; rfl
      refine h.move rfl (fun _ => h.holder i hin) ?_ fun j _ _ => ⟨rfl, rfl⟩
      intro d' hd'
      cases hd'
      exact hslot
  | @connect i hp hslot =>
      have hin : (w.phases i).inSession := by rw [hp]; rfl
      refine h.move rfl (fun _ => h.holder i hin) ?_ fun j hji hj => absurd (h.alone hin hj) hji
      intro d hd
      cases hd
      rfl
  | @connectFail i dirs hp hslot hdirs =>
      have hin : (w.phases i).inSession := by rw [hp]; rfl
      exact h.leave rfl (by decide) fun j hji hj => absurd (h.alone hin hj) hji
  | @select i d hp =>
      have hin : (w.phases i).inSession := by rw [hp]; rfl
      exact h.leave rfl (by decide) fun j hji hj => absurd (h.alone hin hj) hji
  | @selectFail i d hp =>
      have hin : (w.phases i).inSession := by rw [hp]; rfl
      exact h.leave rfl (by decide) fun j hji hj => absurd (h.alone hin hj) hji
  | @take i hp hfree =>
      exact h.leave rfl (by decide) fun j _ hj => absurd hj (h.empty hfree j)
  | @absent i hp hdir =>
      exact h.leave rfl (by decide) fun j _ _ => ⟨rfl, rfl⟩
  | @remove i path hp hpath hdir =>
      exact h.leave rfl (by decide) fun j _ _ => ⟨rfl, rfl⟩
  | @removeFail i path hp hpath hdir =>
      exact h.leave rfl (by decide) fun j _ _ => ⟨rfl, rfl⟩

/-! ## The handles -/

/-- What a handle that an engine opened is on. -/
def Engine.Backs (d : DbHandle) : Engine → Prop
  | .mem => d.store = .mem d.id
  | .remote url => d.store = .remote url
  | .surrealKv path | .rocksDb path => ∃ n ≤ d.id, d.store = .dir path n

/-- The handles that were opened, each with how often the handle had been taken. -/
structure Handles (engine : Engine) (w : World ι) : Prop where
  slot : ∀ d, w.slot = some d → (w.epoch, d) ∈ w.opened
  le : ∀ o ∈ w.opened, o.1 ≤ w.epoch
  lt : w.slot = none → ∀ o ∈ w.opened, o.1 < w.epoch
  id : ∀ o ∈ w.opened, o.2.id < w.fresh
  order : w.opened.Pairwise fun o o' => o.1 < o'.1 ∧ o.2.id < o'.2.id
  backs : ∀ o ∈ w.opened, engine.Backs o.2
  dirs : ∀ path n, w.dirs path = some n → n < w.fresh

omit [DecidableEq ι] in
/-- The number under a path is one that is in use, or the next one. -/
theorem Handles.number {engine : Engine} {w : World ι} (h : Handles engine w) (path : String) :
    (w.dirs path).getD w.fresh ≤ w.fresh := by
  cases hd : w.dirs path with
  | none => exact Nat.le_refl _
  | some n => exact Nat.le_of_lt (h.dirs path n hd)

omit [DecidableEq ι] in
theorem Handles.newBacks {engine : Engine} {w : World ι} (h : Handles engine w) :
    engine.Backs (w.newHandle engine) := by
  cases engine with
  | mem => rfl
  | remote url => rfl
  | surrealKv path => exact ⟨_, h.number path, rfl⟩
  | rocksDb path => exact ⟨_, h.number path, rfl⟩

omit [DecidableEq ι] in
/-- The number of a directory that opening makes is in use from then on. -/
theorem Handles.dirsAfter {engine : Engine} {w : World ι} (h : Handles engine w) (path : String)
    (n : Nat) (hn : w.dirsAfter engine path = some n) : n < w.fresh + 1 := by
  cases hp : engine.filePath with
  | none =>
      simp only [World.dirsAfter, hp] at hn
      exact Nat.lt_succ_of_lt (h.dirs path n hn)
  | some p =>
      simp only [World.dirsAfter, hp] at hn
      by_cases hpath : path = p
      · subst hpath
        rw [Function.update_self] at hn
        exact Option.some.inj hn ▸ Nat.lt_succ_of_le (h.number path)
      · rw [Function.update_of_ne hpath] at hn
        exact Nat.lt_succ_of_lt (h.dirs path n hn)

/-- Opening adds a handle, under an epoch that has none. -/
theorem Handles.open' {engine : Engine} {w : World ι} (h : Handles engine w) (hslot : w.slot = none)
    (i : ι) : Handles engine (w.open' engine i) where
  slot := by
    intro d hd
    cases hd
    exact List.mem_append_right _ List.mem_cons_self
  le := by
    intro o ho
    obtain ho | ho := List.mem_append.mp ho
    · exact h.le o ho
    · exact List.mem_singleton.mp ho ▸ Nat.le_refl _
  lt := by
    intro hnone
    cases hnone
  id := by
    intro o ho
    obtain ho | ho := List.mem_append.mp ho
    · exact Nat.lt_succ_of_lt (h.id o ho)
    · exact List.mem_singleton.mp ho ▸ Nat.lt_succ_self _
  order := by
    refine List.pairwise_append.mpr ⟨h.order, List.pairwise_singleton _ _, ?_⟩
    intro o ho o' ho'
    rw [List.mem_singleton.mp ho']
    exact ⟨h.lt hslot o ho, h.id o ho⟩
  backs := by
    intro o ho
    obtain ho | ho := List.mem_append.mp ho
    · exact h.backs o ho
    · exact List.mem_singleton.mp ho ▸ h.newBacks
  dirs := h.dirsAfter

/-- What is left is under another path. -/
theorem World.dirs_of_removeDir {w : World ι} {path p : String} {i : ι} {n : Nat}
    (hn : (w.removeDir path i).dirs p = some n) : p ≠ path ∧ w.dirs p = some n := by
  have hn' : Function.update w.dirs path none p = some n := hn
  by_cases hp : p = path
  · rw [hp, Function.update_self] at hn'
    cases hn'
  · rw [Function.update_of_ne hp] at hn'
    exact ⟨hp, hn'⟩

/-- Every step keeps one handle an epoch. -/
theorem Handles.step {drivers : ι → SurrealDb} {engine : Engine}
    (hsame : ∀ i, (drivers i).engine = engine) {w w' : World ι} {e : Event ι} (h : Handles engine w)
    (hs : HandleStep drivers w e w') : Handles engine w' := by
  cases hs with
  | lock hp hfree => exact ⟨h.slot, h.le, h.lt, h.id, h.order, h.backs, h.dirs⟩
  | reuse hp hslot => exact ⟨h.slot, h.le, h.lt, h.id, h.order, h.backs, h.dirs⟩
  | @connect i hp hslot => exact hsame i ▸ h.open' hslot i
  | @connectFail i dirs hp hslot hdirs =>
      refine ⟨h.slot, h.le, h.lt, fun o ho => Nat.lt_succ_of_lt (h.id o ho), h.order, h.backs, ?_⟩
      intro path n hn
      obtain rfl | rfl := hdirs
      · exact Nat.lt_succ_of_lt (h.dirs path n hn)
      · exact h.dirsAfter path n (hsame i ▸ hn)
  | select hp => exact ⟨h.slot, h.le, h.lt, h.id, h.order, h.backs, h.dirs⟩
  | selectFail hp => exact ⟨h.slot, h.le, h.lt, h.id, h.order, h.backs, h.dirs⟩
  | take hp hfree =>
      refine ⟨?_, fun o ho => Nat.le_succ_of_le (h.le o ho),
        fun _ o ho => Nat.lt_succ_of_le (h.le o ho), h.id, h.order, h.backs, h.dirs⟩
      intro d hd
      cases hd
  | absent hp hdir => exact ⟨h.slot, h.le, h.lt, h.id, h.order, h.backs, h.dirs⟩
  | @remove i path hp hpath hdir =>
      refine ⟨h.slot, h.le, h.lt, h.id, h.order, h.backs, ?_⟩
      intro p n hn
      exact h.dirs p n (World.dirs_of_removeDir hn).2
  | removeFail hp hpath hdir => exact ⟨h.slot, h.le, h.lt, h.id, h.order, h.backs, h.dirs⟩

omit [DecidableEq ι] in
/-- Handles of one epoch are one handle, and handles of two epochs have two numbers. -/
theorem Handles.same_epoch {engine : Engine} {w : World ι} (h : Handles engine w) {n n' : Nat}
    {d d' : DbHandle} (ho : (n, d) ∈ w.opened) (ho' : (n', d') ∈ w.opened) :
    (d = d' ∧ n = n') ∨ (d.id ≠ d'.id ∧ n ≠ n') := by
  have hsymm : Std.Symm fun o o' : Nat × DbHandle => o.2.id ≠ o'.2.id ∧ o.1 ≠ o'.1 :=
    ⟨fun _ _ hne => ⟨hne.1.symm, hne.2.symm⟩⟩
  have hne : w.opened.Pairwise fun o o' => o.2.id ≠ o'.2.id ∧ o.1 ≠ o'.1 :=
    h.order.imp fun hlt => ⟨Nat.ne_of_lt hlt.2, Nat.ne_of_lt hlt.1⟩
  by_cases heq : (n, d) = (n', d')
  · cases heq
    exact .inl ⟨rfl, rfl⟩
  · exact .inr (hne.forall ho ho' heq)

omit [DecidableEq ι] in
/-- A handle an epoch, at most. -/
theorem Handles.length_le {engine : Engine} {w : World ι} (h : Handles engine w) :
    w.opened.length ≤ w.epoch + 1 := by
  have hnodup : (w.opened.map Prod.fst).Nodup :=
    List.pairwise_map.mpr (h.order.imp fun hlt => Nat.ne_of_lt hlt.1)
  have hsub : w.opened.map Prod.fst ⊆ List.range (w.epoch + 1) := by
    intro n hn
    obtain ⟨o, ho, rfl⟩ := List.mem_map.mp hn
    exact List.mem_range.mpr (Nat.lt_succ_of_le (h.le o ho))
  have hle := (List.Nodup.subperm hnodup hsub).length_le
  rwa [List.length_map, List.length_range] at hle

/-! ## The sessions -/

/-- The mutex, the handles, and that sessions are on handles that were opened. -/
structure Coherent (engine : Engine) (w : World ι) : Prop where
  guarded : Guarded w
  handles : Handles engine w
  given : ∀ g ∈ w.sessions, (g.epoch, g.handle) ∈ w.opened

/-- **Every step keeps what the clones share in order.** -/
theorem Coherent.step {drivers : ι → SurrealDb} {engine : Engine}
    (hsame : ∀ i, (drivers i).engine = engine) {w w' : World ι} {e : Event ι}
    (h : Coherent engine w) (hs : HandleStep drivers w e w') : Coherent engine w' := by
  refine ⟨h.guarded.step hs, h.handles.step hsame hs, ?_⟩
  cases hs with
  | connect hp hslot => exact fun g hg => List.mem_append_left _ (h.given g hg)
  | @select i d hp =>
      intro g hg
      obtain hg | hg := List.mem_append.mp hg
      · exact h.given g hg
      · rw [List.mem_singleton.mp hg]
        exact h.handles.slot d (h.guarded.held i d hp)
  | lock | reuse | connectFail | selectFail | take | absent | remove | removeFail => exact h.given

theorem Coherent.run {drivers : ι → SurrealDb} {engine : Engine}
    (hsame : ∀ i, (drivers i).engine = engine) {w w' : World ι} {es : List (Event ι)}
    (h : Coherent engine w) (hrun : Run (HandleStep drivers) w es w') : Coherent engine w' :=
  Run.keeps (fun _ _ _ h hs => h.step hsame hs) h hrun

/-- Nothing has been opened yet; directories may be there. -/
def World.start (dirs : String → Option Nat) (fresh : Nat) : World ι :=
  ⟨none, none, fun _ => .idle, dirs, fresh, 0, [], []⟩

omit [DecidableEq ι] in
theorem Coherent.start (engine : Engine) {dirs : String → Option Nat} {fresh : Nat}
    (hdirs : ∀ path n, dirs path = some n → n < fresh) :
    Coherent engine (World.start dirs fresh : World ι) where
  guarded :=
    { holder := by
        intro i hi
        cases hi
      held := by
        intro i d hd
        cases hd }
  handles :=
    { slot := by
        intro d hd
        cases hd
      le := fun o ho => absurd ho List.not_mem_nil
      lt := fun _ o ho => absurd ho List.not_mem_nil
      id := fun o ho => absurd ho List.not_mem_nil
      order := .nil
      backs := fun o ho => absurd ho List.not_mem_nil
      dirs := hdirs }
  given := fun g hg => absurd hg List.not_mem_nil

/-- The step takes the handle. -/
def Event.takes : Event ι → Bool
  | .take _ => true
  | _ => false

/-- The caller that the step gives a session to. -/
def Event.granted : Event ι → List ι
  | .select i => [i]
  | _ => []

theorem HandleStep.epoch {drivers : ι → SurrealDb} (w : World ι) (e : Event ι) (w' : World ι)
    (hs : HandleStep drivers w e w') : w'.epoch = w.epoch + if e.takes then 1 else 0 := by
  cases hs <;> rfl

theorem HandleStep.names {drivers : ι → SurrealDb} (w : World ι) (e : Event ι) (w' : World ι)
    (hs : HandleStep drivers w e w') :
    w'.sessions.map (fun g => (g.namespaceName, g.database)) =
      w.sessions.map (fun g => (g.namespaceName, g.database)) ++
        e.granted.map fun i => ((drivers i).namespaceName, (drivers i).database) := by
  cases hs with
  | select hp => exact List.map_append
  | lock | reuse | connect | connectFail | selectFail | take | absent | remove | removeFail =>
      exact (List.append_nil _).symm

omit [DecidableEq ι] in
/-- Sessions are on one handle exactly when the handle was not taken in between, and then
they are on one database. -/
theorem Coherent.same_handle {engine : Engine} {w : World ι} (h : Coherent engine w)
    {g g' : Granted}
    (hg : g ∈ w.sessions) (hg' : g' ∈ w.sessions) : g.handle = g'.handle ↔ g.epoch = g'.epoch := by
  obtain ⟨hd, he⟩ | ⟨hd, he⟩ := h.handles.same_epoch (h.given g hg) (h.given g' hg')
  · exact iff_of_true hd he
  · exact iff_of_false (fun heq => hd (congrArg DbHandle.id heq)) he

omit [DecidableEq ι] in
/-- A database in memory is that of one handle. -/
theorem Coherent.same_mem {w : World ι} (h : Coherent .mem w) {g g' : Granted} (hg : g ∈ w.sessions)
    (hg' : g' ∈ w.sessions) : g.handle.store = g'.handle.store ↔ g.epoch = g'.epoch := by
  have hb : g.handle.store = .mem g.handle.id := h.handles.backs _ (h.given g hg)
  have hb' : g'.handle.store = .mem g'.handle.id := h.handles.backs _ (h.given g' hg')
  rw [hb, hb']
  obtain ⟨hd, he⟩ | ⟨hd, he⟩ := h.handles.same_epoch (h.given g hg) (h.given g' hg')
  · exact iff_of_true (by rw [hd]) he
  · exact iff_of_false (fun heq => hd (Store.mem.inj heq)) he

/-- **Clones share one database until it is reset**, however their calls interleave: never
two of them are inside of `session`, the handle is opened once, and once more for every time
it was taken, every call gets the names of its own driver, and sessions are on one handle
exactly when it was not taken in between. In memory that is when they are on one database. -/
theorem sessions_shared {drivers : ι → SurrealDb} {engine : Engine}
    (hsame : ∀ i, (drivers i).engine = engine) {dirs : String → Option Nat} {fresh : Nat}
    (hdirs : ∀ path n, dirs path = some n → n < fresh) {es : List (Event ι)} {w : World ι}
    (hrun : Run (HandleStep drivers) (World.start dirs fresh) es w) :
    (∀ i j, (w.phases i).inSession → (w.phases j).inSession → i = j) ∧
      w.opened.length ≤ es.countP Event.takes + 1 ∧
      w.sessions.map (fun g => (g.namespaceName, g.database)) =
        (es.flatMap Event.granted).map
        (fun i => ((drivers i).namespaceName, (drivers i).database)) ∧
      ∀ g ∈ w.sessions, ∀ g' ∈ w.sessions, (g.handle = g'.handle ↔ g.epoch = g'.epoch) ∧
        (engine = .mem → (g.handle.store = g'.handle.store ↔ g.epoch = g'.epoch)) := by
  have h : Coherent engine w := (Coherent.start engine hdirs).run hsame hrun
  refine ⟨fun i j hi hj => h.guarded.alone hj hi, ?_, ?_, ?_⟩
  · have hepoch : w.epoch = 0 + es.countP Event.takes := Run.counts HandleStep.epoch hrun
    have hle := h.handles.length_le
    omega
  · rw [List.map_flatMap]
    exact (Run.appends HandleStep.names hrun).trans (List.nil_append _)
  · intro g hg g' hg'
    refine ⟨h.same_handle hg hg', ?_⟩
    rintro rfl
    exact h.same_mem hg hg'

/-- Two clones of a driver in memory, and two sessions on one database. -/
theorem clones_shared :
    ∃ w : World Bool,
      Run (HandleStep fun _ => .withEngine .mem) (World.start (fun _ => none) 0)
        [.lock true, .connect true, .select true, .lock false, .reuse false, .select false] w ∧
      w.sessions.length = 2 ∧ ∀ g ∈ w.sessions, ∀ g' ∈ w.sessions,
        (g.handle.store = g'.handle.store ↔ g.epoch = g'.epoch) := by
  have hrun : Run (HandleStep fun _ => .withEngine .mem)
      (World.start (fun _ => none) 0 : World Bool)
      [.lock true, .connect true, .select true, .lock false, .reuse false, .select false] _ :=
    ⟨_, .lock rfl rfl, _, .connect rfl rfl, _, .select rfl, _, .lock rfl rfl, _, .reuse rfl rfl,
      _, .select rfl, rfl⟩
  have hdirs : ∀ (path : String) (n : Nat), (fun _ : String => none) path = some n → n < 0 := by
    intro path n hn
    cases hn
  have hshared := sessions_shared (fun _ => rfl) hdirs hrun
  refine ⟨_, hrun, rfl, ?_⟩
  exact fun g hg g' hg' => (hshared.2.2.2 g hg g' hg').2 rfl

/-! ## What a reset renews -/

/-- The number of a database that is told apart by one. -/
def Store.number : Store → Nat
  | .mem n | .dir _ n => n
  | .remote _ => 0

theorem Engine.Backs.number_le {engine : Engine} {d : DbHandle} (h : engine.Backs d) :
    d.store.number ≤ d.id := by
  cases engine with
  | mem => exact Nat.le_of_eq (congrArg Store.number h)
  | remote url => exact Nat.le_trans (Nat.le_of_eq (congrArg Store.number h)) (Nat.zero_le _)
  | surrealKv path =>
      obtain ⟨n, hn, hs⟩ := h
      exact Nat.le_trans (Nat.le_of_eq (congrArg Store.number hs)) hn
  | rocksDb path =>
      obtain ⟨n, hn, hs⟩ := h
      exact Nat.le_trans (Nat.le_of_eq (congrArg Store.number hs)) hn

/-- No database with a number below `n` can be come by any more. -/
structure Renewed (engine : Engine) (n : Nat) (w : World ι) : Prop where
  fresh : n ≤ w.fresh
  slot : ∀ d, w.slot = some d → n ≤ d.store.number
  dirs : ∀ path, engine.filePath = some path → ∀ m, w.dirs path = some m → n ≤ m

namespace Renewed

variable {engine : Engine} {n : Nat} {w : World ι}

omit [DecidableEq ι] in
/-- The number that a path has, or is about to get. -/
theorem number (h : Renewed engine n w) {path : String} (hpath : engine.filePath = some path) :
    n ≤ (w.dirs path).getD w.fresh := by
  cases hd : w.dirs path with
  | none => exact h.fresh
  | some m => exact h.dirs path hpath m hd

omit [DecidableEq ι] in
/-- What is opened now is new. -/
theorem newHandle (h : Renewed engine n w) (hlocal : ∀ url, engine ≠ .remote url) :
    n ≤ (w.newHandle engine).store.number := by
  cases engine with
  | mem => exact h.fresh
  | remote url => exact absurd rfl (hlocal url)
  | surrealKv path => exact h.number rfl
  | rocksDb path => exact h.number rfl

omit [DecidableEq ι] in
theorem dirsAfter (h : Renewed engine n w) {path : String} (hpath : engine.filePath = some path)
    {m : Nat} (hm : w.dirsAfter engine path = some m) : n ≤ m := by
  simp only [World.dirsAfter, hpath] at hm
  rw [Function.update_self] at hm
  exact Option.some.inj hm ▸ h.number hpath

/-- Every step keeps it. -/
theorem step {drivers : ι → SurrealDb} (hsame : ∀ i, (drivers i).engine = engine)
    (hlocal : ∀ url, engine ≠ .remote url) {w' : World ι} {e : Event ι} (h : Renewed engine n w)
    (hs : HandleStep drivers w e w') : Renewed engine n w' := by
  cases hs with
  | @connect i hp hslot =>
      refine ⟨Nat.le_succ_of_le h.fresh, ?_, ?_⟩
      · intro d hd
        cases hd
        exact hsame i ▸ h.newHandle hlocal
      · intro path hpath m hm
        exact h.dirsAfter hpath (hsame i ▸ hm)
  | @connectFail i dirs hp hslot hdirs =>
      refine ⟨Nat.le_succ_of_le h.fresh, h.slot, ?_⟩
      intro path hpath m hm
      obtain rfl | rfl := hdirs
      · exact h.dirs path hpath m hm
      · exact h.dirsAfter hpath (hsame i ▸ hm)
  | take hp hfree =>
      refine ⟨h.fresh, ?_, h.dirs⟩
      intro d hd
      cases hd
  | @remove i path hp hpath hdir =>
      refine ⟨h.fresh, h.slot, ?_⟩
      intro p hp' m hm
      exact h.dirs p hp' m (World.dirs_of_removeDir hm).2
  | lock | reuse | select | selectFail | absent | removeFail => exact ⟨h.fresh, h.slot, h.dirs⟩

end Renewed

/-- Nothing has been opened or given out since the handle was taken. -/
structure Empty (before : List Granted) (w : World ι) : Prop where
  slot : w.slot = none
  sessions : w.sessions = before

/-- Until someone opens a handle, nobody gets a session. -/
theorem Empty.step {drivers : ι → SurrealDb} {before : List Granted} {w w' : World ι} {e : Event ι}
    (h : Empty before w) (hguarded : Guarded w) (hno : ∀ j, e ≠ .connect j)
    (hs : HandleStep drivers w e w') : Empty before w' := by
  cases hs with
  | @connect i hp hslot => exact absurd rfl (hno i)
  | @select i d hp => exact nomatch h.slot.symm.trans (hguarded.held i d hp)
  | lock | reuse | connectFail | selectFail | take | absent | remove | removeFail =>
      exact ⟨by first | exact h.slot | rfl, h.sessions⟩

theorem Empty.run {drivers : ι → SurrealDb} {engine : Engine}
    (hsame : ∀ i, (drivers i).engine = engine) {before : List Granted} {w w' : World ι}
    {es : List (Event ι)} (h : Empty before w) (hw : Coherent engine w) (hno : ∀ j, .connect j ∉ es)
    (hrun : Run (HandleStep drivers) w es w') : Empty before w' := by
  have hrun' : Run (fun w e w' => HandleStep drivers w e w' ∧ ∀ j, e ≠ .connect j) w es w' :=
    hrun.mono fun e he w w' hs => ⟨hs, fun j hj => hno j (hj ▸ he)⟩
  have hkeeps := Run.keeps (P := fun w => Coherent engine w ∧ Empty before w)
    (fun w e w' hw hs => ⟨hw.1.step hsame hs.1, hw.2.step hw.1.guarded hs.2 hs.1⟩) ⟨hw, h⟩ hrun'
  exact hkeeps.2

/-- The directory is gone, or there was none: what is opened from now on is new. -/
theorem Empty.renewed {drivers : ι → SurrealDb} {engine : Engine}
    (hsame : ∀ i, (drivers i).engine = engine) {before : List Granted} {w w' : World ι} {i : ι}
    (h : Empty before w)
    (hs : HandleStep drivers w (.remove i) w' ∨ HandleStep drivers w (.absent i) w') :
    Renewed engine w.fresh w' ∧ w'.sessions = before := by
  obtain hs | hs := hs
  · cases hs with
    | @remove i path hp hpath hdir =>
        refine ⟨⟨Nat.le_refl _, fun d hd => (nomatch h.slot.symm.trans hd), ?_⟩, h.sessions⟩
        intro p hp' m hm
        have hpp : path = p := Option.some.inj ((hsame i ▸ hpath).symm.trans hp')
        exact absurd hpp.symm (World.dirs_of_removeDir hm).1
  · cases hs with
    | @absent i hp hdir =>
        refine ⟨⟨Nat.le_refl _, fun d hd => (nomatch h.slot.symm.trans hd), ?_⟩, h.sessions⟩
        intro p hp' m hm
        exact nomatch (hdir p (hsame i ▸ hp')).symm.trans hm

/-- What has been given out since is on databases with a number from `n` on. -/
def GivenFrom (before : List Granted) (n : Nat) (w : World ι) : Prop :=
  ∃ granted, w.sessions = before ++ granted ∧ ∀ g ∈ granted, n ≤ g.handle.store.number

/-- A session is on the handle in the slot. -/
theorem GivenFrom.step {drivers : ι → SurrealDb} {engine : Engine} {before : List Granted} {n : Nat}
    {w w' : World ι} {e : Event ι} (h : GivenFrom before n w) (hw : Guarded w)
    (hr : Renewed engine n w) (hs : HandleStep drivers w e w') : GivenFrom before n w' := by
  obtain ⟨granted, hsessions, hnew⟩ := h
  cases hs with
  | @select i d hp =>
      have hgrant : (w.grant (drivers i) d i).sessions =
          w.sessions ++ [⟨w.epoch, d, (drivers i).namespaceName, (drivers i).database⟩] := rfl
      refine ⟨_, by rw [hgrant, hsessions, List.append_assoc], ?_⟩
      intro g hg
      obtain hg | hg := List.mem_append.mp hg
      · exact hnew g hg
      · rw [List.mem_singleton.mp hg]
        exact hr.slot d (hw.held i d hp)
  | lock | reuse | connect | connectFail | selectFail | take | absent | remove | removeFail =>
      exact ⟨granted, hsessions, hnew⟩

theorem GivenFrom.run {drivers : ι → SurrealDb} {engine : Engine}
    (hsame : ∀ i, (drivers i).engine = engine) (hlocal : ∀ url, engine ≠ .remote url) {n : Nat}
    {before : List Granted} {w w' : World ι} {es : List (Event ι)} (h : GivenFrom before n w)
    (hw : Coherent engine w) (hr : Renewed engine n w) (hrun : Run (HandleStep drivers) w es w') :
    GivenFrom before n w' := by
  have hkeeps := Run.keeps
    (P := fun w => Coherent engine w ∧ Renewed engine n w ∧ GivenFrom before n w)
    (fun w e w' h hs => ⟨h.1.step hsame hs, h.2.1.step hsame hlocal hs,
      h.2.2.step h.1.guarded h.2.1 hs⟩) ⟨hw, hr, h⟩ hrun
  exact hkeeps.2.2

/-- **A reset renews the database**: in memory or in a directory, once the handle was taken
and the directory is gone, and if no handle was opened in between, every session that is
given out from then on, to whichever clone, is on a database that no session was on before. -/
theorem reset_fresh {drivers : ι → SurrealDb} {engine : Engine}
    (hsame : ∀ i, (drivers i).engine = engine) (hlocal : ∀ url, engine ≠ .remote url)
    {dirs : String → Option Nat} {fresh : Nat} (hdirs : ∀ path n, dirs path = some n → n < fresh)
    {es es' es'' : List (Event ι)} {w₁ w₂ w₃ w₄ w : World ι} {i : ι}
    (hbefore : Run (HandleStep drivers) (World.start dirs fresh) es w₁)
    (htake : HandleStep drivers w₁ (.take i) w₂) (hbetween : Run (HandleStep drivers) w₂ es' w₃)
    (hno : ∀ j, .connect j ∉ es')
    (hgone : HandleStep drivers w₃ (.remove i) w₄ ∨ HandleStep drivers w₃ (.absent i) w₄)
    (hafter : Run (HandleStep drivers) w₄ es'' w) :
    ∃ granted, w.sessions = w₁.sessions ++ granted ∧
      ∀ g ∈ w₁.sessions, ∀ g' ∈ granted, g'.handle.store ≠ g.handle.store := by
  have h₁ : Coherent engine w₁ := (Coherent.start engine hdirs).run hsame hbefore
  have h₂ : Coherent engine w₂ := h₁.step hsame htake
  have h₃ : Coherent engine w₃ := h₂.run hsame hbetween
  have h₄ : Coherent engine w₄ := hgone.elim (h₃.step hsame) (h₃.step hsame)
  have hempty₂ : Empty w₁.sessions w₂ := by cases htake; exact ⟨rfl, rfl⟩
  have hempty₃ : Empty w₁.sessions w₃ := hempty₂.run hsame h₂ hno hbetween
  obtain ⟨hrenewed, hsessions⟩ := hempty₃.renewed hsame hgone
  have hgiven₄ : GivenFrom w₁.sessions w₃.fresh w₄ :=
    ⟨[], hsessions.trans (List.append_nil _).symm, fun g hg => absurd hg List.not_mem_nil⟩
  obtain ⟨granted, hgranted, hnew⟩ := hgiven₄.run hsame hlocal h₄ hrenewed hafter
  refine ⟨granted, hgranted, ?_⟩
  intro g hg g' hg' heq
  -- The handle of an old session has a number that was in use at the removal.
  have hold := h₃.given g (hempty₃.sessions ▸ hg)
  have hle : g.handle.store.number ≤ g.handle.id := (h₃.handles.backs _ hold).number_le
  have hlt : g.handle.id < w₃.fresh := h₃.handles.id _ hold
  have hge : w₃.fresh ≤ g'.handle.store.number := hnew g' hg'
  rw [heq] at hge
  omega

/-- A driver on a directory is reset while a clone waits for a session. -/
theorem directory_renewed :
    ∃ w : World Bool,
      Run (HandleStep fun _ => .withEngine (.surrealKv "data")) (World.start (fun _ => none) 0)
        [.lock true, .connect true, .select true, .take true, .lock false, .remove true,
          .connect false, .select false] w ∧
      ∃ g g', w.sessions = [g, g'] ∧ g'.handle.store ≠ g.handle.store := by
  have hlocal : ∀ url, Engine.surrealKv "data" ≠ .remote url := by
    intro url h
    cases h
  have hdirs : ∀ (path : String) (n : Nat), (fun _ : String => none) path = some n → n < 0 := by
    intro path n hn
    cases hn
  obtain ⟨granted, hgranted, hnew⟩ :=
    @reset_fresh Bool _ (fun _ => .withEngine (.surrealKv "data")) _
    (fun _ => rfl) hlocal _ 0 hdirs [.lock true, .connect true, .select true] [.lock false]
    [.connect false, .select false] _ _ _ _ _ true
    ⟨_, .lock rfl rfl, _, .connect rfl rfl, _, .select rfl, rfl⟩ (.take rfl rfl)
    ⟨_, .lock rfl rfl, rfl⟩
    (by simp) (.inl (.remove rfl rfl rfl)) ⟨_, .connect rfl rfl, _, .select rfl, rfl⟩
  refine ⟨_, ⟨_, .lock rfl rfl, _, .connect rfl rfl, _, .select rfl, _, .take rfl rfl, _,
    .lock rfl rfl, _, .remove rfl rfl rfl, _, .connect rfl rfl, _, .select rfl, rfl⟩, _, _, rfl, ?_⟩
  obtain rfl := List.append_cancel_left hgranted
  exact hnew _ List.mem_cons_self _ List.mem_cons_self

/-- The mutex is free between the two steps of a reset: a clone that opens the handle there is
on the directory that is then removed. -/
example :
    ∃ w : World Bool,
      Run (HandleStep fun _ => .withEngine (.surrealKv "data")) (World.start (fun _ => none) 0)
        [.lock true, .connect true, .select true, .take true, .lock false, .connect false,
          .remove true, .select false] w ∧
      ∃ g g', w.sessions = [g, g'] ∧ g'.handle.store = g.handle.store :=
  ⟨_, ⟨_, .lock rfl rfl, _, .connect rfl rfl, _, .select rfl, _, .take rfl rfl, _, .lock rfl rfl,
    _, .connect rfl rfl, _, .remove rfl rfl rfl, _, .select rfl, rfl⟩, _, _, rfl, rfl⟩

end ToastySurreal
