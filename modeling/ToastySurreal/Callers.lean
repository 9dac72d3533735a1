import ToastySurreal.Lib.Pool
import ToastySurreal.Store
import ToastySurreal.Driver

/-!
# Migrations applied side by side

Any number of calls that apply or list migrations run against one server, in any
order of their questions; each has a client transaction of its own, so that calls one
after the other on one connection are one of these orders. What the driver relies on
of its tracking table is a `TrackingTable`; `MadeBy` says what a database is when it
was made by some of the calls, one after another.
-/

namespace ToastySurreal

/-! ## The tracking table -/

/-- The definition of the tracking table. -/
def defineTracking : Query := ⟨.schema (.defineTable trackingTable true), []⟩

/-- What the driver relies on of its tracking table. -/
structure TrackingTable (D : Database) where
  /-- The table is defined. -/
  Defined : D.State → Prop
  /-- The ids of its records. -/
  tracked : D.State → List RecordId
  /-- `IF NOT EXISTS`. -/
  define_defined : ∀ {d r d'}, Defined d → D.exec d defineTracking r d' → d' = d
  define_tracked : ∀ {d r d'}, D.exec d defineTracking r d' → tracked d' = tracked d
  /-- A `CREATE` of a record that exists fails, any other adds the record. -/
  create : ∀ {d id name v d'}, D.exec d (trackQuery id name) (.ok v) d' →
    trackingRecord id ∉ tracked d ∧ (tracked d').Perm (trackingRecord id :: tracked d)
  /-- `SELECT record::id(id) AS migration_id` returns one row for each record. -/
  select : ∀ {d v d'}, D.exec d trackingQuery (.ok v) d' → ∃ rids, rids.Perm (tracked d) ∧
    List.Forall₂ (fun row (rid : RecordId) => ∃ o, row = .object o ∧
      AssocMap.lookup trackingIdAlias o = some rid.key.value) (takeRows v) rids

variable {D : Database}

/-- The migration's statement leaves the records of the tracking table alone. -/
def TrackingTable.Spares (T : TrackingTable D) (statement : String) : Prop :=
  ∀ d v d', D.exec d (scriptQuery statement) (.ok v) d' → T.tracked d' = T.tracked d

/-! ## Calls -/

/-- A call about migrations, with the connection it is made on. -/
inductive Request where
  | apply (conn : Connection) (id : UInt64) (name : String) (statements : List String)
  | applied (conn : Connection)

def Request.program : Request → Action (List UInt64)
  | .apply conn id name statements => do
      applyMigration conn id name statements
      .done []
  | .applied conn => appliedMigrations conn

def Request.connection : Request → Connection
  | .apply conn _ _ _ => conn
  | .applied conn => conn

/-- The id of the migration a call applies. -/
def Request.id : Request → Option UInt64
  | .apply _ id _ _ => some id
  | .applied _ => none

/-- The statements of the migration a call applies. -/
def Request.statements : Request → List String
  | .apply _ _ _ statements => statements
  | .applied _ => []

abbrev Callers (D : Database) (ι : Type) := Prog.Pool ι (D.Server ι) Call Reply Error (List UInt64)

/-- The calls go on, in any order. -/
abbrev Go {ι : Type} [DecidableEq ι] : Callers D ι → Callers D ι → Prop :=
  Prog.Pool.Steps Database.Step

/-- Nothing was asked yet. -/
def Callers.begin {ι : Type} (requests : ι → Request) (d₀ : D.State) : Callers D ι :=
  ⟨⟨d₀, fun _ => none⟩, fun i => (requests i).program, []⟩

variable {ι : Type}

/-- The call whose commit succeeded, if that is what was asked. -/
def committer : ι × Call × Reply → Option ι
  | (i, .commit, .ok _) => some i
  | _ => none

/-- The calls whose commit succeeded, in commit order. -/
def commitsOf (log : List (ι × Call × Reply)) : List ι := log.filterMap committer

def Callers.commits (p : Callers D ι) : List ι := commitsOf p.log

/-- The ids of the migrations some calls apply. -/
def idsOf (requests : ι → Request) (is : List ι) : List UInt64 :=
  is.filterMap fun i => (requests i).id

/-! ## What the calls are to amount to -/

/-- What a migration is: its statements that are not blank, then its tracking record. -/
def migrationQueries (id : UInt64) (name : String) (statements : List String) : List Query :=
  (statements.filter fun statement => !isBlank statement).map scriptQuery ++ [trackQuery id name]

variable (D) in
/-- Every query succeeded, one after another. -/
def Ran : D.State → List Query → D.State → Prop
  | d, [], d' => d' = d
  | d, q :: qs, d' => ∃ v d₁, D.exec d q (.ok v) d₁ ∧ Ran d₁ qs d'

/-- The database is what running the migrations of these calls makes of `d₀`, one call
after another; the tracking table is defined where it is not. -/
inductive MadeBy (T : TrackingTable D) (requests : ι → Request) (d₀ : D.State) :
    List ι → D.State → Prop where
  | start : MadeBy T requests d₀ [] d₀
  | define {is : List ι} {d d' : D.State} {v : SurValue} (h : MadeBy T requests d₀ is d)
      (hundef : ¬ T.Defined d) (hdef : D.exec d defineTracking (.ok v) d') :
      MadeBy T requests d₀ is d'
  | call {is : List ι} {d d' : D.State} {i : ι} {conn : Connection} {id : UInt64} {name : String}
      {statements : List String} (h : MadeBy T requests d₀ is d)
      (hi : requests i = .apply conn id name statements)
      (hran : Ran D d (migrationQueries id name statements) d') : MadeBy T requests d₀
      (is ++ [i]) d'

/-- A call that applies a migration returns `Ok` when it has committed, and only then; the
committed database is what the committed calls make of it in commit order. -/
structure Applied (T : TrackingTable D) (requests : ι → Request) (d₀ : D.State) (p : Callers D ι) :
    Prop where
  built : MadeBy T requests d₀ p.commits p.shared.committed
  once : p.commits.Nodup
  ok_iff : ∀ {i conn id name statements}, requests i = .apply conn id name statements →
    ((∃ ids, p.threads i = .done ids) ↔ i ∈ p.commits)

/-- The tracked ids are those of the committed calls, without repetition. -/
structure Tracked (T : TrackingTable D) (requests : ι → Request) (p : Callers D ι) : Prop where
  distinct : (idsOf requests p.commits).Nodup
  records : (T.tracked p.shared.committed).Perm ((idsOf requests p.commits).map trackingRecord)

/-- A call that lists the migrations returns the ids of the calls committed at some
moment between its start and its return. -/
def ListsApplied [DecidableEq ι] (requests : ι → Request) (p : Callers D ι) : Prop :=
  ∀ i conn p' ids, requests i = .applied conn → p.threads i = (requests i).program → Go p p' →
    p'.threads i = .done ids →
    ∃ is, p.commits <+: is ∧ is <+: p'.commits ∧ ids.Perm (idsOf requests is)

end ToastySurreal
