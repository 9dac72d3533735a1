import Mathlib.Logic.Function.Basic

/-!
# The driver and its handle

The model of `lib.rs`. A driver and its clones share one slot for the handle on the
database, under a mutex. `session` holds the mutex from its look at the slot to its end: it
opens the handle if there is none, and selects namespace and database on a clone of it.
`reset_db` takes the handle out and lets go of the mutex; only then does it remove the
directory of a file engine. `HandleStep` is one step of any of these calls.
-/

namespace ToastySurreal

/-! ## Drivers -/

/-- `Engine`; a path is its text. -/
inductive Engine where
  | mem
  | remote (url : String)
  | surrealKv (path : String)
  | rocksDb (path : String)
  deriving DecidableEq, Repr

/-- The directory that `reset_db` removes. -/
def Engine.filePath : Engine → Option String
  | .mem | .remote _ => none
  | .surrealKv path | .rocksDb path => some path

/-- `SurrealDb`, less the slot that its clones share. -/
structure SurrealDb where
  engine : Engine
  namespaceName : String
  database : String
  deriving DecidableEq, Repr

namespace SurrealDb

/-- `with_engine`, with `DEFAULT_NS` and `DEFAULT_DB`. -/
def withEngine (engine : Engine) : SurrealDb := ⟨engine, "toasty", "toasty"⟩

end SurrealDb

/-! ## What is behind a handle -/

/-- A database: one in memory, that of a server, or that of a directory. Those in memory and
directories under one path are told apart by a number. -/
inductive Store where
  | mem (n : Nat)
  | remote (url : String)
  | dir (path : String) (n : Nat)
  deriving DecidableEq, Repr

/-- A handle that was opened. -/
structure DbHandle where
  id : Nat
  store : Store
  deriving DecidableEq, Repr

/-- A session that a driver gave out; `epoch` says how often the handle had been taken. -/
structure Granted where
  epoch : Nat
  handle : DbHandle
  namespaceName : String
  database : String

/-- Where a caller is. -/
inductive Phase where
  | idle
  /-- `session` has the mutex. -/
  | locked
  /-- `session` has the handle too. -/
  | holding (h : DbHandle)
  /-- `reset_db` has taken the handle. -/
  | cleared
  deriving DecidableEq, Repr

/-- The slot, the callers and the directories, and what has been opened and given out. -/
structure World (ι : Type) where
  slot : Option DbHandle
  holder : Option ι
  phases : ι → Phase
  /-- The directory under a path. -/
  dirs : String → Option Nat
  /-- The first number that is not in use. -/
  fresh : Nat
  epoch : Nat
  opened : List (Nat × DbHandle)
  sessions : List Granted

namespace World

variable {ι : Type} [DecidableEq ι]

def setPhase (w : World ι) (i : ι) (phase : Phase) : World ι :=
  { w with phases := Function.update w.phases i phase }

/-- The caller gives the mutex back and returns. -/
def release (w : World ι) (i : ι) : World ι := { w.setPhase i .idle with holder := none }

/-- What a handle that is opened now is on: a new database in memory, and the one that is
under the path, or a new one. -/
def storeOf (w : World ι) : Engine → Store
  | .mem => .mem w.fresh
  | .remote url => .remote url
  | .surrealKv path | .rocksDb path => .dir path ((w.dirs path).getD w.fresh)

/-- Opening a directory makes one where there is none. -/
def dirsAfter (w : World ι) (engine : Engine) : String → Option Nat :=
  match engine.filePath with
  | none => w.dirs
  | some path => Function.update w.dirs path (some ((w.dirs path).getD w.fresh))

/-- The handle that is opened now. -/
def newHandle (w : World ι) (engine : Engine) : DbHandle := ⟨w.fresh, w.storeOf engine⟩

/-- `connect` returned a handle, which goes into the slot. -/
def open' (w : World ι) (engine : Engine) (i : ι) : World ι :=
  { w.setPhase i (.holding (w.newHandle engine)) with
    slot := some (w.newHandle engine)
    dirs := w.dirsAfter engine
    fresh := w.fresh + 1
    opened := w.opened ++ [(w.epoch, w.newHandle engine)] }

/-- `use_ns` and `use_db` are done, and the session is given out. -/
def grant (w : World ι) (d : SurrealDb) (h : DbHandle) (i : ι) : World ι :=
  { w.release i with sessions := w.sessions ++ [⟨w.epoch, h, d.namespaceName, d.database⟩] }

/-- The handle is taken out of the slot. -/
def take (w : World ι) (i : ι) : World ι :=
  { w.setPhase i .cleared with slot := none, epoch := w.epoch + 1 }

/-- The directory is removed. -/
def removeDir (w : World ι) (path : String) (i : ι) : World ι :=
  { w.setPhase i .idle with dirs := Function.update w.dirs path none }

end World

/-- A step of a call. -/
inductive Event (ι : Type) where
  | lock (i : ι)
  | reuse (i : ι)
  | connect (i : ι)
  | connectFail (i : ι)
  | select (i : ι)
  | selectFail (i : ι)
  | take (i : ι)
  | absent (i : ι)
  | remove (i : ι)
  | removeFail (i : ι)

variable {ι : Type} [DecidableEq ι]

/-- One step of `session` or `reset_db`, by a driver or a clone of it. -/
inductive HandleStep (drivers : ι → SurrealDb) : World ι → Event ι → World ι → Prop where
  | lock {w : World ι} {i : ι} (hp : w.phases i = .idle) (hfree : w.holder = none) :
      HandleStep drivers w (.lock i) { w.setPhase i .locked with holder := some i }
  | reuse {w : World ι} {i : ι} {h : DbHandle} (hp : w.phases i = .locked)
      (hslot : w.slot = some h) : HandleStep drivers w (.reuse i) (w.setPhase i (.holding h))
  | connect {w : World ι} {i : ι} (hp : w.phases i = .locked) (hslot : w.slot = none) :
      HandleStep drivers w (.connect i) (w.open' (drivers i).engine i)
  /-- Nothing is put into the slot; a directory may have been made. -/
  | connectFail {w : World ι} {i : ι} {dirs : String → Option Nat} (hp : w.phases i = .locked)
      (hslot : w.slot = none) (hdirs : dirs = w.dirs ∨ dirs = w.dirsAfter (drivers i).engine) :
      HandleStep drivers w (.connectFail i) { w.release i with dirs := dirs, fresh := w.fresh + 1 }
  | select {w : World ι} {i : ι} {h : DbHandle} (hp : w.phases i = .holding h) :
      HandleStep drivers w (.select i) (w.grant (drivers i) h i)
  /-- The handle stays where it is. -/
  | selectFail {w : World ι} {i : ι} {h : DbHandle} (hp : w.phases i = .holding h) :
      HandleStep drivers w (.selectFail i) (w.release i)
  | take {w : World ι} {i : ι} (hp : w.phases i = .idle) (hfree : w.holder = none) :
      HandleStep drivers w (.take i) (w.take i)
  /-- There is no directory to remove. -/
  | absent {w : World ι} {i : ι} (hp : w.phases i = .cleared)
      (hdir : ∀ path, (drivers i).engine.filePath = some path → w.dirs path = none) :
      HandleStep drivers w (.absent i) (w.setPhase i .idle)
  | remove {w : World ι} {i : ι} {path : String} (hp : w.phases i = .cleared)
      (hpath : (drivers i).engine.filePath = some path) (hdir : (w.dirs path).isSome) :
      HandleStep drivers w (.remove i) (w.removeDir path i)
  /-- The handle is gone all the same. -/
  | removeFail {w : World ι} {i : ι} {path : String} (hp : w.phases i = .cleared)
      (hpath : (drivers i).engine.filePath = some path) (hdir : (w.dirs path).isSome) :
      HandleStep drivers w (.removeFail i) (w.setPhase i .idle)

end ToastySurreal
