import ToastySurreal.Lib.Lists
import ToastySurreal.Plain
import ToastySurreal.Proof.UniqueIndex

/-!
# Insert or ignore

An upsert that ignores sends a `CREATE` and takes an error for the record being there
when its text holds `already exists`. The texts of errors also carry names and stored
values, so another failure may read the same. `ignore_iff` says when none does, and
then a row is dropped only for a record that is there.
-/

namespace ToastySurreal

open Prog

/-! ## How a create is refused -/

/-- How SurrealDB words a refusal, and what else may go wrong with a `CREATE`. -/
class Refusals where
  entryText : List SurValue → String
  ridText : RecordId → String
  /-- Failures that are about neither the record id nor an index. -/
  unrelated : RecordId × Object → DbError → Prop

section

variable [Refusals]

def existsError (rid : RecordId) : DbError :=
  ⟨"Database record `" ++ Refusals.ridText rid ++ "` already exists", false⟩

def clashError (name : String) (entry : List SurValue) (rid : RecordId) : DbError :=
  ⟨"Database index `" ++ name ++ "` already contains " ++ Refusals.entryText entry ++
    ", with record `" ++ Refusals.ridText rid ++ "`", false⟩

end

/-- A `UNIQUE` index that has the new record's entry from a stored one. -/
structure Clash (table : Table) (s : Records) (rec : RecordId × Object) (index : Index)
    (other : RecordId × Object) : Prop where
  defined : index ∈ table.indices
  secondary : index.primaryKey = false
  unique : index.unique = true
  stored : other ∈ s
  beside : other.1.table = rec.1.table
  same : indexEntry (defineIndexStatement table index false).indexFields other =
    indexEntry (defineIndexStatement table index false).indexFields rec

/-- Why a `CREATE` is refused. -/
inductive Refused [Refusals] (table : Table) (s : Records) (rec : RecordId × Object) :
    DbError → Prop where
  | present (h : AssocMap.lookup rec.1 s ≠ none) : Refused table s rec (existsError rec.1)
  | clash {index : Index} {other : RecordId × Object} (h : Clash table s rec index other) :
      Refused table s rec (clashError index.name
        (indexEntry (defineIndexStatement table index false).indexFields rec) other.1)
  | unrelated {err : DbError} (h : Refusals.unrelated rec err) : Refused table s rec err

/-- A `CREATE` on a table with its indices: refused, or the record is there. Whether an
entry with an absent field counts as taken is not said. -/
def Creates [Refusals] (table : Table) (s : Records) (q : Query) (r : Reply) (s' : Records) :
    Prop :=
  ∃ rid o, q.recordId "rid" = some rid ∧ q.param "data" = .object o ∧
    ((∃ err, Refused table s (rid, o) err ∧ r = .error err ∧ s' = s) ∨
      AssocMap.lookup rid s = none ∧ Wrote s rid o r s' ∧
      ∀ index other, Clash table s (rid, o) index other →
        .none ∈ indexEntry (defineIndexStatement table index false).indexFields (rid, o))

/-- What a statement does to a table with unique indices. -/
def Records.execUnique [Refusals] [Surql] (table : Table) (s : Records) (q : Query) (r : Reply)
    (s' : Records) : Prop :=
  match q.sql with
  | .create _ => Creates table s q r s'
  | _ => Records.exec s q r s'

theorem execUnique_error [Refusals] [Surql] {table : Table} {s s' : Records} {q : Query}
    {err : DbError} (h : Records.execUnique table s q (.error err) s') : s' = s := by
  unfold Records.execUnique at h
  split at h
  · obtain ⟨rid, o, _, _, ⟨_, _, _, hs⟩ | ⟨_, hw, _⟩⟩ := h
    · exact hs
    · exact hw.ne_error.elim
  · exact Records.exec_error h

theorem execUnique_reads [Refusals] [Surql] {table : Table} {s s' : Records} {q : Query} {r : Reply}
    (hq : q.sql.isRead = true) (h : Records.execUnique table s q r s') : s' = s := by
  unfold Records.execUnique at h
  split at h
  · rename_i hsql; rw [hsql] at hq; exact absurd hq (by simp [Sql.isRead])
  · exact recordStore.reads hq h

theorem execUnique_unmatched [Refusals] [Surql] {table : Table} {s s' : Records} {q : Query}
    {v : SurValue} (hq : q.sql.isConditional = true) (h : Records.execUnique table s q (.ok v) s')
    (hv : takeRows v = []) : s' = s := by
  unfold Records.execUnique at h
  split at h
  · rename_i hsql; rw [hsql] at hq; exact absurd hq (by simp [Sql.isConditional])
  · exact Records.exec_unmatched hq h hv

/-- The records of a table with unique indices. -/
def uniqueStore [Refusals] [Surql] (table : Table) : Database where
  State := Records
  exec := Records.execUnique table
  atomic _ := execUnique_error
  reads := execUnique_reads
  unmatched := execUnique_unmatched

/-! ## The text of a refusal -/

section

variable [Refusals]

omit [Refusals] in
theorem containsText_iff {text part : String} :
    containsText text part = true ↔ part.toList <:+: text.toList := decide_eq_true_iff

omit [Refusals] in
/-- The pieces of a text, one behind the other. -/
theorem toList_pieces (a b c d e f g : String) : (a ++ b ++ c ++ d ++ e ++ f ++ g).toList =
    a.toList ++ (b.toList ++ (c.toList ++ (d.toList ++ (e.toList ++ (f.toList ++ g.toList))))) := by
  simp only [String.toList_append, List.append_assoc]

/-- **A clash reads as a conflict** exactly when the index's name, the entry's text or the
other record's id does. -/
theorem clashError_conflict_iff {name : String} {entry : List SurValue} {rid : RecordId} :
    containsText (clashError name entry rid).message "already exists" = true ↔
      containsText name "already exists" = true ∨
      containsText (Refusals.entryText entry) "already exists" = true ∨
      containsText (Refusals.ridText rid) "already exists" = true := by
  have hindex : "Database index `".toList = "Database index ".toList ++ ['`'] := rfl
  have hname : "` already contains ".toList = '`' :: " already contains ".toList := rfl
  have hrid : ", with record `".toList = ',' :: (" with record ".toList ++ ['`']) := rfl
  have hmessage : (clashError name entry rid).message.toList =
      "Database index ".toList ++ '`' :: (name.toList ++ '`' :: ((" already contains ".toList ++
        (Refusals.entryText entry).toList) ++ ',' :: (" with record ".toList ++
          '`' :: ((Refusals.ridText rid).toList ++ "`".toList)))) := by
    refine (toList_pieces ..).trans ?_
    rw [hindex, hname, hrid]
    simp only [List.append_assoc, List.cons_append, List.nil_append]
  have hfront : ¬ "already exists".toList <:+: "Database index ".toList := by decide
  have hrecord : ¬ "already exists".toList <:+: " with record ".toList := by decide
  have hcontains : "already exists".toList <:+: " already contains ".toList ++
      (Refusals.entryText entry).toList ↔ "already exists".toList <:+:
      (Refusals.entryText entry).toList :=
    Lists.infix_append (by decide)
  have hlast : "already exists".toList <:+: (Refusals.ridText rid).toList ++ "`".toList ↔
      "already exists".toList <:+: (Refusals.ridText rid).toList := by
    have hquote : "`".toList = ['`'] := rfl
    rw [hquote, Lists.infix_split (by decide)]
    exact or_iff_left (by decide)
  rw [containsText_iff, containsText_iff, containsText_iff, containsText_iff]
  rw [hmessage, Lists.infix_split (by decide), Lists.infix_split (by decide),
    Lists.infix_split (by decide), Lists.infix_split (by decide), hcontains, hlast]
  simp only [hfront, hrecord, false_or]

end

/-! ## Runs of an upsert that ignores -/

theorem classifyError_message (err : DbError) : (classifyError err).message = err.message := by
  unfold classifyError
  split
  · rfl
  · split <;> rfl

theorem isConflict_classifyError (err : DbError) :
    isConflict (classifyError err) = containsText err.message "already exists" := by
  rw [isConflict, classifyError_message]

/-- The response of an upsert that ignored its row: an empty stream or a count of 0. -/
def ExecResponse.Ignored (resp : ExecResponse) : Prop :=
  resp.values = .stream [] ∨ resp.values = .count 0

/-- The action of an upsert is to ignore. -/
def Upsert.Ignores (op : Upsert) : Prop :=
  ∃ clause, op.clause = some clause ∧ clause.action = .ignore

section

variable [Sdk] {conn : Connection} {table : Table} {op : Upsert} {rid : RecordId} {content : Object}
variable {returning : Option (List Column)}

/-- The upsert gets as far as its `CREATE`. -/
structure Attempts (table : Table) (op : Upsert) (rid : RecordId) (content : Object)
    (returning : Option (List Column)) : Prop where
  built : ∃ clause row, upsertSource table op = .ok (clause, row) ∧
    buildRow "upsert" table op.insert.columns row = .ok (rid, content)
  returned : returningColumns "upsert" table op.insert.returning = .ok returning

/-- What an upsert that ignores makes of the reply to its `CREATE`. -/
def ignoreOutcome (returning : Option (List Column)) : Reply → Except Error ExecResponse
  | .ok value => finish returning (takeRows value)
  | .error err =>
      if isConflict (classifyError err) then
        .ok (if returning.isSome then .valueStream [] else .count 0)
      else .error (classifyError err)

variable {D : Database} {d d' : D.State} {out : Except Error ExecResponse}

/-- An upsert that returned anything has sent its `CREATE`. -/
theorem attempts_of_ok {resp : ExecResponse}
    (h : (execUpsert conn table op).Runs D.Handle d d' (.ok resp)) :
    ∃ rid content returning, Attempts table op rid content returning := by
  unfold execUpsert at h
  obtain ⟨⟨clause, row⟩, hsource, h₁⟩ := runs_lift_bind_ok.mp h
  obtain ⟨⟨rid, content⟩, hbuild, h₂⟩ := runs_lift_bind_ok.mp h₁
  obtain ⟨returning, hret, _⟩ := runs_lift_bind_ok.mp h₂
  exact ⟨rid, content, returning, ⟨clause, row, hsource, hbuild⟩, hret⟩

/-- **A run that gets to the `CREATE`** is that statement and what is made of its reply. -/
theorem runs_ignore (hop : op.Ignores) (ha : Attempts table op rid content returning) :
    (execUpsert conn table op).Runs D.Handle d d' out ↔
      ∃ r, D.exec d (createQuery rid content returning.isSome) r d' ∧ out =
      ignoreOutcome returning r := by
  obtain ⟨⟨clause, row, hsource, hbuild⟩, hret⟩ := ha
  obtain ⟨clause', hclause', haction⟩ := hop
  have hclause := (upsertSource_ok hsource).1
  rw [hclause'] at hclause
  injection hclause with hclause; subst hclause
  unfold execUpsert
  simp only [hsource, hbuild, hret, lift_ok_bind, haction]
  rw [runs_bind]
  simp only [runs_attempt, Database.runs_runQuery]
  constructor
  · intro h
    rcases h with ⟨e, ⟨_, _, he⟩, _⟩ | ⟨result, d₁, ⟨result', ⟨r, hr, hout⟩, hres⟩, hrest⟩
    · exact absurd he (by simp)
    · injection hres with hres; subst hres hout
      refine ⟨r, ?_⟩
      cases r with
      | ok value =>
          obtain ⟨rfl, ho⟩ := runs_lift.mp hrest
          exact ⟨hr, ho⟩
      | error err =>
          dsimp only [Except.mapError] at hrest
          rw [ignoreOutcome]
          split at hrest <;> rename_i hc
          · obtain ⟨rfl, ho⟩ := runs_done.mp hrest
            rw [if_pos hc]
            exact ⟨hr, ho⟩
          · obtain ⟨rfl, ho⟩ := runs_fail.mp hrest
            rw [if_neg hc]
            exact ⟨hr, ho⟩
  · intro h
    obtain ⟨r, hr, rfl⟩ := h
    refine .inr ⟨_, d', ⟨_, ⟨r, hr, rfl⟩, rfl⟩, ?_⟩
    cases r with
    | ok value => exact runs_lift.mpr ⟨rfl, rfl⟩
    | error err =>
        dsimp only [Except.mapError]
        rw [ignoreOutcome]
        split
        · exact ⟨rfl, rfl⟩
        · exact ⟨rfl, rfl⟩

/-- A row that was created is not reported as ignored. -/
theorem finish_not_ignored {row : SurValue} {resp : ExecResponse}
    (h : finish returning [row] = .ok resp) : ¬ resp.Ignored := by
  unfold finish at h
  split at h
  · obtain ⟨records, hrec, hok⟩ := Results.bind_eq_ok h
    injection hok with hok; subst hok
    rw [rowsToRecords] at hrec
    obtain ⟨fields, _, h₁⟩ := Results.bind_eq_ok hrec
    obtain ⟨rest, _, h₂⟩ := Results.bind_eq_ok h₁
    injection h₂ with h₂; subst h₂
    rintro (h | h)
    · injection h with h; exact absurd h (by simp)
    · exact absurd h (by simp [ExecResponse.valueStream])
  · injection h with h; subst h
    rintro (h | h)
    · exact absurd h (by simp [ExecResponse.count])
    · injection h with h; exact absurd h (by simp)

/-! ## What is dropped -/

variable [Refusals] [Surql] {s s' : Records}

/-- A response to an upsert that ignores tells what became of the row: ignored, the record
was there; else it is there now. -/
def Told (rid : RecordId) (content : Object) (s s' : Records) (resp : ExecResponse) : Prop :=
  (resp.Ignored ∧ AssocMap.lookup rid s ≠ none ∧ s' = s) ∨
    (¬ resp.Ignored ∧ AssocMap.lookup rid s = none ∧ s' = AssocMap.insert rid content s)

/-- No response hides that the row was dropped. -/
def NeverDropped (conn : Connection) (table : Table) (op : Upsert) (s : Records) : Prop :=
  ∀ s' resp, (execUpsert conn table op).Runs (uniqueStore table).Handle s s' (.ok resp) →
    ∃ rid content returning, Attempts table op rid content returning ∧ Told rid content s s' resp

/-- Nothing that can go wrong with the record's `CREATE`, but the record being there,
reads like it. -/
structure Distinct (table : Table) (s : Records) (rec : RecordId × Object) : Prop where
  clash : ∀ index other, Clash table s rec index other →
    containsText index.name "already exists" = false ∧
    containsText (Refusals.entryText
      (indexEntry (defineIndexStatement table index false).indexFields rec)) "already exists" =
      false ∧
    containsText (Refusals.ridText other.1) "already exists" = false
  unrelated : ∀ err, Refusals.unrelated rec err → containsText err.message "already exists" = false

omit [Sdk] [Surql] in
/-- What a refusal reads like. -/
theorem distinct_iff {rec : RecordId × Object} (hfree : AssocMap.lookup rec.1 s = none) :
    Distinct table s rec ↔ ∀ err, Refused table s rec err →
    containsText err.message "already exists" = false := by
  constructor
  · intro h err hr
    cases hr with
    | present hthere => exact absurd hfree hthere
    | clash hc =>
        obtain ⟨hname, hentry, hrid⟩ := h.clash _ _ hc
        rw [← Bool.not_eq_true, clashError_conflict_iff, hname, hentry, hrid]
        simp
    | unrelated hu => exact h.unrelated err hu
  · intro h
    refine ⟨fun index other hc => ?_, fun err hu => h err (.unrelated hu)⟩
    have hno := h _ (.clash hc)
    rw [← Bool.not_eq_true, clashError_conflict_iff, not_or, not_or] at hno
    simpa using hno

omit [Sdk] in
/-- The `CREATE` of an upsert on a table with unique indices. -/
theorem execUnique_create {returnAfter : Bool} {r : Reply} :
    (uniqueStore table).exec s (createQuery rid content returnAfter) r s' ↔
      (∃ err, Refused table s (rid, content) err ∧ r = .error err ∧ s' = s) ∨
        AssocMap.lookup rid s = none ∧ Wrote s rid content r s' ∧
        ∀ index other, Clash table s (rid, content) index other →
          .none ∈ indexEntry (defineIndexStatement table index false).indexFields
          (rid, content) := by
  show Creates table s (createQuery rid content returnAfter) r s' ↔ _
  constructor
  · intro h
    obtain ⟨rid', o, hrid, ho, h⟩ := h
    injection hrid with hrid; injection ho with ho; subst hrid ho
    exact h
  · intro h
    exact ⟨rid, content, rfl, rfl, h⟩

/-- **When no write is dropped in silence**: an upsert that ignores tells what became of its
row exactly when, for a record that is not there, no other refusal of the `CREATE` reads
like a duplicate. -/
theorem ignore_iff (hop : op.Ignores) : NeverDropped conn table op s ↔
    ∀ rid content returning, Attempts table op rid content returning →
      AssocMap.lookup rid s = none → Distinct table s (rid, content) := by
  constructor
  · intro h rid content returning ha hfree
    rw [distinct_iff hfree]
    intro err hr
    by_contra hc
    rw [Bool.not_eq_false] at hc
    -- the refusal is taken for the record being there
    have hrun : (execUpsert conn table op).Runs (uniqueStore table).Handle s s
        (ignoreOutcome returning (.error err)) :=
      (runs_ignore hop ha).mpr ⟨_, execUnique_create.mpr (.inl ⟨err, hr, rfl, rfl⟩), rfl⟩
    rw [ignoreOutcome, if_pos (by rwa [isConflict_classifyError])] at hrun
    obtain ⟨rid', content', returning', ha', htold⟩ := h _ _ hrun
    obtain ⟨⟨clause, row, hsource, hbuild⟩, _⟩ := ha
    obtain ⟨⟨clause', row', hsource', hbuild'⟩, _⟩ := ha'
    rw [hsource] at hsource'
    injection hsource' with hsource'; injection hsource' with _ hrow; subst hrow
    rw [hbuild] at hbuild'
    injection hbuild' with hbuild'; injection hbuild' with hrid _; subst hrid
    rcases htold with ⟨_, hthere, _⟩ | ⟨hnot, _⟩
    · exact hthere hfree
    · refine hnot ?_
      cases returning with
      | some _ => exact .inl rfl
      | none => exact .inr rfl
  · intro h s' resp hrun
    obtain ⟨rid, content, returning, ha⟩ := attempts_of_ok hrun
    refine ⟨rid, content, returning, ha, ?_⟩
    obtain ⟨r, hexec, hout⟩ := (runs_ignore hop ha).mp hrun
    rcases execUnique_create.mp hexec with ⟨err, hr, rfl, rfl⟩ | ⟨hfree, ⟨rfl, rfl⟩, _⟩
    · rw [ignoreOutcome, isConflict_classifyError] at hout
      split at hout <;> rename_i hc
      · have hthere : AssocMap.lookup rid s' ≠ none := fun hfree =>
          absurd hc (by rw [(distinct_iff hfree).mp (h _ _ _ ha hfree) err hr]; simp)
        refine .inl ⟨?_, hthere, rfl⟩
        injection hout with hout; subst hout
        cases returning with
        | some _ => exact .inl rfl
        | none => exact .inr rfl
      · exact absurd hout (by simp)
    · exact .inr ⟨finish_not_ignored hout.symm, hfree, rfl⟩

end

/-! ## A dropped row -/

/-- Accounts, one for each name. -/
def accounts : Table where
  id := 0
  name := "accounts"
  columns := [⟨⟨0, 0⟩, "number", .i64, .integer 8⟩, ⟨⟨0, 1⟩, "owner", .string, .text⟩]
  primaryKey := [⟨0, 0⟩]
  indices := [⟨"accounts_owner", [⟨0, 1⟩], true, false⟩]

/-- Insert account 2 of an owner, or ignore it. -/
def openAccount (owner : String) : Upsert :=
  ⟨⟨[⟨0, 0⟩, ⟨0, 1⟩], some [[some (.i64 2), some (.string owner)]], none⟩,
    some ⟨some [⟨0, 0⟩], .ignore, [], []⟩⟩

/-- Account 1, of an owner. -/
def firstAccount (owner : String) : Records :=
  [(⟨"accounts", .number 1⟩, [("owner", .string owner)])]

theorem openAccount_ignores (owner : String) : (openAccount owner).Ignores := ⟨_, rfl, rfl⟩

namespace Plain

/-- A value in a message: a string in quotes. -/
def valueText : SurValue → String
  | .string v => "'" ++ v ++ "'"
  | .number (.int v) => toString v.toInt
  | _ => "NONE"

end Plain

/-- Messages as SurrealDB words them, and no other failure. -/
@[reducible] def plainRefusals : Refusals where
  entryText entry := join ", " (entry.map Plain.valueText)
  ridText rid := rid.table ++ ":" ++ Plain.valueText rid.key.value
  unrelated _ _ := False

/-- The attempt to open an account, whoever owns it. -/
theorem openAccount_attempts {owner : String} {rid : RecordId} {content : Object}
    {returning : Option (List Column)}
    (h : @Attempts plain accounts (openAccount owner) rid content returning) :
    rid = ⟨"accounts", .number 2⟩ ∧ content = [("owner", .string owner)] := by
  let := plain
  obtain ⟨⟨clause, row, hsource, hbuild⟩, _⟩ := h
  injection hsource with hsource; injection hsource with _ hrow; subst hrow
  injection hbuild with hbuild; injection hbuild with hrid hcontent
  exact ⟨hrid.symm, hcontent.symm⟩

/-- An owner whose name holds the text: the account is dropped, and the response says that
it was there. -/
theorem account_dropped : let := plain
    let := plainSurql
    let := plainRefusals
    let s := firstAccount "who already exists"
    AssocMap.lookup ⟨"accounts", .number 2⟩ s = none ∧
      (execUpsert .new accounts (openAccount "who already exists")).Runs
      (uniqueStore accounts).Handle s s
        (.ok (.count 0)) ∧
      ¬ NeverDropped .new accounts (openAccount "who already exists") s := by
  let := plain
  let := plainSurql
  let := plainRefusals
  let s := firstAccount "who already exists"
  have hclash : Clash accounts s
      (⟨"accounts", .number 2⟩, [("owner", .string "who already exists")])
      ⟨"accounts_owner", [⟨0, 1⟩], true, false⟩
      (⟨"accounts", .number 1⟩, [("owner", .string "who already exists")]) :=
    ⟨List.mem_cons_self .., rfl, rfl, List.mem_cons_self .., rfl, rfl⟩
  have hrun : (execUpsert .new accounts (openAccount "who already exists")).Runs
      (uniqueStore accounts).Handle s s (.ok (.count 0)) := by
    have hattempt : Attempts accounts (openAccount "who already exists") ⟨"accounts", .number 2⟩
        [("owner", .string "who already exists")] none := ⟨⟨_, _, rfl, rfl⟩, rfl⟩
    refine (runs_ignore (openAccount_ignores _) hattempt).mpr
      ⟨_, execUnique_create.mpr (.inl ⟨_, .clash hclash, rfl, rfl⟩), ?_⟩
    rw [ignoreOutcome, if_pos]
    · rfl
    · rw [isConflict_classifyError, clashError_conflict_iff]
      exact .inr (.inl (by decide))
  refine ⟨rfl, hrun, fun h => ?_⟩
  obtain ⟨rid, content, returning, ha, htold⟩ := h _ _ hrun
  obtain ⟨rfl, rfl⟩ := openAccount_attempts ha
  rcases htold with ⟨_, hthere, _⟩ | ⟨hnot, _⟩
  · exact hthere rfl
  · exact hnot (.inr rfl)

/-- An owner with another name: the clash is an error. -/
theorem account_refused : let := plain
    let := plainSurql
    let := plainRefusals
    NeverDropped .new accounts (openAccount "Ada") (firstAccount "Ada") := by
  let := plain
  let := plainSurql
  let := plainRefusals
  refine (ignore_iff (openAccount_ignores "Ada")).mpr fun rid content returning ha _ => ?_
  obtain ⟨rfl, rfl⟩ := openAccount_attempts ha
  refine ⟨fun index other hc => ?_, fun _ h => h.elim⟩
  have hindex : index = ⟨"accounts_owner", [⟨0, 1⟩], true, false⟩ := by
    simpa [accounts] using hc.defined
  have hother : other = (⟨"accounts", .number 1⟩, [("owner", .string "Ada")]) := by
    simpa [firstAccount] using hc.stored
  subst hindex hother
  exact ⟨by decide, by decide, by decide⟩

end ToastySurreal
