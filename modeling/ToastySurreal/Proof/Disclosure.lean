import ToastySurreal.Plain
import ToastySurreal.Proof.Refusals

/-!
# Errors do not tell values

`Discreet` programs fail, where the SDK answers every call, only with errors that the shape of
the operation explains. Each operation is one, part by part: it builds a query, sends it and
decodes what comes back. So the errors an instance can end in are already those of any other
instance of its shape, whatever values either was given and whatever is stored.
-/

namespace ToastySurreal

open Results Prog

variable [Sdk] {conn : Connection} {frame : Frame} {table : Table}

/-- The SDK answers without an error. -/
def Answered (r : Reply) : Prop := ∃ v, r = .ok v

/-- Where the SDK answers, the shape explains the errors of the program. -/
abbrev Discreet {α : Type} (frame : Frame) (p : Action α) : Prop :=
  p.Yields Answered (Errs (Explained frame))

theorem discreet_done {α : Type} (a : α) : Discreet frame (.done a) := .ok a

theorem discreet_fail {α : Type} {e : Error} (h : Explained frame e) :
    Discreet frame (.fail e : Action α) := .error h

/-- A query that is answered, and what is done with the answer. -/
theorem discreet_query {α : Type} {q : Query} {f : SurValue → Action α}
    (h : ∀ v, Discreet frame (f v)) : Discreet frame (runQuery conn q >>= f) := by
  rintro _ ⟨v, rfl⟩
  exact h v

theorem discreet_attempt {α : Type} {q : Query} {f : Except Error SurValue → Action α}
    (h : ∀ v, Discreet frame (f (.ok v))) : Discreet frame ((runQuery conn q).attempt >>= f) := by
  rintro _ ⟨v, rfl⟩
  exact h v

/-! ## Reading -/

omit [Sdk] in
theorem typedBy_columns (htable : frame.table = some table) {ids : List ColumnId} :
    ∀ c ∈ ids.map table.column, TypedBy frame c.ty := by
  intro c hc
  obtain ⟨cid, _, rfl⟩ := List.mem_map.mp hc
  exact ⟨table, cid, htable, .self⟩

theorem keyBinds_errs : ∀ (keys : List Value) (i : Nat),
    Errs (Explained frame) (keyBinds table keys i)
  | [], _ => .ok _
  | key :: keys, i => (recordId_errs table key).bind fun _ _ =>
      (keyBinds_errs keys (i + 1)).bind fun _ _ => .ok _

/-- Read the records of a response and return them. -/
theorem discreet_records {select : List Column} (h : ∀ c ∈ select, TypedBy frame c.ty)
    (rows : List SurValue) : Discreet frame (do
      let records ← (Prog.lift (rowsToRecords select rows) : Action (List Value))
      .done (ExecResponse.valueStream records)) :=
  Yields.lift_bind (rowsToRecords_errs h rows) fun _ _ => discreet_done _

theorem discreet_getByKey {op : GetByKey} (htable : frame.table = some table) :
    Discreet frame (execGetByKey conn table op) := by
  unfold execGetByKey
  split
  · exact discreet_done _
  · refine Yields.lift_bind ((keyBinds_errs op.keys 0).bind fun _ _ => .ok _) fun q _ => ?_
    exact discreet_query fun v => discreet_records (typedBy_columns htable) _

theorem keysetQuery_errs (input : KeysetSelect) : Errs (Explained frame) (keysetQuery input) := by
  refine Errs.bind ?_ fun _ _ => .ok _
  unfold resumePart
  split
  · exact (toSurreal_errs _).bind fun _ _ => .ok _
  · exact .ok _

theorem keysetCursor_errs {sort : Option Column} (h : ∀ c ∈ sort, TypedBy frame c.ty)
    (rows : List SurValue) (limit : Option Pagination) :
    Errs (Explained frame) (keysetCursor rows limit sort) := by
  unfold keysetCursor
  split
  · split
    · exact .ok _
    · split
      · split
        -- the sort key is decoded as the last key column
        · exact (fromSurreal_errs _ (h _ rfl)).bind fun _ _ => .ok _
        · exact .ok _
      · exact .ok _
  · exact .ok _

theorem discreet_keyset {input : KeysetSelect} (hselect : ∀ c ∈ input.select, TypedBy frame c.ty)
    (hsort : ∀ c ∈ input.sortColumn, TypedBy frame c.ty) : Discreet frame
    (runKeysetSelect conn input) := by
  refine Yields.lift_bind (keysetQuery_errs input) fun q _ => ?_
  refine discreet_query fun v => ?_
  refine Yields.lift_bind (keysetCursor_errs hsort _ _) fun next _ => ?_
  exact Yields.lift_bind (rowsToRecords_errs hselect _) fun records _ => discreet_done _

omit [Sdk] in
theorem typedBy_sortColumn (htable : frame.table = some table) :
    ∀ c ∈ sortColumn table, TypedBy frame c.ty := by
  intro c hc
  obtain ⟨cid, _, rfl⟩ := Option.map_eq_some_iff.mp hc
  exact ⟨table, cid, htable, .self⟩

theorem queryPkPredicate_errs (op : QueryPk) :
    Errs (Explained frame) (queryPkPredicate table op) := by
  refine (renderWithStorage_errs op.pkFilter .empty none).bind fun _ _ => ?_
  dsimp only
  split
  · exact .ok _
  · exact (renderWithStorage_errs _ _ none).bind fun _ _ => .ok _

theorem discreet_queryPk {op : QueryPk} (htable : frame.table = some table) :
    Discreet frame (execQueryPk conn table op) :=
  Yields.lift_bind (queryPkPredicate_errs op) fun _ _ =>
    discreet_keyset (typedBy_columns htable) (typedBy_sortColumn htable)

theorem scanPredicate_errs : ∀ filter :
    Option Expr, Errs (Explained frame) (scanPredicate table filter)
  | none => .ok _
  | some filter => (renderWithStorage_errs filter .empty none).bind fun _ _ => .ok _

theorem discreet_scan {op : Scan} (htable : frame.table = some table) :
    Discreet frame (execScan conn table op) := by
  refine Yields.lift_bind (scanPredicate_errs op.filter) fun _ _ => ?_
  refine discreet_keyset (fun c hc => ?_) (typedBy_sortColumn htable)
  obtain ⟨i, _, rfl⟩ := List.mem_map.mp hc
  exact ⟨table, _, htable, .self⟩

theorem discreet_findPkByIndex {op : FindPkByIndex} (htable : frame.table = some table) :
    Discreet frame (execFindPkByIndex conn table op) := by
  refine Yields.lift_bind (renderWithStorage_errs op.filter .empty none) fun _ _ => ?_
  exact discreet_query fun v => discreet_records (typedBy_columns htable) _

/-! ## Writing -/

omit [Sdk] in
/-- The columns that are returned are columns of the table. -/
theorem typedBy_returning {op : String} {returning : Option Returning} {select : List Column}
    (htable : frame.table = some table)
    (h : returningColumns op table returning = .ok (some select)) :
    ∀ c ∈ select, TypedBy frame c.ty := by
  have hitems : ∀ {items : List (Option ColumnId)} {cols : List Column},
      returningColumns.columns op table items = .ok cols → ∀ c ∈ cols, TypedBy frame c.ty := by
    intro items
    induction items with
    | nil =>
        intro cols h c hc
        injection h with h
        rw [← h] at hc
        exact absurd hc List.not_mem_nil
    | cons item items ih =>
        intro cols h c hc
        cases item with
        | none => exact absurd h (by simp [returningColumns.columns])
        | some cid =>
            obtain ⟨rest, hrest, hcols⟩ := bind_eq_ok h
            injection hcols with hcols
            rw [← hcols] at hc
            rcases List.mem_cons.mp hc with rfl | hc
            · exact ⟨table, cid, htable, .self⟩
            · exact ih hrest c hc
  cases returning with
  | none => exact absurd h (by simp [returningColumns])
  | some returning =>
      cases returning with
      | notProjection | notRecord => exact absurd h (by simp [returningColumns])
      | record items =>
          obtain ⟨cols, hcols, hsome⟩ := bind_eq_ok h
          injection hsome with hsome; injection hsome with hsome
          exact hsome ▸ hitems hcols

theorem discreet_insertRows {columns : List ColumnId} {wantReturn : Bool}
    {returning : Option (List Column)}
    (hreturning : ∀ select, returning = some select → ∀ c ∈ select, TypedBy frame c.ty)
    (hcolumns : columns.length = frame.columns) : ∀ (rows : List Row) (count : Nat)
    (records : List Value), (∀ row ∈ rows, row.map Option.isSome ∈ frame.rows) →
    Discreet frame (insertRows conn table columns wantReturn returning rows count records)
  | [], _, _, _ => discreet_done _
  | row :: rows, count, records, hrows => by
      rw [insertRows]
      have hbuild : Errs (Explained frame) (buildRow "insert" table columns row) :=
        buildRow_errs (by decide) hcolumns (hrows row List.mem_cons_self)
      refine Yields.lift_bind hbuild fun built _ => ?_
      refine discreet_query fun v => ?_
      refine Yields.lift_bind ?_ fun decoded _ => ?_
      · cases returning with
        | none => exact .ok _
        | some select => exact rowsToRecords_errs (hreturning select rfl) _
      · exact discreet_insertRows hreturning hcolumns rows _ _ fun r hr =>
          hrows r (List.mem_cons_of_mem row hr)

theorem discreet_insert {insert : Insert} {ret : Bool} (htable : frame.table = some table)
    (hcolumns : insert.columns.length = frame.columns) (hrows : insert.entries = frame.rows) :
    Discreet frame (execInsert conn table insert ret) := by
  unfold execInsert
  split
  · exact discreet_fail (.check .insertValues trivial)
  · rename_i rows hvalues
    rw [Insert.entries, hvalues] at hrows
    refine Yields.lift_bind (returningColumns_errs (by decide) _) fun returning hret => ?_
    -- every row of the source is one of the frame
    refine Yields.bind
      (discreet_insertRows (fun select hselect => ?_) hcolumns rows 0 [] fun row hrow => ?_)
      (fun _ _ => discreet_done _) fun e he => .error (he e rfl)
    · exact typedBy_returning htable (hselect ▸ hret)
    · rw [← hrows]
      exact List.mem_map_of_mem hrow

theorem singleKey_errs {op : String} (hop : op ∈ operationNames) {keys : List Value}
    (hkeys : keys.length = frame.keys) : Errs (Explained frame) (singleKey op keys) := by
  unfold singleKey
  split
  · exact .ok _
  · exact .error (.check (.keyCount op _) ⟨hop, hkeys⟩)

theorem updateQuery_errs (op : UpdateByKey) (key : Value) :
    Errs (Explained frame) (updateQuery table op key) := by
  refine (renderAssignments_errs op.assignments .empty).bind fun _ _ => ?_
  refine (renderPredicates_errs _ _).bind fun _ _ => ?_
  exact (recordId_errs table key).bind fun _ _ => .ok _

theorem discreet_updateByKey {op : UpdateByKey} (htable : frame.table = some table)
    (hkeys : op.keys.length = frame.keys) : Discreet frame (execUpdateByKey conn table op) := by
  refine Yields.lift_bind (singleKey_errs (by decide) hkeys) fun key _ => ?_
  refine Yields.lift_bind (updateQuery_errs op key) fun q _ => ?_
  refine discreet_query fun v => ?_
  dsimp only
  split
  · exact discreet_fail
      (.check (.conditionFailed "update") (show "update" ∈ operationNames by decide))
  · split
    · exact discreet_records (typedBy_columns htable) _
    · exact discreet_done _

theorem deleteQuery_errs (op : DeleteByKey) (key : Value) :
    Errs (Explained frame) (deleteQuery table op key) := by
  refine (renderPredicates_errs _ .empty).bind fun _ _ => ?_
  exact (recordId_errs table key).bind fun _ _ => .ok _

theorem discreet_deleteByKey {op : DeleteByKey} (hkeys : op.keys.length = frame.keys) :
    Discreet frame (execDeleteByKey conn table op) := by
  refine Yields.lift_bind (singleKey_errs (by decide) hkeys) fun key _ => ?_
  refine Yields.lift_bind (deleteQuery_errs op key) fun q _ => ?_
  refine discreet_query fun v => ?_
  dsimp only
  split
  · exact discreet_fail
      (.check (.conditionFailed "delete") (show "delete" ∈ operationNames by decide))
  · exact discreet_done _

theorem upsertSource_errs (op : Upsert) : Errs (Explained frame) (upsertSource table op) := by
  unfold upsertSource
  split
  · exact .error (.check .upsertClause trivial)
  · split
    · exact .error (.check .upsertTarget trivial)
    · split
      · exact .error (.check .upsertKeyOnly trivial)
      · split
        · exact .error (.check .upsertValues trivial)
        · exact .ok _
        · exact .error (.check .upsertOneRow trivial)

theorem upsertQuery_errs {insert : Insert} {clause : UpsertClause} {row : Row} {rid : RecordId}
    {content : Object} {returning : Bool} (hcolumns : insert.columns.length = frame.columns)
    (hrow : row.map Option.isSome ∈ frame.rows) :
    Errs (Explained frame) (upsertQuery table insert clause row rid content returning) := by
  refine (createOnlySets_errs hrow insert.columns 0 .empty (by omega)).bind fun _ _ => ?_
  refine (sharedSets_errs clause.shared _).bind fun _ _ => ?_
  dsimp only
  split <;> exact .ok _

theorem finish_errs {returning : Option (List Column)}
    (h : ∀ select, returning = some select → ∀ c ∈ select, TypedBy frame c.ty)
    (rows : List SurValue) : Errs (Explained frame) (finish returning rows) := by
  cases returning with
  | none => exact .ok _
  | some select => exact (rowsToRecords_errs (h select rfl) rows).bind fun _ _ => .ok _

theorem discreet_upsert {op : Upsert} (htable : frame.table = some table)
    (hcolumns : op.insert.columns.length = frame.columns) (hrows : op.insert.entries = frame.rows) :
    Discreet frame (execUpsert conn table op) := by
  refine Yields.lift_bind (upsertSource_errs op) fun source hsource => ?_
  obtain ⟨clause, row⟩ := source
  -- the source has one row, and the frame knows it
  obtain ⟨-, hvalues⟩ := upsertSource_ok hsource
  have hrow : row.map Option.isSome ∈ frame.rows := by
    rw [← hrows, Insert.entries, hvalues]
    exact List.mem_map_of_mem List.mem_cons_self
  refine Yields.lift_bind (buildRow_errs (by decide) hcolumns hrow) fun built _ => ?_
  obtain ⟨rid, content⟩ := built
  refine Yields.lift_bind (returningColumns_errs (by decide) _) fun returning hret => ?_
  have hselect : ∀ select, returning = some select → ∀ c ∈ select, TypedBy frame c.ty :=
    fun select h => typedBy_returning htable (h ▸ hret)
  split
  · refine Yields.lift_bind (upsertQuery_errs hcolumns hrow) fun q _ => ?_
    exact discreet_query fun v => Yields.lift (finish_errs hselect _)
  · exact discreet_attempt fun v => Yields.lift (finish_errs hselect _)

/-! ## Operations -/

/-- The result that an operation leaves beside the connection. -/
def Settled (frame : Frame) (out : Except Error (Outcome ExecResponse)) : Prop :=
  ∀ conn e, out = .ok (conn, .error e) → Explained frame e

theorem settled_ok (resp : ExecResponse) : Settled frame (.ok (conn, .ok resp)) := by
  intro conn₁ e h
  injection h with h; injection h with _ h
  exact absurd h (by simp)

theorem settled_error {e : Error} (h : Explained frame e) :
    Settled frame (.ok (conn, .error e)) := by
  intro conn₁ e' heq
  injection heq with heq; injection heq with _ heq; injection heq with heq
  exact heq ▸ h

theorem keep_settled {p : Action ExecResponse} (h : Discreet frame p) :
    (conn.keep p).Yields Answered (Settled frame) := by
  refine Yields.bind h.attempt (fun result hresult => ?_) fun e he => ?_
  · obtain ⟨out, hout, herrs⟩ := hresult
    injection hout with hout; subst hout
    cases result with
    | ok resp => exact settled_ok resp
    | error e => exact settled_error (herrs e rfl)
  · obtain ⟨out, hout, _⟩ := he
    exact absurd hout (by simp)

theorem discreet_guarded {operation : String} {p : Action ExecResponse}
    (hop : operation ∈ operationNames)
    (h : Discreet frame p) : Discreet frame (guarded conn operation p) := by
  refine Yields.lift_bind ?_ fun _ _ => h
  unfold ensureWritable
  split
  · exact .error (.check (.readOnly operation) hop)
  · exact .ok _

theorem finishTransaction_settled (call : Call) :
    (finishTransaction call).Yields Answered (Settled frame) := by
  rintro _ ⟨v, rfl⟩
  exact settled_ok _

theorem execTransaction_settled (op : Transaction) :
    (execTransaction conn op).Yields Answered (Settled (Operation.transaction op).frame) := by
  cases op with
  | start isolation readOnly mode =>
      cases isolation with
      | true => cases mode <;> exact settled_error (.check .isolation trivial)
      | false =>
          cases mode with
          | other debug => exact settled_error (.check (.otherMode debug) rfl)
          | default =>
              rw [execTransaction, if_neg Bool.false_ne_true]
              split
              · exact settled_error (.check .activeTransaction trivial)
              · rintro _ ⟨v, rfl⟩
                exact settled_ok _
  | commit =>
      rw [execTransaction]
      split
      · exact finishTransaction_settled _
      · exact settled_error (.check .commitIdle trivial)
  | rollback =>
      rw [execTransaction]
      split
      · exact finishTransaction_settled _
      · exact settled_error (.check .rollbackIdle trivial)
  | savepoint | releaseSavepoint | rollbackToSavepoint =>
      exact settled_error (.check .savepoints trivial)

/-- **The shape of an operation explains its errors.** -/
theorem exec_settled : ∀ op : Operation, (exec conn op).Yields Answered (Settled op.frame)
  | .querySql (.ok _) _ | .insert (some _) _ =>
      keep_settled (discreet_guarded (by decide) (discreet_insert rfl rfl rfl))
  | .querySql (.error name) _ => keep_settled (discreet_fail (.check (.otherStatement name) rfl))
  | .insert none _ =>
      keep_settled (discreet_guarded (by decide) (discreet_fail (.check .noInsert trivial)))
  | .getByKey _ _ => keep_settled (discreet_getByKey rfl)
  | .queryPk _ _ => keep_settled (discreet_queryPk rfl)
  | .findPkByIndex _ _ => keep_settled (discreet_findPkByIndex rfl)
  | .scan _ _ => keep_settled (discreet_scan rfl)
  | .updateByKey _ _ => keep_settled (discreet_guarded (by decide) (discreet_updateByKey rfl rfl))
  | .deleteByKey _ _ => keep_settled (discreet_guarded (by decide) (discreet_deleteByKey rfl))
  | .upsert _ _ => keep_settled (discreet_guarded (by decide) (discreet_upsert rfl rfl rfl))
  | .rawSql => keep_settled (discreet_fail (.check .rawSql trivial))
  | .transaction op => execTransaction_settled op

omit [Sdk] in
theorem Insert.Alike.entries {insert insert' : Insert} (h : insert.Alike insert') :
    insert.entries = insert'.entries := by
  have hrows : ∀ {rows rows' : List Row},
      List.Forall₂ (fun row row' => rowShape row = rowShape row') rows rows' →
      rows.map (fun row => row.map Option.isSome) = rows'.map fun row => row.map Option.isSome := by
    intro rows rows' hall
    induction hall with
    | nil => rfl
    | cons hrow _ ih =>
        have hsome := congrArg (List.map Option.isSome) hrow
        simp only [rowShape, List.map_map, Function.comp_def, Option.isSome_map] at hsome
        rw [List.map_cons, List.map_cons, hsome, ih]
  obtain ⟨columns, values, returning⟩ := insert
  obtain ⟨columns', values', returning'⟩ := insert'
  cases h.values with
  | none => rfl
  | some hall => exact hrows hall

omit [Sdk] in
/-- Instances of one shape have one frame. -/
theorem Operation.Alike.sameFrame {op op' : Operation} (h : op.Alike op') :
    op.frame = op'.frame := by
  cases h with
  | querySql table ret h => rw [Operation.frame, Operation.frame, h.entries, h.columns]
  | insert table ret h => rw [Operation.frame, Operation.frame, h.entries, h.columns]
  | upsert table h => rw [Operation.frame, Operation.frame, h.insert.entries, h.insert.columns]
  | getByKey table h => rw [Operation.frame, Operation.frame, h.keys]
  | updateByKey table h => rw [Operation.frame, Operation.frame, h.keys]
  | deleteByKey table h => rw [Operation.frame, Operation.frame, h.keys]
  | queryPk table h => rfl
  | findPkByIndex table h => rfl
  | scan table h => rfl

/-- **Errors do not tell values**: what the driver refuses an instance with, where the SDK answers
every call, any instance of the same shape explains. -/
theorem errors_by_shape {op op' : Operation} (hshape : op.frame = op'.frame) {log : CallLog}
    {conn₁ : Connection} {e : Error}
    (hrun : (exec conn op').Runs Replies [] log (.ok (conn₁, .error e)))
    (hreplies : ∀ c ∈ log, Answered c.2) : Explained op.frame e := by
  rw [hshape]
  exact (exec_settled op').of_noted hrun hreplies conn₁ e rfl

/-- A table of JSON documents. -/
def documents : Table where
  id := 0
  name := "documents"
  columns := [⟨⟨0, 0⟩, "id", .u64, .unsignedInteger 8⟩, ⟨⟨0, 1⟩, "body", .string, .json⟩]
  primaryKey := [⟨0, 0⟩]
  indices := []

/-- Overwrite a document. -/
def revision (id : UInt64) (body : String) : Operation :=
  .updateByKey documents
    { keys := [.u64 id]
      assignments := [(⟨0, 1⟩, .set (.string body))]
      filter := none
      condition := none
      returning := none }

omit [Sdk] in
theorem revisions_alike (id id' : UInt64) (body body' : String) :
    (revision id body).Alike (revision id' body') :=
  .updateByKey documents
    { keys := rfl
      assignments := .cons ⟨rfl, .set rfl⟩ .nil
      filter := .none
      condition := .none
      returning := rfl }

omit [Sdk] in
/-- What one revision is refused with, the shape of another explains. -/
theorem brace_refused :
    @Explained plain (revision 9223372036854775808 "0").frame (jsonSyntaxError 1 1) :=
  @errors_by_shape plain .new (revision 9223372036854775808 "0") (revision 1 "\x7b")
    (revisions_alike _ _ _ _).sameFrame [] .new _ ⟨rfl, rfl⟩ (by simp)

/-! ## Which check comes first -/

/-- The same message, but for the place of a syntax error in a JSON text. -/
def SameMessage (e e' : Error) : Prop :=
  e = e' ∨ ∃ line column line' column',
    e = jsonSyntaxError line column ∧ e' = jsonSyntaxError line' column'

/-- Instances of one shape that are refused are refused with the same message. -/
def RefusedAlike : Prop :=
  ∀ (op op' : Operation), op.Alike op' → ∀ (conn : Connection) (log log' : CallLog)
    (conn₁ conn₁' : Connection) (e e' : Error),
    (exec conn op).Runs Replies [] log (.ok (conn₁, .error e)) → (∀ c ∈ log, Answered c.2) →
    (exec conn op').Runs Replies [] log' (.ok (conn₁', .error e')) → (∀ c ∈ log', Answered c.2) →
    SameMessage e e'

omit [Sdk] in
/-- **One shape, two messages**: a document that is no JSON is refused before the key is looked
at. -/
theorem revisions_refused_apart :
    ¬ ∃ debug : Value → String, @RefusedAlike { plain with debugValue := debug } := by
  intro hex
  obtain ⟨debug, h⟩ := hex
  let sdk : Sdk := { plain with debugValue := debug }
  have hsame := h (revision 1 "\x7b") (revision 9223372036854775808 "0") (revisions_alike _ _ _ _)
    .new [] [] .new .new (jsonSyntaxError 1 1) Check.keyTooLarge.error ⟨rfl, rfl⟩ (by simp)
    ⟨rfl, rfl⟩ (by simp)
  rcases hsame with hsame | ⟨_, _, line, column, _, hsame⟩
  · exact absurd (congrArg Error.kind hsame) ErrorKind.noConfusion
  · exact absurd (congrArg Error.kind hsame) ErrorKind.noConfusion

end ToastySurreal
