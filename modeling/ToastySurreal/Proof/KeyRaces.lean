import ToastySurreal.Proof.Refinement

/-!
# Races for a key

What many clients do to one key can be counted. A row is not inserted twice without being
deleted in between, it does not go unless it is deleted, and it does not come unless it is
inserted or upserted (`RowStep.count`). So of any clients that race to insert a key nobody
deletes, one at most is told that it did, and if one is, the record is there: `races_counted`.
-/

namespace ToastySurreal

open Prog Simulation Lists

section

variable [Sdk]

/-! ## What is counted -/

/-- An insert of the key that took place. -/
def Inserted (table : Table) (vs : List Value) (entry : Operation × Except Error ExecResponse) :
    Prop :=
  ∃ stmt row ret resp, entry = (.insert (some (table, stmt)) ret, .ok resp) ∧ stmt.values =
    some [row] ∧ keyOf table (valueOf row stmt.columns) = vs

/-- An upsert of the key that took place. -/
def Upserted (table : Table) (vs : List Value) (entry : Operation × Except Error ExecResponse) :
    Prop :=
  ∃ op row resp, entry = (.upsert table op, .ok resp) ∧ op.insert.values = some [row] ∧
    keyOf table (valueOf row op.insert.columns) = vs

/-- A delete of the key that found it. -/
def Deleted (table : Table) (vs : List Value) (entry : Operation × Except Error ExecResponse) :
    Prop :=
  ∃ op key value, entry = (.deleteByKey table op, .ok (.count 1)) ∧ op.keys = [key] ∧
    KeyForm table value key ∧ keyOf table value = vs

open Classical in
/-- How often an entry of a kind occurs. -/
noncomputable def times (P : Operation × Except Error ExecResponse → Prop) (h : History) : Nat :=
  h.countP fun entry => decide (P entry)

/-- The counts of a key that is there, or not, before and after. -/
structure Counted (table : Table) (vs : List Value) (before after : Bool) (h : History) : Prop where
  /-- What is inserted stays until it is deleted. -/
  kept : before.toNat + times (Inserted table vs) h ≤ times (Deleted table vs) h + after.toNat
  /-- What is there was there, or was written. -/
  written : after.toNat ≤ before.toNat + times (Inserted table vs) h + times (Upserted table vs) h

variable {table : Table} {vs : List Value} {m m' : TableMap}
  {entry : Operation × Except Error ExecResponse}

omit [Sdk] in
theorem times_nil (P : Operation × Except Error ExecResponse → Prop) : times P [] = 0 := rfl

omit [Sdk] in
theorem times_append (P : Operation × Except Error ExecResponse → Prop) (h h' : History) :
    times P (h ++ h') = times P h + times P h' := List.countP_append

omit [Sdk] in
theorem times_of_pos {P : Operation × Except Error ExecResponse → Prop} (h : P entry) :
    times P [entry] = 1 := by
  simp [times, h]

omit [Sdk] in
theorem times_of_neg {P : Operation × Except Error ExecResponse → Prop} (h : ¬ P entry) :
    times P [entry] = 0 := by
  simp [times, h]

/-! ## One operation -/

omit [Sdk] in
/-- Nothing was done to the key. -/
theorem Counted.idle {b : Bool} (hi : ¬ Inserted table vs entry) :
    Counted table vs b b [entry] := by
  refine ⟨?_, Nat.le_add_right_of_le (Nat.le_add_right_of_le (le_refl _))⟩
  rw [times_of_neg hi]
  omega

omit [Sdk] in
theorem Counted.append {b b' b'' : Bool} {h h' : History} (hc : Counted table vs b b' h)
    (hc' : Counted table vs b' b'' h') : Counted table vs b b'' (h ++ h') := by
  have hkept := hc.kept
  have hkept' := hc'.kept
  have hwritten := hc.written
  have hwritten' := hc'.written
  constructor
  · rw [times_append, times_append]
    omega
  · rw [times_append, times_append]
    omega

/-- **One operation of the map** on a key. -/
theorem RowStep.count [Surql] {op : Operation} {result : Except Error ExecResponse}
    (h : RowStep table m op result m') :
    Counted table vs (m vs).isSome (m' vs).isSome [(op, result)] := by
  have hnone : ∀ {b b' : Bool}, b = b' → ¬ Inserted table vs (op, result) →
      Counted table vs b b' [(op, result)] := by
    rintro b _ rfl hi
    exact .idle hi
  cases h with
  | refused =>
      refine hnone rfl ?_
      rintro ⟨stmt, row, ret, resp, he, -⟩
      exact absurd (Prod.mk.inj he).2 (by simp)
  | @inserted stmt row ret columns resp hrow hret hfree hresp =>
      by_cases hkey : keyOf table (valueOf row stmt.columns) = vs
      · subst hkey
        have hin : Inserted table (keyOf table (valueOf row stmt.columns))
            (.insert (some (table, stmt)) ret, .ok resp) := ⟨stmt, row, ret, resp, rfl, hrow, rfl⟩
        rw [hfree, TableMap.put_self]
        constructor
        · rw [times_of_pos hin]
          simp
        · rw [times_of_pos hin]
          simp
      · refine hnone (by rw [TableMap.put_ne (Ne.symm hkey)]) ?_
        rintro ⟨stmt', row', ret', resp', he, hrow', hkey'⟩
        obtain ⟨hop, -⟩ := Prod.mk.inj he
        obtain ⟨hstmt, -⟩ := Operation.insert.inj hop
        obtain rfl := (Prod.mk.inj (Option.some.inj hstmt)).2
        obtain rfl : row = row' := (List.cons.inj (Option.some.inj (hrow.symm.trans hrow'))).1
        exact hkey hkey'
  | read _ _ =>
      refine hnone rfl ?_
      rintro ⟨stmt, row, ret, resp, he, -⟩
      exact absurd (Prod.mk.inj he).1 (by simp)
  | @updated op key value row resp _ _ hrow _ _ =>
      refine hnone ?_ ?_
      · by_cases hkey : vs = keyOf table value
        · rw [hkey, hrow, TableMap.put_self]
          rfl
        · rw [TableMap.put_ne hkey]
      · rintro ⟨stmt, row, ret, resp, he, -⟩
        exact absurd (Prod.mk.inj he).1 (by simp)
  | missed _ _ _ =>
      refine hnone rfl ?_
      rintro ⟨stmt, row, ret, resp, he, -⟩
      exact absurd (Prod.mk.inj he).1 (by simp)
  | @deleted op key value row hkeys hform hrow _ =>
      have hi : ¬ Inserted table vs (.deleteByKey table op, .ok (.count 1)) := by
        rintro ⟨stmt, row, ret, resp, he, -⟩
        exact absurd (Prod.mk.inj he).1 (by simp)
      by_cases hkey : keyOf table value = vs
      · subst hkey
        have hd : Deleted table (keyOf table value) (.deleteByKey table op, .ok (.count 1)) :=
          ⟨op, key, value, rfl, hkeys, hform, rfl⟩
        rw [hrow, TableMap.put_self]
        constructor
        · rw [times_of_pos hd, times_of_neg hi]
          simp
        · simp
      · exact hnone (by rw [TableMap.put_ne (Ne.symm hkey)]) hi
  | undeleted _ _ _ =>
      refine hnone rfl ?_
      rintro ⟨stmt, row, ret, resp, he, -⟩
      exact absurd (Prod.mk.inj he).1 (by simp)
  | @upserted op clause row columns new resp _ hrow _ _ _ =>
      have hi : ¬ Inserted table vs (.upsert table op, .ok resp) := by
        rintro ⟨stmt, row, ret, resp, he, -⟩
        exact absurd (Prod.mk.inj he).1 (by simp)
      by_cases hkey : keyOf table (valueOf row op.insert.columns) = vs
      · subst hkey
        have hu : Upserted table (keyOf table (valueOf row op.insert.columns))
            (.upsert table op, .ok resp) :=
          ⟨op, row, resp, rfl, hrow, rfl⟩
        rw [TableMap.put_self]
        constructor
        · have hle := Bool.toNat_le (m (keyOf table (valueOf row op.insert.columns))).isSome
          rw [times_of_neg hi]
          simp only [Option.isSome_some, Bool.toNat_true]
          omega
        · rw [times_of_pos hu]
          simp
      · exact hnone (by rw [TableMap.put_ne (Ne.symm hkey)]) hi

/-- **A run of operations** on a key. -/
theorem count_run [Surql] : ∀ {h : History} {m m' : TableMap}, Run (EntryStep table) m h m' →
    Counted table vs (m vs).isSome (m' vs).isSome h
  | [], m, m', h => by
      obtain rfl : m' = m := h
      exact ⟨by simp [times_nil], by simp [times_nil]⟩
  | entry :: h, m, m', ⟨m₁, hstep, hrest⟩ => by
      have hone : Counted table vs (m vs).isSome (m₁ vs).isSome [entry] := by
        rcases hstep with hstep | ⟨⟨t, ht⟩, -, rfl⟩
        · exact hstep.count
        · refine .idle ?_
          rintro ⟨stmt, row, ret, resp, rfl, -⟩
          exact absurd ht (by simp)
      exact hone.append (count_run hrest)

/-! ## Any number of clients -/

omit [Sdk] in
/-- What is inserted into a key that stays as it is was deleted. -/
theorem Counted.same {b : Bool} {h : History} (hc : Counted table vs b b h) (b' : Bool) :
    Counted table vs b' b' h := by
  have hkept := hc.kept
  exact ⟨by omega, by omega⟩

theorem Alike.isSome_eq {found found' : Option (ColumnId → Value)} (h : Alike table found found') :
    found.isSome = found'.isSome := by
  cases found with
  | none =>
      cases found' with
      | none => rfl
      | some row => exact h.elim
  | some row =>
      cases found' with
      | none => exact h.elim
      | some row' => rfl

/-- **A transaction that is merged in** counts as its operations do. -/
theorem TableMerge.count [Surql] {start working : TableMap} {ops : History}
    (hrun : Run (EntryStep table) start ops working) (h : TableMerge table start working m m') :
    Counted table vs (m vs).isSome (m' vs).isSome ops := by
  have hcount : Counted table vs (start vs).isSome (working vs).isSome ops := count_run hrun
  rcases h vs with ⟨halike, hm'⟩ | ⟨halike, hm'⟩
  · rw [hm']
    rw [← halike.isSome_eq] at hcount
    exact hcount.same _
  · rw [hm', ← halike.isSome_eq]
    exact hcount

/-- **A history of deeds** on a key. -/
theorem count_history [Surql] {ι : Type} {m₀ : TableMap} {adeeds : List ((ι × Deed) × TableMap)}
    (h : Snapshots.History (Deed.stepRules (EntryStep table) (TableMerge table)) m₀ adeeds) :
    Counted table vs (m₀ vs).isSome (Snapshots.now m₀ adeeds vs).isSome
      (adeeds.flatMap fun deed => deed.1.2.entries) := by
  have hsnoc : ∀ {adeeds : List ((ι × Deed) × TableMap)} {deed : ι × Deed} {m' : TableMap},
      Counted table vs (m₀ vs).isSome (Snapshots.now m₀ adeeds vs).isSome
        (adeeds.flatMap fun deed => deed.1.2.entries) →
      Counted table vs (Snapshots.now m₀ adeeds vs).isSome (m' vs).isSome deed.2.entries →
      Counted table vs (m₀ vs).isSome (Snapshots.now m₀ (adeeds ++ [(deed, m')]) vs).isSome
        ((adeeds ++ [(deed, m')]).flatMap fun deed => deed.1.2.entries) := by
    intro adeeds deed m' hbefore hdeed
    rw [List.flatMap_append, List.flatMap_singleton, Snapshots.now_snoc]
    exact hbefore.append hdeed
  induction h with
  | nil => exact count_run (h := []) rfl
  | @act adeeds deed m' _ hact ih =>
      obtain ⟨i, entry | span⟩ := deed
      · exact hsnoc ih (count_run (h := [entry]) ⟨m', hact, rfl⟩)
      · exact hact.elim
  | @merge adeeds before deed w m' _ _ hwork hmerge ih =>
      obtain ⟨i, entry | span⟩ := deed
      · exact hwork.elim
      · obtain ⟨hstart, hrun⟩ := hwork
        have hmerge : TableMerge table w.1 w.2 (Snapshots.now m₀ adeeds) m' := hmerge
        exact hsnoc ih (hmerge.count (hstart ▸ hrun))

theorem Represents.isSome_eq {s : Records} {value : ColumnId → Value} {rid : RecordId}
    (h : Represents table s m) (ht : KeyTyped table value) (hrid : keyId table value = .ok rid) :
    (m (keyOf table value)).isSome = (AssocMap.lookup rid s).isSome := by
  cases hrow : m (keyOf table value) with
  | none =>
      rw [h.absent value rid ht hrow hrid]
      rfl
  | some row =>
      obtain ⟨_, o, ho, _⟩ := h.found hrid hrow
      rw [ho]
      rfl

/-- **However many clients race for a key**, in transactions or out of them, what they got done can
be counted: the record of a key is there exactly as long as inserts, upserts and deletes that took
place make it be, and between two inserts of it there was a delete. -/
theorem races_counted [LawfulSdk] [TextInjective] [Surql] {ι α : Type} [DecidableEq ι]
    (hm : table.Mapped)
    (clients : ι → Client α) (hclients : ∀ i, (clients i).Asks (OnRows table)) {s₀ : Records}
    {m₀ : TableMap} (h₀ : Represents table s₀ m₀) {p : Clients recordStore.refusing ι α}
    (h : Pool.Steps (Database.StepBy bySnapshot)
      (Clients.begin clients (show recordStore.refusing.State from s₀)) p) :
    ∃ deeds, Amounts bySnapshot clients (show recordStore.refusing.State from s₀) p deeds ∧
      ∀ value rid, KeyTyped table value → keyId table value = .ok rid →
        Counted table (keyOf table value) (AssocMap.lookup rid s₀).isSome
          (AssocMap.lookup rid (show Records from p.shared.committed)).isSome
          (deeds.flatMap fun deed => deed.1.2.entries) := by
  obtain ⟨deeds, adeeds, hdone⟩ :=
    exists_done (entry_forward hm) merges_rows (fun _ hop => hop.single) hclients h₀ h
  refine ⟨deeds, hdone.amount, fun value rid ht hrid => ?_⟩
  have hentries : (deeds.flatMap fun deed => deed.1.2.entries) = adeeds.flatMap fun deed =>
      deed.1.2.entries := by
    rw [List.flatMap_def, List.flatMap_def]
    exact congrArg List.flatten (map_eq_of_forall₂ hdone.same fun x _ y hxy => by rw [hxy.1]).symm
  have hend : Represents table (show Records from p.shared.committed) (Snapshots.now m₀ adeeds) :=
    hdone.ended
  rw [← h₀.isSome_eq ht hrid, ← hend.isSome_eq ht hrid, hentries]
  exact count_history hdone.made

end

/-! ## Two sign-ups -/

/-- Both insert the same key. -/
def rivals (_ : Bool) : Client Unit :=
  .ask (.insert (some (people, signUp)) false) fun _ => .done ()

/-- One is told that it did, the other that it could not, and one insert is counted. -/
theorem rivals_counted : let := plain
    let := plainSurql
    ∃ p : Clients recordStore.refusing Bool Unit,
      p.history rivals true = [(.insert (some (people, signUp)) false, .ok (.count 1))] ∧
      p.history rivals false = [(.insert (some (people, signUp)) false,
        .error (.conditionFailed "Database record already exists"))] ∧
      ∃ deeds, Amounts bySnapshot rivals (show recordStore.refusing.State from []) p deeds ∧
        Counted people [.i64 1] false true (deeds.flatMap fun deed => deed.1.2.entries) := by
  let := plain
  let := plainSurql
  let := plain_lawful
  have : TextInjective := ⟨fun _ _ _ _ h => absurd h (by simp)⟩
  have hclients : ∀ i, (rivals i).Asks (OnRows people) := fun _ =>
    ⟨.inl signUp_onTable, fun _ => trivial⟩
  let ada : Records := [(⟨"people", .number 1⟩, [("name", .string "Ada")])]
  let create : Query := createQuery ⟨"people", .number 1⟩ [("name", .string "Ada")] false
  have hfirst : recordStore.refusing.exec ([] : Records) create
      (.ok (.array [.object (recordRow ⟨"people", .number 1⟩ [("name", .string "Ada")])])) ada :=
    .inr (.inr ⟨_, _, rfl, rfl, rfl, rfl, rfl⟩)
  have hsecond : recordStore.refusing.exec ada create
      (.error ⟨"Database record already exists", false⟩) ada :=
    .inl ⟨⟨_, rfl⟩, rfl⟩
  have hsteps : ∃ p : Clients recordStore.refusing Bool Unit,
      Pool.Steps (Database.StepBy bySnapshot)
      (Clients.begin rivals (show recordStore.refusing.State from [])) p ∧
      p.shared.committed = ada ∧
      p.history rivals true = [(.insert (some (people, signUp)) false, .ok (.count 1))] ∧
      p.history rivals false = [(.insert (some (people, signUp)) false,
        .error (.conditionFailed "Database record already exists"))] :=
    ⟨_, .tail (.single (.ask (i := true) rfl (.plain hfirst)))
      (.ask (i := false) rfl (.plain hsecond)), rfl, rfl, rfl⟩
  obtain ⟨p, hsteps, hcommitted, htrue, hfalse⟩ := hsteps
  obtain ⟨deeds, hamounts, hcounted⟩ :=
    races_counted people_mapped rivals hclients represents_nil hsteps
  have htyped : KeyTyped people fun _ => .i64 1 := by
    intro cid hcid
    rw [List.mem_singleton.mp hcid]
    exact ⟨.i64 1, rfl⟩
  have hcount := hcounted (fun _ => .i64 1) ⟨"people", .number 1⟩ htyped rfl
  rw [hcommitted] at hcount
  exact ⟨p, htrue, hfalse, deeds, hamounts, hcount⟩

end ToastySurreal
