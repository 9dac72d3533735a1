import ToastySurreal.Lib.Lists
import ToastySurreal.Proof.Tracking

/-!
# The ids of the tracking table

The tracking record of a migration has its id for a key, written as a decimal numeral. The
listing parses the keys of all rows, and a `u64` is parsed from more numerals than are ever
written: behind a plus sign, and with zeros in front. `tracking_strict_iff` says that the listing
is strict just if no row has a key like that, or it fails over another row anyway.
-/

namespace ToastySurreal

open Prog
open Numerals (Numeral)

/-! ## Numerals -/

/-- A numeral of a `u64` that is not the one that is written: behind a plus sign, or with a zero
in front. -/
def LooseNumeral (s : String) : Prop :=
  ∃ cs, Numeral cs ∧ Numerals.value cs < 2 ^ 64 ∧ (s.toList = '+' :: cs ∨ s.toList = '0' :: cs)

/-- What is parsed was written, or is loose. -/
theorem parseU64_cases {s : String} {id : UInt64} (h : parseU64 s = some id) :
    s = toString id.toNat ∨ LooseNumeral s := by
  obtain ⟨cs, hcs, hvalue, hs⟩ := parseU64_eq_some.mp h
  have hlt : Numerals.value cs < 2 ^ 64 := by
    have hid := id.toNat_lt
    omega
  rcases hs with hs | hs
  · exact .inr ⟨cs, hcs, hlt, .inl hs⟩
  · by_cases hwritten : Numerals.digits (Numerals.value cs) = cs
    · refine .inl (String.toList_inj.mp ?_)
      rw [toString_toList, ← hvalue, hwritten, hs]
    · -- a zero in front can be left out
      rw [Numerals.digits_value_iff hcs, not_forall] at hwritten
      obtain ⟨ds, hzero⟩ := hwritten
      rw [Classical.not_imp] at hzero
      obtain ⟨hzero, hne⟩ := hzero
      subst hzero
      rw [Numerals.value_zero_cons] at hlt
      exact .inr ⟨ds, ⟨hne, fun d hd => hcs.digits d (List.mem_cons_of_mem _ hd)⟩, hlt, .inr hs⟩

/-- A loose numeral is parsed. -/
theorem LooseNumeral.parsed {s : String} (h : LooseNumeral s) : ∃ id, parseU64 s = some id := by
  obtain ⟨cs, hcs, hlt, hs⟩ := h
  have hid : Numerals.value cs = (UInt64.ofNat (Numerals.value cs)).toNat :=
    (UInt64.toNat_ofNat_of_lt' hlt).symm
  refine ⟨UInt64.ofNat (Numerals.value cs), ?_⟩
  rcases hs with hs | hs
  · exact parseU64_eq_some.mpr ⟨cs, hcs, hid, .inl hs⟩
  · have hzero : Numeral ('0' :: cs) := by
      refine ⟨by simp, fun c hc => ?_⟩
      rcases List.mem_cons.mp hc with rfl | hc
      · decide
      · exact hcs.digits c hc
    exact parseU64_eq_some.mpr ⟨'0' :: cs, hzero, (Numerals.value_zero_cons cs).trans hid, .inr hs⟩

/-- A loose numeral is never written. -/
theorem LooseNumeral.not_written {s : String} (h : LooseNumeral s) (id : UInt64) :
    s ≠ toString id.toNat := by
  intro he
  obtain ⟨cs, hcs, _, hs⟩ := h
  rw [he, toString_toList] at hs
  rcases hs with hs | hs
  · have hdigits := Numerals.numeral_digits id.toNat
    rw [hs] at hdigits
    exact plus_not_digit hdigits
  · have hzero := Numerals.eq_zero_of_head hs
    rw [hzero, Numerals.digits_zero] at hs
    injection hs with _ hs
    exact hcs.nonempty hs.symm

/-! ## Rows -/

/-- The key that a row of the listing has for its id. -/
def rowKey : SurValue → Option SurValue
  | .object o => AssocMap.lookup trackingIdAlias o
  | _ => none

/-- The row has the key that is written for the id. -/
def WrittenFor (row : SurValue) (id : UInt64) : Prop :=
  rowKey row = some (trackingRecord id).key.value

/-- The row has a loose numeral for its key. -/
def LooseRow (row : SurValue) : Prop := ∃ s, rowKey row = some (.string s) ∧ LooseNumeral s

/-- The row's key is missing, no string, or no numeral of a `u64`. -/
def UnreadableRow (row : SurValue) : Prop := ¬ LooseRow row ∧ ¬ ∃ id, WrittenFor row id

theorem trackingId_eq_ok {row : SurValue} {id : UInt64} : trackingId row = .ok id ↔
    ∃ s, rowKey row = some (.string s) ∧ parseU64 s = some id := by
  unfold trackingId rowKey
  constructor
  · intro h
    split at h
    · split at h
      · rename_i s hlookup
        split at h
        · rename_i id' hparse
          injection h with h; subst h
          exact ⟨s, hlookup, hparse⟩
        · exact absurd h (by simp)
      · exact absurd h (by simp)
    · exact absurd h (by simp)
  · intro h
    obtain ⟨s, hkey, hparse⟩ := h
    cases row with
    | object o => simp only at hkey; simp only [hkey, hparse]
    | _ => exact absurd hkey (by simp)

/-- **The error of a row is always the same**, and says nothing about it. -/
theorem trackingId_error {row : SurValue} (h : ∀ id, trackingId row ≠ .ok id) :
    trackingId row = .error invalidMigrationTrackingRow := by
  have hall : trackingId row = .error invalidMigrationTrackingRow ∨ ∃ id, trackingId row =
      .ok id := by
    unfold trackingId
    split
    · split
      · split
        · exact .inr ⟨_, rfl⟩
        · exact .inl rfl
      · exact .inl rfl
    · exact .inl rfl
  rcases hall with herr | ⟨id, hok⟩
  · exact herr
  · exact absurd hok (h id)

theorem trackingId_cases {row : SurValue} {id : UInt64} (h : trackingId row = .ok id) :
    WrittenFor row id ∨ LooseRow row := by
  obtain ⟨s, hkey, hparse⟩ := trackingId_eq_ok.mp h
  rcases parseU64_cases hparse with rfl | hloose
  · exact .inl hkey
  · exact .inr ⟨s, hkey, hloose⟩

theorem WrittenFor.read {row : SurValue} {id : UInt64} (h : WrittenFor row id) :
    trackingId row = .ok id :=
  trackingId_eq_ok.mpr ⟨_, h, parseU64_toString id⟩

theorem LooseRow.not_written {row : SurValue} (h : LooseRow row) (id : UInt64) :
    ¬ WrittenFor row id := by
  intro hwritten
  obtain ⟨s, hkey, hloose⟩ := h
  rw [WrittenFor, hkey] at hwritten
  injection hwritten with hwritten; injection hwritten with hs
  exact hloose.not_written id hs

/-- A row is read just if it is not unreadable. -/
theorem unreadable_iff {row : SurValue} : UnreadableRow row ↔ ∀ id, trackingId row ≠ .ok id := by
  constructor
  · intro h id hok
    rcases trackingId_cases hok with hwritten | hloose
    · exact h.2 ⟨id, hwritten⟩
    · exact h.1 hloose
  · intro h
    refine ⟨fun hloose => ?_, fun hwritten => ?_⟩
    · obtain ⟨s, hkey, hs⟩ := hloose
      obtain ⟨id, hid⟩ := hs.parsed
      exact h id (trackingId_eq_ok.mpr ⟨s, hkey, hid⟩)
    · obtain ⟨id, hid⟩ := hwritten
      exact h id hid.read

theorem trackingIds_eq_ok : ∀ {rows : List SurValue} {ids : List UInt64}, trackingIds rows =
    .ok ids ↔ List.Forall₂ (fun row id => trackingId row = .ok id) rows ids
  | [], ids => by
      rw [trackingIds, List.forall₂_nil_left_iff]
      constructor
      · intro h; injection h with h; exact h.symm
      · intro h; rw [h]
  | row :: rows, ids => by
      constructor
      · intro h
        obtain ⟨id, hid, hrest⟩ := Results.bind_eq_ok h
        obtain ⟨rest, hids, hend⟩ := Results.bind_eq_ok hrest
        injection hend with hend; subst hend
        exact .cons hid (trackingIds_eq_ok.mp hids)
      · intro h
        exact trackingIds_rows h

/-- **One row that is not read fails the whole listing.** -/
theorem trackingIds_error : ∀ {rows : List SurValue}, (∃ row ∈ rows, UnreadableRow row) →
    trackingIds rows = .error invalidMigrationTrackingRow
  | [], h => absurd h (by simp)
  | row :: rows, h => by
      by_cases hrow : UnreadableRow row
      · rw [trackingIds, trackingId_error (unreadable_iff.mp hrow)]
        rfl
      · have hrows : ∃ r ∈ rows, UnreadableRow r := by
          obtain ⟨r, hr, hno⟩ := h
          rcases List.mem_cons.mp hr with rfl | hr
          · exact absurd hno hrow
          · exact ⟨r, hr, hno⟩
        have ih := trackingIds_error hrows
        rw [unreadable_iff, not_forall] at hrow
        obtain ⟨id, hid⟩ := hrow
        rw [trackingIds, not_not.mp hid, ih]
        rfl

/-- Rows that can all be read are listed. -/
theorem trackingIds_readable {rows : List SurValue} (h : ¬ ∃ row ∈ rows, UnreadableRow row) :
    ∃ ids, List.Forall₂ (fun row id => trackingId row = .ok id) rows ids := by
  refine Lists.exists_forall₂ fun row hrow => ?_
  have hread : ¬ UnreadableRow row := fun hno => h ⟨row, hrow, hno⟩
  rw [unreadable_iff, not_forall] at hread
  obtain ⟨id, hid⟩ := hread
  exact ⟨id, not_not.mp hid⟩

/-! ## The listing -/

/-- What the `SELECT` of the tracking table returns: no two of its records have one key. -/
structure TrackedRows where
  rows : List SurValue
  distinct : (rows.filterMap rowKey).Nodup

/-- A database with these rows in its tracking table, where a call may fail. -/
def answering (t : TrackedRows) (_ : Unit) (call : Call) (r : Reply) (_ : Unit) : Prop :=
  ∀ v, r = .ok v → call = .plain trackingQuery → takeRows v = t.rows

/-- The same, where no call fails. -/
def serving (t : TrackedRows) (_ : Unit) (call : Call) (r : Reply) (_ : Unit) : Prop :=
  ∃ v, r = .ok v ∧ (call = .plain trackingQuery → takeRows v = t.rows)

/-- The listing is exact, and fails where it cannot be. -/
structure StrictlyParsed (t : TrackedRows) : Prop where
  /-- Ids that are returned are those that the rows were written for, all different. -/
  exact : ∀ conn ids, (appliedMigrations conn).Runs (answering t) () () (.ok ids) →
    ids.Nodup ∧ List.Forall₂ WrittenFor t.rows ids
  /-- A row that was written for no id fails the listing. -/
  fails : (∃ row ∈ t.rows, ¬ ∃ id, WrittenFor row id) → ∀ conn out, conn.transaction = false →
    (appliedMigrations conn).Runs (serving t) () () out → out = .error invalidMigrationTrackingRow

theorem appliedMigrations_idle {conn : Connection} (hconn : conn.transaction = false) :
    appliedMigrations conn = startListing := applied_program hconn

/-- A listing that every call of is answered returns what the rows are parsed as. -/
theorem runs_serving {t : TrackedRows} {conn : Connection} (hconn : conn.transaction = false)
    {out : Except Error (List UInt64)} :
    (appliedMigrations conn).Runs (serving t) () () out ↔ out = trackingIds t.rows := by
  rw [appliedMigrations_idle hconn]
  constructor
  · intro h
    obtain ⟨r, _, ⟨_, rfl, _⟩, h⟩ := h
    obtain ⟨r, _, ⟨v, rfl, hrows⟩, h⟩ := h
    rw [← hrows rfl]
    exact (runs_lift.mp h).2
  · intro h
    refine ⟨.ok (.array t.rows), (), ⟨_, rfl, fun _ => rfl⟩, .ok (.array t.rows), (),
      ⟨_, rfl, fun _ => rfl⟩, ?_⟩
    exact runs_lift.mpr ⟨rfl, h⟩

/-- A listing that returns ids has parsed the rows. -/
theorem runs_answering {t : TrackedRows} {conn : Connection} {ids : List UInt64}
    (h : (appliedMigrations conn).Runs (answering t) () () (.ok ids)) : trackingIds t.rows =
    .ok ids := by
  cases hconn : conn.transaction with
  | true =>
      obtain ⟨err, herr⟩ :=
        (program_refused hconn : ∃ err, (Request.applied conn).program = .fail err)
      have hfail : appliedMigrations conn = .fail err := herr
      rw [hfail] at h
      exact absurd h.2 (by simp)
  | false =>
      rw [appliedMigrations_idle hconn] at h
      obtain ⟨r, _, _, h⟩ := h
      cases r with
      | error err => exact absurd h.2 (by simp)
      | ok v =>
          obtain ⟨r, _, hr, h⟩ := h
          cases r with
          | error err => exact absurd h.2 (by simp)
          | ok v =>
              have hrows : takeRows v = t.rows := hr v rfl rfl
              rw [← hrows]
              exact (runs_lift.mp h).2.symm

/-- Ids of rows with different keys are different. -/
theorem written_nodup {rows : List SurValue} {ids : List UInt64}
    (h : List.Forall₂ WrittenFor rows ids)
    (hdistinct : (rows.filterMap rowKey).Nodup) : ids.Nodup := by
  have hkeys : rows.filterMap rowKey = ids.map fun id => (trackingRecord id).key.value := by
    clear hdistinct
    induction h with
    | nil => rfl
    | cons hrow _ ih => rw [List.filterMap_cons_some hrow, ih, List.map_cons]
  rw [hkeys] at hdistinct
  exact hdistinct.of_map _

/-- **The listing is strict** just if some row is no numeral at all, or none is a loose one. -/
theorem tracking_strict_iff (t : TrackedRows) : StrictlyParsed t ↔
    (∃ row ∈ t.rows, UnreadableRow row) ∨ ∀ row ∈ t.rows, ¬ LooseRow row := by
  constructor
  · intro h
    by_cases hno : ∃ row ∈ t.rows, UnreadableRow row
    · exact .inl hno
    · refine .inr fun row hrow hloose => ?_
      -- the listing returns an id for the loose row
      obtain ⟨ids, hids⟩ := trackingIds_readable hno
      have hwritten : ¬ ∃ id, WrittenFor row id := not_exists.mpr hloose.not_written
      have hrun : (appliedMigrations .new).Runs (serving t) () () (.ok ids) :=
        (runs_serving rfl).mpr (trackingIds_eq_ok.mpr hids).symm
      exact absurd (h.fails ⟨row, hrow, hwritten⟩ _ _ rfl hrun) (by simp)
  · intro h
    refine ⟨fun conn ids hrun => ?_, fun hbad conn out hconn hrun => ?_⟩
    · have hids := runs_answering hrun
      rcases h with hno | hnone
      · rw [trackingIds_error hno] at hids
        exact absurd hids (by simp)
      · have hwritten : List.Forall₂ WrittenFor t.rows ids := by
          refine Lists.forall₂_imp_mem (trackingIds_eq_ok.mp hids) fun row hrow id _ hid => ?_
          exact (trackingId_cases hid).resolve_right (hnone row hrow)
        exact ⟨written_nodup hwritten t.distinct, hwritten⟩
    · rw [(runs_serving hconn).mp hrun]
      refine trackingIds_error (h.elim id fun hnone => ?_)
      obtain ⟨row, hrow, hno⟩ := hbad
      exact ⟨row, hrow, hnone row hrow, hno⟩

/-! ## One id twice -/

/-- A row of the listing. -/
def keyedRow (key : String) : SurValue := .object [(trackingIdAlias, .string key)]

/-- The records of `7` and `07`. -/
def sevens : TrackedRows := ⟨[keyedRow "7", keyedRow "07"], by decide⟩

/-- Two records are listed with one id. -/
theorem seven_listed_twice : trackingIds sevens.rows = .ok [7, 7] ∧ ¬ StrictlyParsed sevens := by
  have hids : trackingIds sevens.rows = .ok [7, 7] := by decide
  refine ⟨hids, fun h => ?_⟩
  have hwritten : ¬ ∃ id, WrittenFor (keyedRow "07") id := by
    intro h
    obtain ⟨id, hid⟩ := h
    have hkey : rowKey (keyedRow "07") = some (.string "07") := by decide
    rw [WrittenFor, hkey] at hid
    injection hid with hid; injection hid with hs
    have hdigits := congrArg String.toList hs
    rw [toString_toList] at hdigits
    have hzero := Numerals.eq_zero_of_head hdigits.symm
    rw [hzero] at hdigits
    exact absurd hdigits (by decide)
  have hrun : (appliedMigrations .new).Runs (serving sevens) () () (.ok [7, 7]) :=
    (runs_serving rfl).mpr hids.symm
  exact absurd (h.fails ⟨_, by simp [sevens], hwritten⟩ _ _ rfl hrun) (by simp)

end ToastySurreal
