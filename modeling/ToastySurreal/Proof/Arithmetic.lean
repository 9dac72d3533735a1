import ToastySurreal.Proof.RoundTrip

/-!
# Integers read back

The decoder narrows a stored number to the column's Rust type with a cast, and takes 0
for what the SDK cannot convert. A number the type holds is read as it is, any other as
some other number. Additions and subtractions run in the database, which knows nothing
of the type, so a sequence of them is read as what it adds up to only while the sum is a
number of the type.
-/

namespace ToastySurreal

open Results Prog

/-! ## The integer types -/

/-- The whole number a stored number is, if it is one. -/
def Number.whole : Number → Option Int
  | .int v => some v.toInt
  | .decimal d => d.whole
  | .float _ => none

/-- The least number of an integer type. -/
def Ty.least : Ty → Int
  | .i8 => -2 ^ 7
  | .i16 => -2 ^ 15
  | .i32 => -2 ^ 31
  | .i64 => -2 ^ 63
  | _ => 0

/-- How many numbers an integer type has. -/
def Ty.size : Ty → Int
  | .i8 | .u8 => 2 ^ 8
  | .i16 | .u16 => 2 ^ 16
  | .i32 | .u32 => 2 ^ 32
  | .i64 | .u64 => 2 ^ 64
  | _ => 0

/-- The number is one of the type. -/
def Ty.Holds (ty : Ty) (n : Int) : Prop := ty.least ≤ n ∧ n < ty.least + ty.size

instance (ty : Ty) (n : Int) : Decidable (ty.Holds n) :=
  inferInstanceAs (Decidable (ty.least ≤ n ∧ n < ty.least + ty.size))

/-- The number of the type a cast makes of a number. -/
def Ty.wrap (ty : Ty) (n : Int) : Int := (n - ty.least) % ty.size + ty.least

theorem Ty.wrap_holds {ty : Ty} (hty : ty.isInteger = true) (n : Int) : ty.Holds (ty.wrap n) := by
  have hpos : 0 < ty.size := by
    cases ty with
    | i8 | i16 | i32 | i64 | u8 | u16 | u32 | u64 => decide
    | bool | f32 | f64 | string | bytes | uuid | text | list | unknown | other =>
        exact absurd hty (by simp [Ty.isInteger])
  have hlow := Int.emod_nonneg (n - ty.least) (by omega : ty.size ≠ 0)
  have hhigh := Int.emod_lt_of_pos (n - ty.least) hpos
  rw [Ty.Holds, Ty.wrap]
  omega

theorem Ty.wrap_of_holds {ty : Ty} {n : Int} (h : ty.Holds n) : ty.wrap n = n := by
  obtain ⟨hlow, hhigh⟩ := h
  rw [Ty.wrap, Int.emod_eq_of_lt (by omega) (by omega)]
  omega

/-- Every type but `u64` is within `i64`. -/
theorem Ty.Holds.fits {ty : Ty} {n : Int} (h : ty.Holds n) (hty : ty.isInteger = true)
    (hu : ty ≠ .u64) : FitsInt64 n := by
  obtain ⟨hlow, hhigh⟩ := h
  cases ty with
  | u64 => exact absurd rfl hu
  | i8 | i16 | i32 | i64 | u8 | u16 | u32 =>
      simp only [Ty.least, Ty.size] at hlow hhigh
      exact ⟨by omega, by omega⟩
  | bool | f32 | f64 | string | bytes | uuid | text | list | unknown | other =>
      exact absurd hty (by simp [Ty.isInteger])

/-- A decoded value is this number; what is refused is no other number. -/
def ExactOrError (x : Except Error Value) (n : Int) : Prop := ∀ v, x = .ok v → v.whole = some n

theorem exactOrError_ok {v : Value} {n : Int} : ExactOrError (.ok v) n ↔ v.whole = some n := by
  refine ⟨fun h => h v rfl, fun h w hw => ?_⟩
  injection hw with hw; subst hw
  exact h

/-- The SDK converts whole numbers exactly, or not at all. -/
class WholeSdk [Sdk] : Prop where
  toInt_int : ∀ v, Sdk.toInt (.int v) = some v
  toInt_fits : ∀ (d : Decimal) (v : Int64), d.whole = some v.toInt → Sdk.toInt (.decimal d) = some v
  toInt_refuses : ToIntRefuses
  toU64_fits : ∀ (d : Decimal) (v : UInt64), d.whole = some (v.toNat : Int) →
    Sdk.decimalToU64 d = some v
  toU64_refuses : ∀ (d : Decimal) (n : Int), d.whole = some n → ¬ (0 ≤ n ∧ n < 2 ^ 64) →
    Sdk.decimalToU64 d = none

section

variable [Sdk] [WholeSdk] {num : Number} {n : Int}

open WholeSdk

/-- A number that fits is converted as it is. -/
theorem numberToInt_fits (h : num.whole = some n) (hn : FitsInt64 n) :
    (numberToInt num).toInt = n := by
  cases num with
  | int v =>
      injection h with h; subst h
      rw [numberToInt, toInt_int]; rfl
  | decimal d =>
      have hv : (Int64.ofInt n).toInt = n := Int64.toInt_ofInt_of_le hn.1 hn.2
      rw [numberToInt, toInt_fits d (.ofInt n) (by rw [hv]; exact h)]
      exact hv
  | float v => exact absurd h (by simp [Number.whole])

omit [Sdk] [WholeSdk] in
/-- A cast to an unsigned type takes the remainder. -/
theorem toNat_toUInt64 (x : Int64) : (x.toUInt64.toNat : Int) = x.toInt % 2 ^ 64 := by
  have h := BitVec.toInt_eq_toNat_cond x.toBitVec
  have hlt := x.toUInt64.toNat_lt
  have hx : x.toInt = x.toBitVec.toInt := rfl
  have hu : x.toUInt64.toNat = x.toBitVec.toNat := rfl
  rw [hx]
  split at h <;> omega

/-- What `number_to_u64` makes of a whole number. -/
theorem numberToU64_iff (h : num.whole = some n) :
    ((numberToU64 num).toNat : Int) = n ↔ 0 ≤ n ∧ n < 2 ^ 64 := by
  have hlt := (numberToU64 num).toNat_lt
  cases num with
  | int v =>
      injection h with h; subst h
      have hv := toNat_toUInt64 v
      have hmin := v.le_toInt
      have hmax := v.toInt_lt
      rw [numberToU64] at hlt ⊢
      omega
  | decimal d =>
      refine ⟨fun hn => by omega, fun hn => ?_⟩
      have hnat : ((UInt64.ofNat n.toNat).toNat : Int) = n := by
        rw [UInt64.toNat_ofNat']
        omega
      rw [numberToU64, toU64_fits d (.ofNat n.toNat) (by rw [hnat]; exact h)]
      exact hnat
  | float v => exact absurd h (by simp [Number.whole])

omit [WholeSdk] in
/-- Every type but `u64` is read by a cast of an `i64`. -/
theorem numberToStmt_wraps {ty : Ty} (hty : ty.isInteger = true) (hu : ty ≠ .u64) (num : Number) :
    ∃ v, numberToStmt num ty = .ok v ∧ v.whole = some (ty.wrap (numberToInt num).toInt) := by
  have hmin := (numberToInt num).le_toInt
  have hmax := (numberToInt num).toInt_lt
  have hwrap := toNat_toUInt64 (numberToInt num)
  cases ty with
  | i8 | i16 | i32 =>
      refine ⟨_, rfl, congrArg some ?_⟩
      simp only [Ty.wrap, Ty.least, Ty.size, Int64.toInt_toInt8, Int64.toInt_toInt16,
        Int64.toInt_toInt32, Int.bmod_def]
      split <;> omega
  | i64 =>
      refine ⟨_, rfl, congrArg some ?_⟩
      simp only [Ty.wrap, Ty.least, Ty.size]
      omega
  | u8 | u16 | u32 =>
      refine ⟨_, rfl, congrArg some ?_⟩
      simp only [Ty.wrap, Ty.least, Ty.size, UInt64.toNat_toUInt8, UInt64.toNat_toUInt16,
        UInt64.toNat_toUInt32]
      omega
  | u64 => exact absurd rfl hu
  | bool | f32 | f64 | string | bytes | uuid | text | list | unknown | other =>
      exact absurd hty (by simp [Ty.isInteger])

/-- **A whole number is read as it is** exactly when it is one of the type. -/
theorem numberToStmt_exact_iff {ty : Ty} (hty : ty.isInteger = true) (h : num.whole = some n) :
    ExactOrError (numberToStmt num ty) n ↔ ty.Holds n := by
  by_cases hu : ty = .u64
  · subst hu
    rw [numberToStmt, exactOrError_ok, Value.whole, Option.some.injEq, Ty.Holds]
    exact numberToU64_iff h
  · obtain ⟨v, hv, hwhole⟩ := numberToStmt_wraps hty hu num
    rw [hv, exactOrError_ok, hwhole, Option.some.injEq]
    refine ⟨fun hn => hn ▸ Ty.wrap_holds hty _, fun hn => ?_⟩
    rw [numberToInt_fits h (hn.fits hty hu), Ty.wrap_of_holds hn]

end

/-! ## Sequences of updates -/

/-- How many records a response is about. -/
def Rows.size : Rows → Nat
  | .count n => n
  | .stream records => records.length

section

variable [Sdk]

theorem rowsToRecords_length {select : List Column} :
    ∀ {rows : List SurValue} {records : List Value},
    rowsToRecords select rows = .ok records → records.length = rows.length
  | [], _, h => by
      injection h with h; subst h
      rfl
  | _ :: _, _, h => by
      rw [rowsToRecords] at h
      obtain ⟨fields, _, h₁⟩ := bind_eq_ok h
      obtain ⟨rest, hrest, hok⟩ := bind_eq_ok h₁
      injection hok with hok; subst hok
      rw [List.length_cons, List.length_cons, rowsToRecords_length hrest]

/-- An update answers with as many records as its statement returned. -/
theorem updateAnswer_size {table : Table} {op : UpdateByKey} {rows : List SurValue}
    {resp : ExecResponse}
    (h : updateAnswer table op (.ok (.array rows)) = .ok resp) : resp.values.size =
    rows.length := by
  rw [updateAnswer] at h
  split at h
  · exact absurd h (by simp)
  split at h
  · obtain ⟨records, hrecords, hok⟩ := bind_eq_ok h
    injection hok with hok; subst hok
    exact rowsToRecords_length hrecords
  · injection h with h; subst h
    rfl

variable [Surql]

/-- Accepted updates of a record, one after another, and what each of them answered. -/
inductive Updating (conn : Connection) (table : Table) (rid : RecordId) (s : Records) :
    List (UpdateByKey × ExecResponse) → Records → Prop where
  | start : Updating conn table rid s [] s
  | step {s₁ s' : Records} {log : List (UpdateByKey × ExecResponse)} {op : UpdateByKey}
      {resp : ExecResponse} (h : Updating conn table rid s log s₁) (hop : Updates table rid op)
      (hrun : (execUpdateByKey conn table op).Runs recordStore.Handle s₁ s' (.ok resp)) :
      Updating conn table rid s (log ++ [(op, resp)]) s'

/-- The assignments to a column by the updates that found their record. -/
def assigned (c : Column) (log : List (UpdateByKey × ExecResponse)) : List Assignment :=
  log.flatMap fun e => if e.2.values.size = 0 then [] else assignmentsOn c e.1.assignments

variable {conn : Connection} {table : Table} {rid : RecordId} {s s' : Records} {c : Column}

/-- **What an accepted update makes of a column**: what its assignments make of it, or
nothing if it found no record. -/
theorem update_evolves {op : UpdateByKey} {resp : ExecResponse} {o : Object}
    (hc : c ∈ table.columns) (hid : c.name ≠ "id") (hop : Updates table rid op)
    (ho : AssocMap.lookup rid s = some o)
    (h : (execUpdateByKey conn table op).Runs recordStore.Handle s s' (.ok resp)) :
    ∃ o', AssocMap.lookup rid s' = some o' ∧ Evolves c (assigned c [(op, resp)])
      (Object.field (recordRow rid o) c.name) (Object.field (recordRow rid o') c.name) := by
  rcases execUpdateByKey_runs h with ⟨_, e, _, hout⟩ | ⟨key, q, r, hkeys, hq, hexec, hout⟩
  · exact absurd hout (by simp)
  obtain ⟨key', hkeys', hrid⟩ := hop.key
  rw [hkeys] at hkeys'
  injection hkeys' with hkey _; subst hkey
  cases updateQuery_updated hrid hop.columns hq hexec with
  | rejected err => exact absurd hout (by simp [updateAnswer])
  | unmatched =>
      have hsize : resp.values.size = 0 := updateAnswer_size hout.symm
      refine ⟨o, ho, ?_⟩
      simp [assigned, hsize, Evolves]
  | @wrote o₁ o' ho₁ ha =>
      rw [ho] at ho₁
      injection ho₁ with ho₁; subst ho₁
      have hsize : resp.values.size = 1 := updateAnswer_size hout.symm
      refine ⟨o', AssocMap.lookup_insert_self .., ?_⟩
      simpa [assigned, hsize] using ha.columns c hc hid

/-- **A sequence of accepted updates** makes of a column what their assignments make of it. -/
theorem Updating.evolves {log : List (UpdateByKey × ExecResponse)} {o : Object}
    (hc : c ∈ table.columns) (hid : c.name ≠ "id") (ho : AssocMap.lookup rid s = some o)
    (h : Updating conn table rid s log s') :
    ∃ o', AssocMap.lookup rid s' = some o' ∧ Evolves c (assigned c log)
      (Object.field (recordRow rid o) c.name) (Object.field (recordRow rid o') c.name) := by
  induction h with
  | start => exact ⟨o, ho, rfl⟩
  | step _ hop hrun ih =>
      obtain ⟨o₁, ho₁, hbefore⟩ := ih
      obtain ⟨o', ho', hafter⟩ := update_evolves hc hid hop ho₁ hrun
      refine ⟨o', ho', ?_⟩
      rw [assigned, List.flatMap_append]
      exact hbefore.append hafter

omit [Sdk] [Surql] in
/-- A stored number as a value. -/
theorem SurValue.whole_number {v : SurValue} {n : Int} (h : v.whole = some n) :
    ∃ num, v = .number num ∧ num.whole = some n := by
  cases v with
  | number num =>
      cases num with
      | int i => exact ⟨_, rfl, h⟩
      | decimal d =>
          simp only [SurValue.whole] at h
          split at h
          · rename_i hscale
            injection h with h; subst h
            exact ⟨_, rfl, by simp [Number.whole, Decimal.whole, hscale]⟩
          · exact absurd h (by simp)
      | float f => exact absurd h (by simp [SurValue.whole])
  | none | null | bool | string | bytes | uuid | recordId | array | object | other =>
      exact absurd h (by simp [SurValue.whole])

variable [WholeSdk]

omit [Surql] in
/-- A column that holds a whole number reads it exactly when its type holds it. -/
theorem column_exact_iff {v : SurValue} {n : Int} (hc : IntegerColumn table c)
    (h : v.whole = some n) : ExactOrError (fromSurrealForColumn v c) n ↔ c.ty.Holds n := by
  obtain ⟨num, rfl, hnum⟩ := SurValue.whole_number h
  rw [fromSurrealForColumn, fromSurrealWithStorage, if_neg (by simpa using hc.native), fromSurreal]
  exact numberToStmt_exact_iff hc.integer hnum

/-- **Integers are read exactly or refused** exactly when the column's type holds the number:
for every number, and after every sequence of additions and subtractions. -/
theorem integers_exact_iff [SqlArith] :
    (∀ (num : Number) (ty : Ty) (n : Int), ty.isInteger = true → num.whole = some n →
      (ExactOrError (numberToStmt num ty) n ↔ ty.Holds n)) ∧
    ∀ (conn : Connection) (table : Table) (rid : RecordId) (c : Column) (s s' : Records)
      (o : Object) (x : Int) (log : List (UpdateByKey × ExecResponse)), IntegerColumn table c →
      AssocMap.lookup rid s = some o → (Object.field (recordRow rid o) c.name).whole = some x →
      (∀ e ∈ log, ∀ a ∈ assignmentsOn c e.1.assignments, a.delta ≠ none) →
      Updating conn table rid s log s' →
      ∃ o', AssocMap.lookup rid s' = some o' ∧
        (ExactOrError (fromSurrealForColumn (Object.field (recordRow rid o') c.name) c)
            (x + deltaSum (assigned c log)) ↔ c.ty.Holds (x + deltaSum (assigned c log))) := by
  refine ⟨fun num ty n hty hn => numberToStmt_exact_iff hty hn, ?_⟩
  intro conn table rid c s s' o x log hc ho hx hdelta h
  obtain ⟨o', ho', hevolves⟩ := h.evolves hc.column (name_ne_id hx) ho
  have hsum : ∀ a ∈ assigned c log, a.delta ≠ none := by
    intro a ha
    obtain ⟨e, he, hae⟩ := List.mem_flatMap.mp ha
    split at hae
    · exact absurd hae List.not_mem_nil
    · exact hdelta e he a hae
  exact ⟨o', ho', column_exact_iff hc (evolves_whole hc.native hsum hx hevolves)⟩

end

/-! ## Tallies -/

/-- Library functions that convert whole decimals. -/
@[reducible] def counting : Sdk :=
  { plain with
    toInt := fun
      | .int v => some v
      | .decimal d =>
          d.whole.bind fun n => if -2 ^ 63 ≤ n ∧ n < 2 ^ 63 then some (.ofInt n) else none
      | .float _ => none
    decimalToU64 := fun d =>
      d.whole.bind fun n => if 0 ≤ n ∧ n < 2 ^ 64 then some (.ofNat n.toNat) else none }

theorem counting_whole : @WholeSdk counting :=
  let := counting
  { toInt_int := fun _ => rfl
    toInt_fits := fun d v h => by
      show d.whole.bind _ = _
      rw [h, Option.bind_some, if_pos ⟨v.le_toInt, v.toInt_lt⟩, Int64.ofInt_toInt]
    toInt_refuses := fun d n h hn => by
      show d.whole.bind _ = _
      rw [h, Option.bind_some]
      exact if_neg hn
    toU64_fits := fun d v h => by
      have hlt := v.toNat_lt
      show d.whole.bind _ = _
      rw [h, Option.bind_some, if_pos ⟨by omega, by omega⟩, Int.toNat_natCast, UInt64.ofNat_toNat]
    toU64_refuses := fun d n h hn => by
      show d.whole.bind _ = _
      rw [h, Option.bind_some, if_neg hn] }

/-- Tallies of a byte each. -/
def tallies : Table where
  id := 0
  name := "tallies"
  columns := [⟨⟨0, 0⟩, "number", .i64, .integer 8⟩, ⟨⟨0, 1⟩, "votes", .u8, .unsignedInteger 1⟩]
  primaryKey := [⟨0, 0⟩]
  indices := []

def votes : Column := ⟨⟨0, 1⟩, "votes", .u8, .unsignedInteger 1⟩

/-- The records with one tally. -/
def tally (n : Int64) : Records := [(⟨"tallies", .number 1⟩, [("votes", .number (.int n))])]

/-- More votes for tally 1. -/
def vote (n : UInt8) : UpdateByKey := ⟨[.i64 1], [(⟨0, 1⟩, .add (.u8 n))], none, none, none⟩

/-- Ten votes on top of 250 are four. -/
theorem votes_wrapped : let := counting
    let := countingSurql
    Updating .new tallies ⟨"tallies", .number 1⟩ (tally 250) [(vote 10, .count 1)] (tally 260) ∧
      ¬ ExactOrError (fromSurrealForColumn (.number (.int 260)) votes) 260 ∧
      ¬ ExactOrError (numberToStmt (.int 260) .u8) 260 := by
  let := counting
  let := countingSurql
  have hwrong : ¬ ExactOrError (numberToStmt (.int 260) .u8) 260 := fun h =>
    absurd (h _ rfl) (by decide)
  refine ⟨.step .start ⟨⟨_, rfl, rfl⟩, by decide⟩ ?_, hwrong, hwrong⟩
  exact ⟨_, _, .inr ⟨_, rfl, .inl ⟨_, [("votes", .number (.int 260))], rfl, rfl, rfl, rfl, rfl⟩⟩,
    rfl, rfl⟩

/-- Five votes on top of 250 are 255, the last number there is room for. -/
theorem votes_counted : let := counting
    ExactOrError (fromSurrealForColumn (.number (.int 255)) votes) 255 := by
  let := counting
  let := countingSurql
  have := counting_whole
  have := countingSurql_arith
  have hcolumn : IntegerColumn tallies votes := ⟨by decide, rfl, by decide, by decide⟩
  have hrun : Updating .new tallies ⟨"tallies", .number 1⟩ (tally 250) [(vote 5, .count 1)]
      (tally 255) := by
    refine .step .start ⟨⟨_, rfl, rfl⟩, by decide⟩ ?_
    exact ⟨_, _, .inr ⟨_, rfl, .inl ⟨_, [("votes", .number (.int 255))], rfl, rfl, rfl, rfl, rfl⟩⟩,
      rfl, rfl⟩
  have hdelta : ∀ e ∈ [(vote 5, ExecResponse.count 1)], ∀ a ∈ assignmentsOn votes e.1.assignments,
      a.delta ≠ none := by
    intro e he a ha
    rw [List.mem_singleton.mp he] at ha
    rw [List.mem_singleton.mp ha]
    decide
  obtain ⟨o', ho', hiff⟩ :=
    integers_exact_iff.2 .new tallies ⟨"tallies", .number 1⟩ votes (tally 250)
    (tally 255) _ 250 _ hcolumn rfl rfl hdelta hrun
  injection ho' with ho'; subst ho'
  exact hiff.mpr (by decide)

end ToastySurreal
