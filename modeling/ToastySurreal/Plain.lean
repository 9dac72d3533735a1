import ToastySurreal.Numbers
import ToastySurreal.Predicate
import Mathlib.Data.List.Sort

/-!
# The promises can be kept

`plain` is one set of library functions that keeps every promise of `LawfulSdk`,
`plainSurql` computes what a store needs, `countingSurql` also compares and adds numbers,
and `plainOrder` computes what a predicate does. JSON is read and printed as far as natural
numbers, `null`, `true`, `false` and strings without escapes go, floats are carried as they
are, and values are ordered as integers.
-/

namespace ToastySurreal

namespace Plain

/-- The float with these bits; other NaNs than the quiet one are not kept. -/
def ofBits (b : BitVec 32) : F32 :=
  if h : 0x7f800000 < (b &&& 0x7fffffff).toNat → b = 0x7fc00000 then ⟨b, h⟩ else ⟨0, by decide⟩

theorem ofBits_bits (v : F32) : ofBits v.bits = v := dif_pos v.quiet

/-- Read a JSON scalar. -/
def parseJson (text : String) : Except JsonError JsonValue :=
  match text.toList with
  | ['n', 'u', 'l', 'l'] => .ok .null
  | ['t', 'r', 'u', 'e'] => .ok (.bool true)
  | ['f', 'a', 'l', 's', 'e'] => .ok (.bool false)
  | '"' :: cs => .ok (.string (String.ofList cs.dropLast))
  | [] => .error ⟨1, 0, "EOF while parsing a value at line 1 column 0"⟩
  | c :: cs =>
      if (c :: cs).all Char.isDigit then .ok
        (.number (.posInt (.ofNat (Nat.ofDigitChars 10 (c :: cs) 0))))
      else .error ⟨1, 1, "expected value at line 1 column 1"⟩

/-- Print a JSON scalar; nothing is said about any other tree. -/
def printJson : JsonValue → Except JsonError String
  | .null => .ok "null"
  | .bool true => .ok "true"
  | .bool false => .ok "false"
  | .number (.posInt v) => .ok (toString v.toNat)
  | .string v => .ok (String.ofList ('"' :: (v.toList ++ ['"'])))
  | _ => .ok ""

/-- Digits are read as the number they stand for. -/
theorem parseJson_nat (n : Nat) : parseJson (toString n) = .ok (.number (.posInt (.ofNat n))) := by
  have hl : (toString n).toList = Nat.toDigits 10 n := Nat.toList_repr
  have hdig : ∀ c ∈ Nat.toDigits 10 n, c.isDigit = true := fun c hc =>
    Nat.isDigit_of_mem_toDigits (by omega) (by omega) hc
  have hnum : Nat.ofDigitChars 10 (Nat.toDigits 10 n) 0 = n := Nat.ofDigitChars_ten_toDigits
  unfold parseJson
  rw [hl]
  split
  · rename_i h; exact absurd (hdig 'n' (by simp [h])) (by decide)
  · rename_i h; exact absurd (hdig 't' (by simp [h])) (by decide)
  · rename_i h; exact absurd (hdig 'f' (by simp [h])) (by decide)
  · rename_i h; exact absurd (hdig '"' (by simp [h])) (by decide)
  · rename_i h; exact absurd h Nat.toDigits_ne_nil
  · rename_i c cs _ _ _ _ h
    rw [← h, if_pos (List.all_eq_true.mpr hdig), hnum]

theorem parseJson_digits (v : UInt64) :
    parseJson (toString v.toNat) = .ok (.number (.posInt v)) := by
  rw [parseJson_nat, UInt64.ofNat_toNat]

end Plain

/-- Library functions that keep the promises. -/
@[reducible] def plain : Sdk where
  storageText _ _ := none
  cast _ _ := none
  parseUuid _ := none
  widen v := ⟨v.bits.setWidth 64⟩
  narrow v := Plain.ofBits (v.bits.setWidth 32)
  floatToU64 v := ⟨v.bits⟩
  toInt
    | .int v => some v
    | _ => none
  toF64
    | .float v => some v
    | _ => none
  decimalToU64 v := if v.scale = 0 then some (.ofNat v.mantissa.toNat) else none
  decimalText v := toString v.mantissa.toNat
  finite v := v.bits.toNat / 2 ^ 52 % 2048 ≠ 2047
  parseJson := Plain.parseJson
  printJson := Plain.printJson
  debugValue _ := ""
  debugTy _ := ""
  debugOp
    | .eq => "="
    | .ne => "!="
    | .gt => ">"
    | .ge => ">="
    | .lt => "<"
    | .le => "<="
    | .add => "+"
    | .sub => "-"
  debugSurValue _ := ""
  debugKey _ := ""

theorem plain_lawful : @LawfulSdk plain := by
  let := plain
  refine { cast_storageText := ?_, narrow_widen := ?_, toInt_int := fun _ => rfl,
           toF64_float := fun _ => rfl, decimalToU64_ofU64 := ?_, parse_decimalText := ?_,
           proper_of_parse := ?_, print_proper := ?_, parse_print_null := ?_,
           parse_print_string := ?_ }
  · intro kind code text h
    exact absurd h (by simp [Sdk.storageText])
  · intro v
    have hb : (v.bits.setWidth 64).setWidth 32 = v.bits := by simp
    show Plain.ofBits ((v.bits.setWidth 64).setWidth 32) = v
    rw [hb, Plain.ofBits_bits]
  · intro v
    show some (UInt64.ofNat (Int.toNat v.toNat)) = some v
    rw [Int.toNat_natCast, UInt64.ofNat_toNat]
  · intro v
    show Plain.parseJson (toString (Int.toNat v.toNat)) = _
    rw [Int.toNat_natCast, Plain.parseJson_digits]
  · intro text json h
    change Plain.parseJson text = .ok json at h
    unfold Plain.parseJson at h
    split at h
    · injection h with h; subst h; exact .null
    · injection h with h; subst h; exact .bool true
    · injection h with h; subst h; exact .bool false
    · injection h with h; subst h; exact .string _
    · exact absurd h (by simp)
    · split at h
      · injection h with h; subst h; exact .posInt _
      · exact absurd h (by simp)
  · intro json _
    show ∃ text, Plain.printJson json = .ok text
    unfold Plain.printJson
    split <;> exact ⟨_, rfl⟩
  · intro text h
    injection h with h; subst h; rfl
  · intro v text h
    injection h with h; subst h
    show Plain.parseJson (String.ofList ('"' :: (v.toList ++ ['"']))) = _
    unfold Plain.parseJson
    rw [String.toList_ofList]
    simp

/-! ## A store's computations -/

namespace Plain

/-- The integer a value is ordered by. -/
def rank : SurValue → Int
  | .number (.int v) => v.toInt
  | _ => 0

def le (v w : SurValue) : Bool := decide (rank v ≤ rank w)

/-- A comparison with a value; any other predicate is taken to hold. -/
def holds (toks : List (Precedence.Tok Operand Op Bracket Closer)) (rid : RecordId) (o : Object) :
    Bool :=
  match toks with
  | [.atom (.ref r []), .op .gt, .atom (.value v)] => !le (refValue rid o r) v
  | _ => true

def sortBy (key : RecordId × Object → SurValue) (records : Records) : Records :=
  records.insertionSort fun a b => rank (key a) ≤ rank (key b)

/-- Sums of integers. -/
def arith (f : Int64 → Int64 → Int64) : SurValue → SurValue → Except DbError SurValue
  | .number (.int v), .number (.int w) => .ok (.number (.int (f v w)))
  | _, _ => .error ⟨"Cannot perform arithmetic", false⟩

def concat : SurValue → SurValue → Except DbError SurValue
  | .array items, .array items' => .ok (.array (items ++ items'))
  | _, _ => .error ⟨"Incorrect arguments for function array::concat()", false⟩

end Plain

/-- Computations that follow the assumed order. -/
@[reducible] def plainSurql : Surql where
  le := Plain.le
  le_total v w := by
    unfold Plain.le
    rcases Int.le_total (Plain.rank v) (Plain.rank w) with h | h
    · exact .inl (decide_eq_true h)
    · exact .inr (decide_eq_true h)
  le_trans u v w huv hvw := by
    unfold Plain.le at *
    exact decide_eq_true (Int.le_trans (of_decide_eq_true huv) (of_decide_eq_true hvw))
  holds := Plain.holds
  holds_gt _ _ _ _ := rfl
  sortBy := Plain.sortBy
  sortBy_perm key records := List.perm_insertionSort _ records
  sortBy_sorted key records := by
    have htotal : Std.Total fun a b : RecordId × Object =>
        Plain.rank (key a) ≤ Plain.rank (key b) :=
      ⟨fun a b => Int.le_total _ _⟩
    have htrans : IsTrans (RecordId × Object) fun a b => Plain.rank (key a) ≤ Plain.rank (key b) :=
      ⟨fun a b c hab hbc => Int.le_trans hab hbc⟩
    refine (List.pairwise_insertionSort _ records).imp fun {a b} h => ?_
    exact decide_eq_true h
  add := Plain.arith (· + ·)
  sub := Plain.arith (· - ·)
  concat := Plain.concat

namespace Plain

/-- An equation between a column and a number; other predicates as before. -/
def compares (toks : List (Precedence.Tok Operand Op Bracket Closer)) (rid : RecordId)
    (o : Object) : Bool :=
  match toks with
  | [.atom (.ref r []), .op .eq, .atom (.value v)] => decide ((refValue rid o r).whole = v.whole)
  | toks => holds toks rid o

/-- Arithmetic of integers, an error when the result does not fit. -/
def checked (f : Int → Int → Int) : SurValue → SurValue → Except DbError SurValue
  | .number (.int v), .number (.int w) =>
      if -2 ^ 63 ≤ f v.toInt w.toInt ∧ f v.toInt w.toInt < 2 ^ 63 then
        .ok (.number (.int (.ofInt (f v.toInt w.toInt))))
      else .error ⟨"Cannot perform arithmetic", false⟩
  | _, _ => .error ⟨"Cannot perform arithmetic", false⟩

/-- `+` also joins strings. -/
def plus : SurValue → SurValue → Except DbError SurValue
  | .string v, .string w => .ok (.string (v ++ w))
  | v, w => checked (· + ·) v w

theorem checked_whole {f : Int → Int → Int} {v w u : SurValue} {x y : Int} (hv : v.whole = some x)
    (hw : w.whole = some y) (h : checked f v w = .ok u) : u.whole = some (f x y) := by
  unfold checked at h
  split at h
  · injection hv with hv; injection hw with hw; subst hv hw
    split at h
    · rename_i hfit
      injection h with h; subst h
      exact congrArg some (Int64.toInt_ofInt_of_le hfit.1 hfit.2)
    · exact absurd h (by simp)
  · exact absurd h (by simp)

theorem plus_whole {v w u : SurValue} {x y : Int} (hv : v.whole = some x) (hw : w.whole = some y)
    (h : plus v w = .ok u) : u.whole = some (x + y) := by
  unfold plus at h
  split at h
  · exact absurd hv (by simp [SurValue.whole])
  · exact checked_whole hv hw h

end Plain

/-- Computations that compare and add numbers. -/
@[reducible] def countingSurql : Surql :=
  { plainSurql with
    holds := Plain.compares
    holds_gt := fun _ _ _ _ => rfl
    add := Plain.plus
    sub := Plain.checked (· - ·) }

theorem countingSurql_arith : @SqlArith countingSurql :=
  let := countingSurql
  { holds_eq := fun {r v rid o x y} hx hy => by
      show decide ((refValue rid o r).whole = v.whole) = decide (x = y)
      rw [hx, hy]
      simp
    add_whole := Plain.plus_whole
    sub_whole := Plain.checked_whole }

namespace Plain

/-- The place of a value in an order with `NONE` at its lower end. -/
def place : SurValue → Int
  | .none => 0
  | .null => 1
  | .number (.int v) => v.toInt + 2 ^ 64
  | _ => 2

def placeLe (v w : SurValue) : Bool := decide (place v ≤ place w)

theorem placeLe_total (v w : SurValue) : placeLe v w = true ∨ placeLe w v = true := by
  unfold placeLe
  rcases Int.le_total (place v) (place w) with h | h
  · exact .inl (decide_eq_true h)
  · exact .inr (decide_eq_true h)

theorem placeLe_trans (u v w : SurValue) (huv : placeLe u v = true) (hvw : placeLe v w = true) :
    placeLe u w = true :=
  decide_eq_true (Int.le_trans (of_decide_eq_true huv) (of_decide_eq_true hvw))

theorem placeLe_none (v : SurValue) (h : v ≠ .none) : placeLe v .none = false := by
  have hpos : 0 < place v := by
    unfold place
    split
    · exact absurd rfl h
    · omega
    · rename_i v
      have hv : -2 ^ 63 ≤ v.toInt := Int64.le_toInt v
      omega
    · omega
  refine decide_eq_false fun hle => ?_
  have hzero : place .none = 0 := rfl
  omega

/-- A field of an object. -/
def field : SurValue → String → SurValue
  | .object o, name => Object.field o name
  | _, _ => .none

end Plain

/-- An order of values that `NONE` is the least of. -/
@[reducible] def plainOrder : SqlOrder where
  le := Plain.placeLe
  le_total := Plain.placeLe_total
  le_trans := Plain.placeLe_trans
  none_lt := Plain.placeLe_none
  field := Plain.field
  field_object _ _ := rfl
  arrayLen v := .number (.int (Int64.ofNat v.items.length))
  other _ _ _ := .none

end ToastySurreal
