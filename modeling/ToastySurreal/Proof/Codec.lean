import ToastySurreal.Value
import ToastySurreal.Lib.Results

/-!
# The codec gives back what was written

A value of a column's type is encoded, if at all, to something that decodes under
that type to the same value. For a native-JSON column the text need not be the
same: what comes back is a serialization of the tree the text was parsed into.
-/

namespace ToastySurreal

open Results

theorem jsonValueToSurreal_ne_none (json : JsonValue) : jsonValueToSurreal json ≠ .none := by
  intro h
  cases json with
  | number n =>
      cases n with
      | posInt v =>
          rw [jsonValueToSurreal, jsonNumberToSurreal] at h
          split at h <;> exact absurd h (by simp)
      | negInt v => simp [jsonValueToSurreal, jsonNumberToSurreal] at h
      | float v => simp [jsonValueToSurreal, jsonNumberToSurreal] at h
  | _ => simp [jsonValueToSurreal] at h

/-- With distinct names nothing is overwritten: the members are stored in order. -/
theorem jsonMembersToSurreal_eq : ∀ {members : List (String × JsonValue)} {out : Object},
    (members.map Prod.fst).Nodup → (∀ m ∈ members, m.1 ∉ out.map Prod.fst) →
    jsonMembersToSurreal members out =
      out ++ members.map fun m => (m.1, jsonValueToSurreal m.2)
  | [], out, _, _ => by simp [jsonMembersToSurreal]
  | (name, v) :: members, out, hn, hout => by
      obtain ⟨hname, hn⟩ := List.nodup_cons.mp hn
      have hnew : name ∉ out.map Prod.fst := hout _ (List.mem_cons_self ..)
      rw [jsonMembersToSurreal, AssocMap.insert_of_not_mem hnew, jsonMembersToSurreal_eq hn]
      · simp
      · intro m hm hin
        rw [List.map_append, List.mem_append] at hin
        rcases hin with hin | hin
        · exact hout m (List.mem_cons_of_mem _ hm) hin
        · have he : m.1 = name := by simpa using hin
          exact hname (List.mem_map.mpr ⟨m, hm, he⟩)

variable [Sdk]

/-! ## Typed values -/

/-- A value of a type. A null is a value of every type, and a list is one of a list
type when its items are values of the element type. -/
inductive Value.HasTy : Value → Ty → Prop where
  | null (ty : Ty) : HasTy .null ty
  | bool (v : Bool) : HasTy (.bool v) .bool
  | i8 (v : Int8) : HasTy (.i8 v) .i8
  | i16 (v : Int16) : HasTy (.i16 v) .i16
  | i32 (v : Int32) : HasTy (.i32 v) .i32
  | i64 (v : Int64) : HasTy (.i64 v) .i64
  | u8 (v : UInt8) : HasTy (.u8 v) .u8
  | u16 (v : UInt16) : HasTy (.u16 v) .u16
  | u32 (v : UInt32) : HasTy (.u32 v) .u32
  | u64 (v : UInt64) : HasTy (.u64 v) .u64
  | f32 (v : F32) : HasTy (.f32 v) .f32
  | f64 (v : F64) : HasTy (.f64 v) .f64
  | string (v : String) : HasTy (.string v) .string
  | bytes (v : List UInt8) : HasTy (.bytes v) .bytes
  | uuid (v : Uuid) : HasTy (.uuid v) .uuid
  | text (kind : TextKind) (code : Nat) : HasTy (.text kind code) (.text kind)
  | list (items : List Value) (elem : Ty) (h : ∀ v ∈ items, HasTy v elem) :
      HasTy (.list items) (.list elem)

/-- A list decodes item by item. -/
theorem fromSurrealList_of_items {ty : Ty} : ∀ {items : List Value} {out : List SurValue},
    (∀ v ∈ items, ∀ s, toSurreal v = .ok s → fromSurreal s ty = .ok v) →
    toSurrealList items = .ok out → fromSurrealList out ty = .ok items
  | [], out, _, h => by
      rw [toSurrealList] at h
      injection h with h; subst h
      rfl
  | v :: vs, out, hv, h => by
      rw [toSurrealList] at h
      obtain ⟨s, hs, h⟩ := bind_eq_ok h
      obtain ⟨rest, hrest, h⟩ := bind_eq_ok h
      injection h with h; subst h
      have hone := hv v (List.mem_cons_self ..) s hs
      have hall := fromSurrealList_of_items (fun w hw => hv w (List.mem_cons_of_mem _ hw)) hrest
      rw [fromSurrealList, hone, hall]
      rfl

theorem surrealToJsonItems_of_items : ∀ {items : List JsonValue},
    (∀ v ∈ items, surrealToJsonValue (jsonValueToSurreal v) = .ok v) →
    surrealToJsonItems (jsonItemsToSurreal items) = .ok items
  | [], _ => rfl
  | v :: vs, h => by
      have hall := surrealToJsonItems_of_items fun w hw => h w (List.mem_cons_of_mem _ hw)
      rw [jsonItemsToSurreal, surrealToJsonItems, h v (List.mem_cons_self ..), hall]
      rfl

theorem surrealToJsonMembers_of_members : ∀ {members : List (String × JsonValue)},
    (∀ m ∈ members, surrealToJsonValue (jsonValueToSurreal m.2) = .ok m.2) →
    surrealToJsonMembers (members.map fun m => (m.1, jsonValueToSurreal m.2)) = .ok members
  | [], _ => rfl
  | (name, v) :: members, h => by
      have hall := surrealToJsonMembers_of_members fun m hm => h m (List.mem_cons_of_mem _ hm)
      have hone := h _ (List.mem_cons_self ..)
      rw [List.map_cons, surrealToJsonMembers, hone, hall]
      rfl

/-- What a native-JSON value that is not absent decodes to. -/
theorem surrealJsonToText_ok {s : SurValue} {v : Value} (hs : s ≠ .none)
    (h : surrealJsonToText s = .ok v) : ∃ json text, surrealToJsonValue s = .ok json ∧
      Sdk.printJson json = .ok text ∧ v = .string text := by
  unfold surrealJsonToText at h
  split at h
  · exact absurd rfl hs
  · obtain ⟨json, hjson, h⟩ := bind_eq_ok h
    split at h
    · rename_i text htext
      injection h with h
      exact ⟨json, text, hjson, htext, h.symm⟩
    · exact absurd h (by simp)

/-- A native-JSON value that prints is decoded to its text. -/
theorem surrealJsonToText_of_print {s : SurValue} {json : JsonValue} {text : String}
    (hs : s ≠ .none) (hjson : surrealToJsonValue s = .ok json)
    (hprint : Sdk.printJson json = .ok text) : surrealJsonToText s = .ok (.string text) := by
  unfold surrealJsonToText
  split
  · exact absurd rfl hs
  · rw [hjson]
    simp [bind, Except.bind, hprint]

/-- Two texts of one JSON value: the second is a serialization of what the first says. -/
def JsonSame (text text' : String) : Prop :=
  ∃ json, Sdk.parseJson text = .ok json ∧ Sdk.printJson json = .ok text'

section Lawful

variable [LawfulSdk]

open LawfulSdk

@[simp] theorem numberToInt_int (v : Int64) : numberToInt (.int v) = v := by
  simp [numberToInt, toInt_int]

@[simp] theorem numberToF64_float (v : F64) : numberToF64 (.float v) = v := by
  simp [numberToF64, toF64_float]

/-- **Decoding gives back a typed value.** -/
theorem fromSurreal_toSurreal {v : Value} {ty : Ty} (ht : v.HasTy ty) :
    ∀ {s : SurValue}, toSurreal v = .ok s → fromSurreal s ty = .ok v := by
  induction ht with
  | null ty => intro s h; rw [toSurreal] at h; injection h with h; subst h; rfl
  | bool v => intro s h; rw [toSurreal] at h; injection h with h; subst h; rfl
  | i8 v | i16 v | i32 v | i64 v | u8 v | u16 v | u32 v =>
      intro s h
      rw [toSurreal] at h; injection h with h; subst h
      simp [fromSurreal, numberToStmt]
  | u64 v =>
      intro s h
      rw [toSurreal] at h
      split at h
      · injection h with h; subst h
        simp [fromSurreal, numberToStmt, numberToU64]
      · injection h with h; subst h
        simp [fromSurreal, numberToStmt, numberToU64, decimalToU64_ofU64]
  | f32 v =>
      intro s h
      rw [toSurreal] at h; injection h with h; subst h
      simp [fromSurreal, numberToStmt, narrow_widen]
  | f64 v =>
      intro s h
      rw [toSurreal] at h; injection h with h; subst h
      simp [fromSurreal, numberToStmt]
  | string v | bytes v | uuid v =>
      intro s h; rw [toSurreal] at h; injection h with h; subst h; rfl
  | text kind code =>
      intro s h
      rw [toSurreal] at h
      split at h
      · rename_i text htext
        injection h with h; subst h
        simp [fromSurreal, textToStmt, cast_storageText kind code text htext]
      · exact absurd h (by simp)
  | list items elem hitems ih =>
      intro s h
      rw [toSurreal] at h
      obtain ⟨out, hout, h⟩ := bind_eq_ok h
      injection h with h; subst h
      have hall : fromSurrealList out elem = .ok items :=
        fromSurrealList_of_items (fun v hv s hs => ih v hv hs) hout
      rw [fromSurreal, elemTy, hall]
      rfl

/-! ## Native JSON -/

omit [Sdk] [LawfulSdk] in
/-- A `u64` that fits is kept. -/
theorem toInt64_toInt {v : UInt64} (h : v.toNat < 2 ^ 63) : v.toInt64.toInt = v.toNat := by
  show v.toBitVec.toInt = v.toNat
  rw [BitVec.toInt_eq_toNat_of_lt (by rw [UInt64.toNat_toBitVec]; omega)]
  rfl

theorem surrealToJson_number (n : JsonNumber)
    (hf : ∀ v, n = .float v → Sdk.finite v = true) :
    surrealToJsonValue (jsonNumberToSurreal n) = .ok (.number n) := by
  cases n with
  | posInt v =>
      rw [jsonNumberToSurreal]
      split
      · rename_i h
        have hpos : ¬ v.toInt64 < 0 := by
          rw [Int64.lt_iff_toInt_lt, Int64.toInt_zero]
          have hint := toInt64_toInt h
          omega
        simp [JsonNumber.ofInt64, hpos]
      · exact surrealToJsonValue_decimal (parse_decimalText v)
  | negInt v =>
      simp [jsonNumberToSurreal, JsonNumber.ofInt64, v.2]
  | float v =>
      exact surrealToJsonValue_float (hf v rfl)

/-- **A parsed JSON tree is stored without loss.** -/
theorem surrealToJsonValue_jsonValueToSurreal {json : JsonValue} (h : json.Proper) :
    surrealToJsonValue (jsonValueToSurreal json) = .ok json := by
  induction h with
  | null => rfl
  | bool v => rfl
  | posInt v =>
      rw [jsonValueToSurreal]
      exact surrealToJson_number (.posInt v) (by simp)
  | negInt v =>
      rw [jsonValueToSurreal]
      exact surrealToJson_number (.negInt v) (by simp)
  | float v hv =>
      rw [jsonValueToSurreal]
      exact surrealToJson_number (.float v) (by simp [hv])
  | string v => rfl
  | array items _ ih =>
      rw [jsonValueToSurreal, surrealToJsonValue_array, surrealToJsonItems_of_items ih]
      rfl
  | object members hn _ ih =>
      rw [jsonValueToSurreal, jsonMembersToSurreal_eq hn (by simp), List.nil_append,
        surrealToJsonValue_object, surrealToJsonMembers_of_members ih]
      rfl

/-- **A native-JSON column gives back the JSON value it was given.** -/
theorem surrealJsonToText_jsonTextToSurreal {text : String} {s : SurValue}
    (h : jsonTextToSurreal (.string text) = .ok s) :
    ∃ text', surrealJsonToText s = .ok (.string text') ∧ JsonSame text text' := by
  unfold jsonTextToSurreal at h
  split at h
  · rename_i heq; cases heq
  · rename_i t heq
    injection heq with heq; subst heq
    split at h
    · rename_i json hparse
      injection h with h; subst h
      have hproper := proper_of_parse text json hparse
      obtain ⟨text', hprint⟩ := print_proper json hproper
      have hback := surrealToJsonValue_jsonValueToSurreal hproper
      exact ⟨text', surrealJsonToText_of_print (jsonValueToSurreal_ne_none json) hback hprint, json,
        hparse, hprint⟩
    · exact absurd h (by simp)
  · rename_i hno; exact absurd rfl (hno text)

end Lawful

end ToastySurreal
