import ToastySurreal.Numbers
import ToastySurreal.Plain
import ToastySurreal.Proof.Codec
import ToastySurreal.Proof.Updates

/-!
# What the codec keeps

Three round trips. A value of a column's type comes back as it was. A native-JSON tree
comes back as it was, and what is no JSON is refused at any depth. A document has no type
below its column, so its leaves have to be told from what was stored for them:
`document_survives_iff` says which ones are not.
-/

namespace ToastySurreal

open Results

/-! ## Typed values -/

/-- The scalar type of a type of lists. -/
def Ty.leaf : Ty → Ty
  | .list elem => elem.leaf
  | ty => ty

section

variable [Sdk]

/-- **A typed value is encoded**, if every value stored as text has one. -/
theorem toSurreal_ok {v : Value} {ty : Ty} (ht : v.HasTy ty)
    (htext : ∀ kind code, ty.leaf = .text kind → Sdk.storageText kind code ≠ none) :
    ∃ s, toSurreal v = .ok s := by
  induction ht with
  | u64 v =>
      rw [toSurreal]
      split <;> exact ⟨_, rfl⟩
  | text kind code =>
      obtain ⟨text, htext⟩ := Option.ne_none_iff_exists'.mp (htext kind code rfl)
      exact ⟨.string text, by rw [toSurreal, htext]⟩
  | list items elem _ ih =>
      obtain ⟨out, hout⟩ := toSurrealList_of_all fun v hv => ih v hv htext
      exact ⟨.array out, by rw [toSurreal, hout]; rfl⟩
  | _ => exact ⟨_, rfl⟩

/-- **Typed values round-trip**: they are encoded, and decoded to what they were. -/
theorem typed_roundtrip [LawfulSdk] {v : Value} {ty : Ty} (ht : v.HasTy ty)
    (htext : ∀ kind code, ty.leaf = .text kind → Sdk.storageText kind code ≠ none) :
    ∃ s, toSurreal v = .ok s ∧ fromSurreal s ty = .ok v := by
  obtain ⟨s, hs⟩ := toSurreal_ok ht htext
  exact ⟨s, hs, fromSurreal_toSurreal ht hs⟩

end

/-- A list of lists of 64-bit numbers, with nulls, from both sides of `i64::MAX`. -/
theorem counters_roundtrip : let := plain
    let v := Value.list [.list [.u64 (2 ^ 64 - 1), .null], .null, .list [], .list [.u64 0]]
    ∃ s, toSurreal v = .ok s ∧ fromSurreal s (.list (.list .u64)) = .ok v :=
  let := plain
  let := plain_lawful
  typed_roundtrip
    (.list _ _ fun v hv => by
      simp only [List.mem_cons, List.not_mem_nil, or_false] at hv
      rcases hv with rfl | rfl | rfl | rfl
      · refine .list _ _ fun w hw => ?_
        simp only [List.mem_cons, List.not_mem_nil, or_false] at hw
        rcases hw with rfl | rfl
        · exact .u64 _
        · exact .null _
      · exact .null _
      · exact .list _ _ fun w hw => absurd hw List.not_mem_nil
      · exact .list _ _ fun w hw => List.mem_singleton.mp hw ▸ .u64 0)
    (fun _ _ h => absurd h (by simp [Ty.leaf]))

/-! ## Native JSON -/

/-- A stored value that is JSON: no `NONE` and no other variant at any depth. -/
inductive SurValue.IsJson [Sdk] : SurValue → Prop where
  | null : IsJson .null
  | bool (v : Bool) : IsJson (.bool v)
  | int (v : Int64) : IsJson (.number (.int v))
  | float (v : F64) (h : Sdk.finite v = true) : IsJson (.number (.float v))
  | decimal (v : Decimal) : IsJson (.number (.decimal v))
  | string (v : String) : IsJson (.string v)
  | array (items : List SurValue) (h : ∀ v ∈ items, IsJson v) : IsJson (.array items)
  | object (fields : List (String × SurValue)) (h : ∀ f ∈ fields, IsJson f.2) :
      IsJson (.object fields)

section

variable [Sdk]

mutual

/-- **Only JSON converts.** -/
theorem isJson_of_ok : ∀ (s : SurValue) {json : JsonValue}, surrealToJsonValue s = .ok json →
    s.IsJson
  | .null, _, _ => .null
  | .bool v, _, _ => .bool v
  | .number (.int v), _, _ => .int v
  | .number (.float v), _, h => by
      by_cases hv : Sdk.finite v = true
      · exact .float v hv
      · rw [surrealToJsonValue_nonfinite hv] at h
        exact absurd h (by simp)
  | .number (.decimal v), _, _ => .decimal v
  | .string v, _, _ => .string v
  | .array items, _, h => by
      rw [surrealToJsonValue_array] at h
      obtain ⟨out, hout, _⟩ := bind_eq_ok h
      exact .array items (isJson_of_items items hout)
  | .object fields, _, h => by
      rw [surrealToJsonValue_object] at h
      obtain ⟨out, hout, _⟩ := bind_eq_ok h
      exact .object fields (isJson_of_members fields hout)
  | .none, _, h => nomatch h
  | .bytes _, _, h => nomatch h
  | .uuid _, _, h => nomatch h
  | .recordId _ _, _, h => nomatch h
  | .other _, _, h => nomatch h

theorem isJson_of_items : ∀ (items : List SurValue) {out : List JsonValue},
    surrealToJsonItems items = .ok out → ∀ v ∈ items, v.IsJson
  | [], _, _, v, hv => absurd hv List.not_mem_nil
  | w :: ws, _, h, v, hv => by
      rw [surrealToJsonItems] at h
      obtain ⟨json, hjson, h⟩ := bind_eq_ok h
      obtain ⟨rest, hrest, _⟩ := bind_eq_ok h
      rcases List.mem_cons.mp hv with hv | hv
      · rw [hv]; exact isJson_of_ok w hjson
      · exact isJson_of_items ws hrest v hv

theorem isJson_of_members : ∀ (fields : List (String × SurValue)) {out : List (String × JsonValue)},
    surrealToJsonMembers fields = .ok out → ∀ f ∈ fields, f.2.IsJson
  | [], _, _, f, hf => absurd hf List.not_mem_nil
  | (name, w) :: ws, _, h, f, hf => by
      rw [surrealToJsonMembers] at h
      obtain ⟨json, hjson, h⟩ := bind_eq_ok h
      obtain ⟨rest, hrest, _⟩ := bind_eq_ok h
      rcases List.mem_cons.mp hf with hf | hf
      · rw [hf]; exact isJson_of_ok w hjson
      · exact isJson_of_members ws hrest f hf

end

/-- A decimal prints as a JSON number. -/
def DecimalsPrint : Prop := ∀ v : Decimal, ∃ n, Sdk.parseJson (Sdk.decimalText v) = .ok (.number n)

theorem surrealToJsonItems_ok : ∀ {items : List SurValue},
    (∀ v ∈ items, ∃ json, surrealToJsonValue v = .ok json) →
    ∃ out, surrealToJsonItems items = .ok out
  | [], _ => ⟨[], rfl⟩
  | v :: vs, h => by
      obtain ⟨json, hjson⟩ := h v List.mem_cons_self
      obtain ⟨out, hout⟩ := surrealToJsonItems_ok fun w hw => h w (List.mem_cons_of_mem v hw)
      exact ⟨json :: out, by rw [surrealToJsonItems, hjson, hout]; rfl⟩

theorem surrealToJsonMembers_ok : ∀ {fields : List (String × SurValue)},
    (∀ f ∈ fields, ∃ json, surrealToJsonValue f.2 = .ok json) →
    ∃ out, surrealToJsonMembers fields = .ok out
  | [], _ => ⟨[], rfl⟩
  | (name, v) :: fields, h => by
      obtain ⟨json, hjson⟩ := h (name, v) List.mem_cons_self
      obtain ⟨out, hout⟩ := surrealToJsonMembers_ok fun f hf => h f (List.mem_cons_of_mem _ hf)
      exact ⟨(name, json) :: out, by rw [surrealToJsonMembers, hjson, hout]; rfl⟩

/-- **All JSON converts.** -/
theorem ok_of_isJson (hdec : DecimalsPrint) {s : SurValue} (h : s.IsJson) :
    ∃ json, surrealToJsonValue s = .ok json := by
  induction h with
  | null => exact ⟨.null, rfl⟩
  | bool v => exact ⟨.bool v, rfl⟩
  | int v => exact ⟨_, surrealToJsonValue_int v⟩
  | float v hv => exact ⟨_, surrealToJsonValue_float hv⟩
  | decimal v =>
      obtain ⟨n, hn⟩ := hdec v
      exact ⟨_, surrealToJsonValue_decimal hn⟩
  | string v => exact ⟨.string v, rfl⟩
  | array items _ ih =>
      obtain ⟨out, hout⟩ := surrealToJsonItems_ok ih
      exact ⟨.array out, by rw [surrealToJsonValue_array, hout]; rfl⟩
  | object fields _ ih =>
      obtain ⟨out, hout⟩ := surrealToJsonMembers_ok ih
      exact ⟨.object out, by rw [surrealToJsonValue_object, hout]; rfl⟩

mutual

/-- Whatever is refused is refused as a serialization failure. -/
theorem surrealToJsonValue_refuses (hdec : DecimalsPrint) : ∀ (s : SurValue) {e : Error},
    surrealToJsonValue s = .error e → e.kind = .serializationFailure
  | .null, _, h => nomatch h
  | .bool _, _, h => nomatch h
  | .number (.int _), _, h => nomatch h
  | .number (.float v), _, h => by
      by_cases hv : Sdk.finite v = true
      · rw [surrealToJsonValue_float hv] at h
        exact absurd h (by simp)
      · rw [surrealToJsonValue_nonfinite hv] at h
        injection h with h; subst h; rfl
  | .number (.decimal v), _, h => by
      obtain ⟨n, hn⟩ := hdec v
      rw [surrealToJsonValue_decimal hn] at h
      exact absurd h (by simp)
  | .string _, _, h => nomatch h
  | .array items, _, h => by
      rw [surrealToJsonValue_array] at h
      rcases bind_eq_error h with h | ⟨out, _, h⟩
      · exact surrealToJsonItems_refuses hdec items h
      · exact absurd h (by simp)
  | .object fields, _, h => by
      rw [surrealToJsonValue_object] at h
      rcases bind_eq_error h with h | ⟨out, _, h⟩
      · exact surrealToJsonMembers_refuses hdec fields h
      · exact absurd h (by simp)
  | .none, _, h => by injection h with h; subst h; rfl
  | .bytes _, _, h => by injection h with h; subst h; rfl
  | .uuid _, _, h => by injection h with h; subst h; rfl
  | .recordId _ _, _, h => by injection h with h; subst h; rfl
  | .other _, _, h => by injection h with h; subst h; rfl

theorem surrealToJsonItems_refuses (hdec : DecimalsPrint) : ∀ (items : List SurValue) {e : Error},
    surrealToJsonItems items = .error e → e.kind = .serializationFailure
  | [], _, h => nomatch h
  | v :: vs, _, h => by
      rw [surrealToJsonItems] at h
      rcases bind_eq_error h with h | ⟨json, _, h⟩
      · exact surrealToJsonValue_refuses hdec v h
      · rcases bind_eq_error h with h | ⟨out, _, h⟩
        · exact surrealToJsonItems_refuses hdec vs h
        · exact absurd h (by simp)

theorem surrealToJsonMembers_refuses (hdec : DecimalsPrint) : ∀ (fields : List (String × SurValue))
    {e : Error}, surrealToJsonMembers fields = .error e → e.kind = .serializationFailure
  | [], _, h => nomatch h
  | (name, v) :: fields, _, h => by
      rw [surrealToJsonMembers] at h
      rcases bind_eq_error h with h | ⟨json, _, h⟩
      · exact surrealToJsonValue_refuses hdec v h
      · rcases bind_eq_error h with h | ⟨out, _, h⟩
        · exact surrealToJsonMembers_refuses hdec fields h
        · exact absurd h (by simp)

end

/-- The codec of native-JSON columns loses nothing and lets nothing else in. -/
structure JsonExact : Prop where
  /-- A tree comes back as it was, its nulls included. -/
  roundTrip : ∀ t : JsonValue, t.Proper → surrealToJsonValue (jsonValueToSurreal t) = .ok t
  accepts : ∀ s, (∃ json, surrealToJsonValue s = .ok json) ↔ s.IsJson
  refuses : ∀ s e, surrealToJsonValue s = .error e → e.kind = .serializationFailure
  /-- A database null is `NONE`, and nothing else is. -/
  null : ∀ c : Column, c.storageTy = .json → toSurrealForColumn .null c = .ok .none ∧
    ∀ s, fromSurrealForColumn s c = .ok .null ↔ s = .none
  /-- A text is stored as something else and read as a text of the same tree. -/
  text : ∀ c : Column, c.storageTy = .json → ∀ text s, toSurrealForColumn (.string text) c = .ok s →
    s ≠ .none ∧ ∃ text', fromSurrealForColumn s c = .ok (.string text') ∧ JsonSame text text'

theorem jsonTextToSurreal_ne_none {text : String} {s : SurValue}
    (h : jsonTextToSurreal (.string text) = .ok s) : s ≠ .none := by
  rw [jsonTextToSurreal] at h
  split at h
  · rename_i json _
    injection h with h; subst h
    exact jsonValueToSurreal_ne_none json
  · exact absurd h (by simp)

/-- **The native JSON codec is exact and strict.** -/
theorem json_exact [LawfulSdk] (hdec : DecimalsPrint) : JsonExact where
  roundTrip _ h := surrealToJsonValue_jsonValueToSurreal h
  accepts s := ⟨fun h => by
    obtain ⟨json, hjson⟩ := h; exact isJson_of_ok s hjson, ok_of_isJson hdec⟩
  refuses s _ h := surrealToJsonValue_refuses hdec s h
  null c hc := by
    refine ⟨by rw [toSurrealForColumn, toSurrealWithStorage, if_pos (by rw [hc])]; rfl, fun s => ?_⟩
    rw [fromSurrealForColumn, fromSurrealWithStorage, if_pos (by rw [hc])]
    refine ⟨fun h => ?_, fun h => by rw [h]; rfl⟩
    by_contra hs
    obtain ⟨json, text, _, _, hv⟩ := surrealJsonToText_ok hs h
    exact absurd hv (by simp)
  text c hc text s hs := by
    rw [toSurrealForColumn, toSurrealWithStorage, if_pos (by rw [hc])] at hs
    rw [fromSurrealForColumn, fromSurrealWithStorage, if_pos (by rw [hc])]
    exact ⟨jsonTextToSurreal_ne_none hs, surrealJsonToText_jsonTextToSurreal hs⟩

end

theorem plain_decimalsPrint : @DecimalsPrint plain := fun v =>
    ⟨_, Plain.parseJson_nat v.mantissa.toNat⟩

/-- Nulls and a number above `i64::MAX` come back. -/
theorem json_tree_kept : let := plain
    let t := JsonValue.object
      [("gone", .null), ("max", .array [.number (.posInt (2 ^ 64 - 1)), .null])]
    surrealToJsonValue (jsonValueToSurreal t) = .ok t :=
  let := plain
  let := plain_lawful
  (json_exact plain_decimalsPrint).roundTrip _ (.object _ (by decide) fun m hm => by
    simp only [List.mem_cons, List.not_mem_nil, or_false] at hm
    rcases hm with rfl | rfl
    · exact .null
    · refine .array _ fun v hv => ?_
      simp only [List.mem_cons, List.not_mem_nil, or_false] at hv
      rcases hv with rfl | rfl
      · exact .posInt _
      · exact .null)

/-! ## Whole numbers -/

/-- The whole number a decimal is, if it is one. -/
def Decimal.whole (d : Decimal) : Option Int :=
  if d.mantissa % 10 ^ d.scale = 0 then some (d.mantissa / 10 ^ d.scale) else none

theorem Decimal.whole_ofU64 (v : UInt64) : (Decimal.ofU64 v).whole = some v.toNat := by
  simp [Decimal.whole, Decimal.ofU64]

/-- In the range of an `i64`. -/
def FitsInt64 (n : Int) : Prop := -2 ^ 63 ≤ n ∧ n < 2 ^ 63

/-- `Number::to_int` is `None` on a decimal outside the `i64` range. -/
def ToIntRefuses [Sdk] : Prop :=
  ∀ (d : Decimal) (n : Int), d.whole = some n → ¬ FitsInt64 n → Sdk.toInt (.decimal d) = none

/-! ## Documents -/

/-- A value a document may hold: no member twice in an object, and leaves that are
booleans, integers, strings, bytes, UUIDs or null. -/
inductive Value.IsDocument : Value → Prop where
  | null : IsDocument .null
  | bool (v : Bool) : IsDocument (.bool v)
  | integer {v : Value} {n : Int} (h : v.whole = some n) : IsDocument v
  | string (v : String) : IsDocument (.string v)
  | bytes (v : List UInt8) : IsDocument (.bytes v)
  | uuid (v : Uuid) : IsDocument (.uuid v)
  | list (items : List Value) (h : ∀ v ∈ items, IsDocument v) : IsDocument (.list items)
  | object (entries : List (String × Value)) (hn : (entries.map Prod.fst).Nodup)
      (h : ∀ e ∈ entries, IsDocument e.2) : IsDocument (.object entries)

mutual

/-- The second tree is the first without the null members of its objects, with members in
any order and integers of any width. -/
inductive SameTree : Value → Value → Prop where
  | null : SameTree .null .null
  | bool (v : Bool) : SameTree (.bool v) (.bool v)
  | integer {v w : Value} {n : Int} (hv : v.whole = some n) (hw : w.whole = some n) : SameTree v w
  | string (v : String) : SameTree (.string v) (.string v)
  | bytes (v : List UInt8) : SameTree (.bytes v) (.bytes v)
  | uuid (v : Uuid) : SameTree (.uuid v) (.uuid v)
  | list {items items' : List Value} (h : SameItems items items') :
      SameTree (.list items) (.list items')
  | object {entries kept entries' : List (String × Value)} (h : SameMembers entries kept)
      (hperm : kept.Perm entries') : SameTree (.object entries) (.object entries')

inductive SameItems : List Value → List Value → Prop where
  | nil : SameItems [] []
  | cons {v w : Value} {vs ws : List Value} (h : SameTree v w) (hs : SameItems vs ws) :
      SameItems (v :: vs) (w :: ws)

inductive SameMembers : List (String × Value) → List (String × Value) → Prop where
  | nil : SameMembers [] []
  | omitted (name : String) {entries kept : List (String × Value)} (hs : SameMembers entries kept) :
      SameMembers ((name, .null) :: entries) kept
  | kept (name : String) {v w : Value} {entries kept : List (String × Value)}
      (hv : v.isNull = false) (h : SameTree v w) (hs : SameMembers entries kept) :
      SameMembers ((name, v) :: entries) ((name, w) :: kept)

end

mutual

/-- No 64-bit number in the tree is above `i64::MAX`. -/
def Value.fitsInt64 : Value → Bool
  | .u64 v => decide (v.toNat < 2 ^ 63)
  | .list items => itemsFit items
  | .object entries => membersFit entries
  | _ => true

def itemsFit : List Value → Bool
  | [] => true
  | v :: vs => v.fitsInt64 && itemsFit vs

def membersFit : List (String × Value) → Bool
  | [] => true
  | (_, v) :: entries => v.fitsInt64 && membersFit entries

end

theorem SameMembers.names : ∀ {entries kept : List (String × Value)}, SameMembers entries kept →
    kept.map Prod.fst = (entries.filter fun e => !e.2.isNull).map Prod.fst
  | [], _, h => by
      cases h
      rfl
  | e :: entries, _, h => by
      cases h with
      | omitted name hs => rw [hs.names, List.filter_cons_of_neg (by simp [Value.isNull])]
      | kept name hv _ hs =>
          rw [List.map_cons, hs.names, List.filter_cons_of_pos (by simp [hv])]
          rfl

/-- Lists with the same distinct names in the same order are not permutations of each other
unless they are equal. -/
theorem eq_of_perm_names : ∀ {l l' : List (String × Value)}, (l.map Prod.fst).Nodup →
    l.map Prod.fst = l'.map Prod.fst → l.Perm l' → l = l'
  | [], _, _, _, hp => (List.nil_perm.mp hp).symm
  | e :: l, [], _, _, hp => absurd (List.perm_nil.mp hp) (by simp)
  | e :: l, e' :: l', hn, hnames, hp => by
      rw [List.map_cons, List.map_cons] at hnames
      injection hnames with hname hnames
      obtain ⟨hnew, hn⟩ := List.nodup_cons.mp hn
      have he : e = e' := by
        rcases List.mem_cons.mp (hp.subset List.mem_cons_self) with he | he
        · exact he
        · exact absurd (hnames ▸ List.mem_map_of_mem he) hnew
      subst he
      rw [eq_of_perm_names hn hnames (List.perm_cons e |>.mp hp)]

section

variable [Sdk]

/-- What storing a value in a document and reading it back does to it. -/
def Survives (v : Value) : Prop :=
  ∃ s w, toSurreal v = .ok s ∧ fromSurreal s .unknown = .ok w ∧ (SameTree v w ↔ v.fitsInt64 = true)

theorem items_survive : ∀ {items : List Value}, (∀ v ∈ items, Survives v) →
    ∃ out items', toSurrealList items = .ok out ∧ fromSurrealList out .unknown = .ok items' ∧
      (SameItems items items' ↔ itemsFit items = true)
  | [], _ => ⟨[], [], rfl, rfl, by simp [itemsFit, SameItems.nil]⟩
  | v :: vs, h => by
      obtain ⟨s, w, hs, hw, hiff⟩ := h v List.mem_cons_self
      obtain ⟨out, items', hout, hitems, hall⟩ := items_survive fun u hu =>
        h u (List.mem_cons_of_mem v hu)
      refine ⟨s :: out, w :: items', by rw [toSurrealList, hs, hout]; rfl,
        by rw [fromSurrealList, hw, hitems]; rfl, ?_⟩
      rw [itemsFit, Bool.and_eq_true, ← hiff, ← hall]
      refine ⟨fun h => ?_, fun h => .cons h.1 h.2⟩
      cases h with
      | cons h hs => exact ⟨h, hs⟩

theorem members_survive : ∀ {entries : List (String × Value)} {out : Object},
    (entries.map Prod.fst).Nodup → (∀ e ∈ entries, e.1 ∉ out.map Prod.fst) →
    (∀ e ∈ entries, Survives e.2) → ∃ fields kept, toSurrealEntries entries out =
    .ok (out ++ fields) ∧
      fromSurrealFields fields = .ok kept ∧ (SameMembers entries kept ↔ membersFit entries = true) ∧
      kept.map Prod.fst = (entries.filter fun e => !e.2.isNull).map Prod.fst
  | [], out, _, _, _ =>
      ⟨[], [], by rw [List.append_nil]; rfl, rfl, by simp [membersFit, SameMembers.nil], rfl⟩
  | (name, v) :: entries, out, hn, hout, h => by
      obtain ⟨hname, hn'⟩ := List.nodup_cons.mp hn
      have hrest := fun e he => h e (List.mem_cons_of_mem (name, v) he)
      -- a null member is left out on the way in and missing on the way back
      cases hv : v.isNull with
      | true =>
          obtain rfl := Value.isNull_iff.mp hv
          obtain ⟨fields, kept, henc, hdec, hiff, hnames⟩ :=
            members_survive hn' (fun e he => hout e (List.mem_cons_of_mem _ he)) hrest
          refine ⟨fields, kept, by rw [toSurrealEntries]; exact henc, hdec, ?_, ?_⟩
          · rw [membersFit, show Value.fitsInt64 .null = true from rfl, Bool.true_and, ← hiff]
            refine ⟨fun h => ?_, .omitted name⟩
            cases h with
            | omitted _ hs => exact hs
            | kept _ hv _ _ => exact absurd hv (by simp [Value.isNull])
          · rw [hnames, List.filter_cons_of_neg (by simp [Value.isNull])]
      | false =>
          obtain ⟨s, w, hs, hw, htree⟩ := h (name, v) List.mem_cons_self
          -- a new name goes to the end, so the members keep their order
          have hnew : name ∉ out.map Prod.fst := hout (name, v) List.mem_cons_self
          have hout' : ∀ e ∈ entries, e.1 ∉ (out ++ [(name, s)]).map Prod.fst := fun e he hmem => by
            rw [List.map_append, List.mem_append] at hmem
            rcases hmem with hmem | hmem
            · exact hout e (List.mem_cons_of_mem _ he) hmem
            · have he' : e.1 = name := by simpa using hmem
              exact hname (List.mem_map.mpr ⟨e, he, he'⟩)
          obtain ⟨fields, kept, henc, hdec, hiff, hnames⟩ := members_survive hn' hout' hrest
          refine ⟨(name, s) :: fields, (name, w) :: kept, ?_, ?_, ?_, ?_⟩
          · rw [toSurrealEntries, if_neg (by simp [hv]), hs]
            show toSurrealEntries entries (AssocMap.insert name s out) = _
            rw [AssocMap.insert_of_not_mem hnew, henc, List.append_assoc]
            rfl
          · rw [fromSurrealFields, hw, hdec]; rfl
          · rw [membersFit, Bool.and_eq_true, ← htree, ← hiff]
            refine ⟨fun h => ?_, fun h => .kept name hv h.1 h.2⟩
            cases h with
            | omitted _ hs => exact absurd hv (by simp [Value.isNull])
            | kept _ _ h hs => exact ⟨h, hs⟩
          · rw [List.map_cons, hnames, List.filter_cons_of_pos (by simp [hv])]
            rfl

variable [LawfulSdk]

open LawfulSdk

/-- A number stored as an `i64` comes back as one. -/
theorem int_survives {v : Value} {n : Int} {x : Int64} (hv : v.whole = some n)
    (hs : toSurreal v = .ok (.number (.int x))) (hfit : v.fitsInt64 = true) : Survives v := by
  obtain ⟨s, hs', hn⟩ := toSurreal_whole hv
  rw [hs] at hs'
  injection hs' with hs'; subst hs'
  refine ⟨_, .i64 x, hs, ?_, fun _ => hfit, fun _ => .integer hv hn⟩
  simp [fromSurreal, numberToStmt, toInt_int]

/-- **Integers survive** in a document if they fit an `i64`. -/
theorem integer_survives (hbig : ToIntRefuses) {v : Value} {n : Int} (hv : v.whole = some n) :
    Survives v := by
  cases v with
  | i8 v | i16 v | i32 v | i64 v | u8 v | u16 v | u32 v => exact int_survives hv rfl rfl
  | u64 v =>
      by_cases hlt : v.toNat < 2 ^ 63
      · exact int_survives hv (by rw [toSurreal, if_pos hlt]) (by simpa [Value.fitsInt64] using hlt)
      · have hnone : Sdk.toInt (.decimal (.ofU64 v)) = none := by
          refine hbig _ _ (Decimal.whole_ofU64 v) fun hfit => hlt ?_
          have := hfit.2
          omega
        refine ⟨_, .f64 (numberToF64 (.decimal (.ofU64 v))), by rw [toSurreal, if_neg hlt], ?_,
          fun h => ?_, fun h => ?_⟩
        · simp [fromSurreal, numberToStmt, hnone]
        · -- it comes back as a float
          cases h with
          | integer _ hw => exact absurd hw (by simp [Value.whole])
        · exact absurd h (by simpa [Value.fitsInt64] using hlt)
  | null | bool | f32 | f64 | string | bytes | uuid | list | record | object | text =>
      exact absurd hv (by simp [Value.whole])

/-- What every document does. -/
theorem document_survives (hbig : ToIntRefuses) {v : Value} (h : v.IsDocument) : Survives v := by
  induction h with
  | null => exact ⟨.null, .null, rfl, rfl, fun _ => rfl, fun _ => .null⟩
  | bool v => exact ⟨.bool v, .bool v, rfl, rfl, fun _ => rfl, fun _ => .bool v⟩
  | integer h => exact integer_survives hbig h
  | string v => exact ⟨.string v, .string v, rfl, rfl, fun _ => rfl, fun _ => .string v⟩
  | bytes v => exact ⟨.bytes v, .bytes v, rfl, rfl, fun _ => rfl, fun _ => .bytes v⟩
  | uuid v => exact ⟨.uuid v, .uuid v, rfl, rfl, fun _ => rfl, fun _ => .uuid v⟩
  | list items _ ih =>
      obtain ⟨out, items', hout, hitems, hiff⟩ := items_survive ih
      refine ⟨.array out, .list items', by rw [toSurreal, hout]; rfl,
        by rw [fromSurreal, show elemTy .unknown = .unknown from rfl, hitems]; rfl, ?_⟩
      rw [Value.fitsInt64, ← hiff]
      refine ⟨fun h => ?_, .list⟩
      cases h with
      | list h => exact h
      | integer h _ => exact absurd h (by simp [Value.whole])
  | object entries hn _ ih =>
      obtain ⟨fields, kept, henc, hdec, hiff, hnames⟩ :=
        @members_survive _ entries [] hn (by simp) ih
      rw [List.nil_append] at henc
      refine ⟨.object fields, .object kept, by rw [toSurreal, henc]; rfl,
        by rw [fromSurreal, hdec]; rfl, ?_⟩
      rw [Value.fitsInt64, ← hiff]
      refine ⟨fun h => ?_, fun h => .object h (List.Perm.refl _)⟩
      cases h with
      | integer h _ => exact absurd h (by simp [Value.whole])
      | object h hperm =>
          -- with one order of names, equality up to order is equality
          have hn' : (kept.map Prod.fst).Nodup := by
            rw [hnames]
            exact (List.filter_sublist.map Prod.fst).nodup hn
          have hnames' := h.names.trans hnames.symm
          rwa [eq_of_perm_names (hnames' ▸ hn') hnames' hperm] at h

/-- **A document comes back as the same tree** if and only if none of its 64-bit numbers is
above `i64::MAX`. -/
theorem document_survives_iff (hbig : ToIntRefuses) {v : Value} (h : v.IsDocument) :
    (∃ s w, toSurreal v = .ok s ∧ fromSurreal s .unknown = .ok w ∧ SameTree v w) ↔
      v.fitsInt64 = true := by
  obtain ⟨s, w, hs, hw, hiff⟩ := document_survives hbig h
  constructor
  · intro hsame
    obtain ⟨s', w', hs', hw', htree⟩ := hsame
    rw [hs] at hs'
    injection hs' with hs'; subst hs'
    rw [hw] at hw'
    injection hw' with hw'; subst hw'
    exact hiff.mp htree
  · intro hfit
    exact ⟨s, w, hs, hw, hiff.mpr hfit⟩

end

theorem plain_toIntRefuses : @ToIntRefuses plain := fun _ _ _ _ => rfl

/-- A counter in a document, past `i64::MAX`, comes back as a float. -/
theorem large_counter_lost : let := plain
    ¬ ∀ v : Value, v.IsDocument → ∃ s w, toSurreal v = .ok s ∧ fromSurreal s .unknown = .ok w ∧
      SameTree v w := by
  intro _ h
  have hdoc : (Value.u64 9223372036854775808).IsDocument := .integer rfl
  obtain ⟨s, w, hs, hw, htree⟩ := h _ hdoc
  obtain ⟨s', w', hs', hw', hiff⟩ := @document_survives plain plain_lawful plain_toIntRefuses _ hdoc
  rw [hs] at hs'
  injection hs' with hs'; subst hs'
  rw [hw] at hw'
  injection hw' with hw'; subst hw'
  exact absurd (hiff.mp htree) (by decide)

/-- A document with a null member, a null item and `i64::MAX` comes back. -/
theorem small_document_kept : let := plain
    let v := Value.object
      [("n", .u64 9223372036854775807), ("gone", .null), ("l", .list [.null, .u8 7])]
    ∃ s w, toSurreal v = .ok s ∧ fromSurreal s .unknown = .ok w ∧ SameTree v w :=
  let := plain
  let := plain_lawful
  (document_survives_iff plain_toIntRefuses (.object _ (by decide) fun e he => by
    simp only [List.mem_cons, List.not_mem_nil, or_false] at he
    rcases he with rfl | rfl | rfl
    · exact .integer (n := 9223372036854775807) rfl
    · exact .null
    · refine .list _ fun v hv => ?_
      simp only [List.mem_cons, List.not_mem_nil, or_false] at hv
      rcases hv with rfl | rfl
      · exact .null
      · exact .integer rfl)).mpr (by decide)

end ToastySurreal
