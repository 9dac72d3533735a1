import ToastySurreal.Lib.Lists
import ToastySurreal.Proof.WriteRead

/-!
# Storage hints

A native-JSON column holds what a text denotes, so a text that is compared with one has to
be bound as what it denotes, too. The renderer hands a literal a hint, the storage type on
the other side of the comparison, but not everywhere: the target of a `Between` or an
`InList` and the list of an `AnyOp` get none, the bounds of a `Between` get the target's
alone, and below a path into what is no column the parameters are dropped. `json_hints_iff`
says for which expressions nothing is lost.
-/

namespace ToastySurreal

open Results Lists

/-! ## Literals -/

/-- A literal of an expression: whether it is compared with a native-JSON column, the hint it is
rendered with, and whether its parameter is among those that are kept. -/
structure HintedLiteral where
  value : Value
  compared : Bool
  hint : Option DbType
  sent : Bool

/-- A literal below a path into what is no column. -/
def HintedLiteral.drop (lit : HintedLiteral) : HintedLiteral := { lit with sent := false }

/-- A reference to a native-JSON column. -/
def Expr.isJsonColumn : Expr → Bool
  | .reference column => column.storageTy = .json
  | _ => false

mutual

/-- The literals of an expression, in the order they are rendered; `compared` and `hint` are those
of the expression as an operand. -/
def Expr.literals (compared : Bool) (hint : Option DbType) (e : Expr) : List HintedLiteral :=
  match e with
  | .binaryOp _ l r => l.literals r.isJsonColumn (expressionStorageTy r) ++
      r.literals l.isJsonColumn (expressionStorageTy l)
  | .and es => allLiterals false none es
  | .or es => allLiterals false none es
  | .not e => e.literals false none
  | .isNull e => e.literals false none
  | .between e lo hi => e.literals (lo.isJsonColumn || hi.isJsonColumn) none ++
      (lo.literals (e.isJsonColumn || hi.isJsonColumn) (expressionStorageTy e) ++
        hi.literals (e.isJsonColumn || lo.isJsonColumn) (expressionStorageTy e))
  | .inList e l =>
      e.literals l.isJsonColumn none ++ l.literals e.isJsonColumn (expressionStorageTy e)
  | .anyOp _ l r =>
      l.literals r.isJsonColumn (expressionStorageTy r) ++ r.literals l.isJsonColumn none
  | .isSuperset l r => l.literals r.isJsonColumn (expressionStorageTy r) ++
      r.literals l.isJsonColumn (expressionStorageTy l)
  | .intersects l r => l.literals r.isJsonColumn (expressionStorageTy r) ++
      r.literals l.isJsonColumn (expressionStorageTy l)
  | .length e => e.literals false none
  | .startsWith e s => e.literals false none ++ s.literals false (expressionStorageTy e)
  | .jsonExtract base _ => (base.literals false none).map HintedLiteral.drop
  | .reference _ => []
  | .value (.list items) => items.map fun v => ⟨v, compared, hint, true⟩
  | .value v => [⟨v, compared, hint, true⟩]
  | .list es => allLiterals compared hint es
  | .other _ => []
termination_by structural e

def allLiterals (compared : Bool) (hint : Option DbType) (es : List Expr) : List HintedLiteral :=
  match es with
  | [] => []
  | e :: es => e.literals compared hint ++ allLiterals compared hint es
termination_by structural es

end

/-- The literals an operand consists of: itself, or those of a list. -/
def Expr.operandLiterals : Expr → List Value
  | .value (.list items) => items
  | .value v => [v]
  | .list es => ofList es
  | _ => []
where ofList : List Expr → List Value
  | [] => []
  | e :: es => e.operandLiterals ++ ofList es

mutual

/-- Every literal that is compared with a native-JSON column is given the column's storage type. -/
def Expr.HintsReach (e : Expr) : Prop :=
  match e with
  | .binaryOp _ l r => l.HintsReach ∧ r.HintsReach
  | .isSuperset l r => l.HintsReach ∧ r.HintsReach
  | .intersects l r => l.HintsReach ∧ r.HintsReach
  | .startsWith l r => l.HintsReach ∧ r.HintsReach
  | .and es => AllHintsReach es
  | .or es => AllHintsReach es
  | .list es => AllHintsReach es
  | .not e => e.HintsReach
  | .isNull e => e.HintsReach
  | .length e => e.HintsReach
  -- the target gets no hint, a bound gets the target's
  | .between e lo hi => (e.HintsReach ∧ lo.HintsReach ∧ hi.HintsReach) ∧
      ((lo.isJsonColumn || hi.isJsonColumn) = true → e.operandLiterals = []) ∧
      (expressionStorageTy e ≠ some .json → (hi.isJsonColumn = true → lo.operandLiterals = []) ∧
        (lo.isJsonColumn = true → hi.operandLiterals = []))
  | .inList e l => (e.HintsReach ∧ l.HintsReach) ∧ (l.isJsonColumn = true → e.operandLiterals = [])
  | .anyOp _ l r => (l.HintsReach ∧ r.HintsReach) ∧ (l.isJsonColumn = true → r.operandLiterals = [])
  | .jsonExtract base _ => ∀ lit ∈ base.literals false none, lit.compared = false
  | .reference _ => True
  | .value _ => True
  | .other _ => True
termination_by structural e

def AllHintsReach (es : List Expr) : Prop :=
  match es with
  | [] => True
  | e :: es => e.HintsReach ∧ AllHintsReach es
termination_by structural es

end

/-- The hint of a literal that is compared with a native-JSON column, and kept. -/
def HintedLiteral.Reached (lit : HintedLiteral) : Prop :=
  lit.compared = true → lit.hint = some .json ∧ lit.sent = true

theorem storageTy_of_isJsonColumn {e : Expr} (h : e.isJsonColumn = true) :
    expressionStorageTy e = some .json := by
  cases e with
  | reference column => exact congrArg some (of_decide_eq_true h)
  | _ => exact absurd h (by simp [Expr.isJsonColumn])

/-- A literal of an operand itself. -/
theorem reached_iff {lits : List Value} {compared : Bool} {hint : Option DbType} :
    (∀ lit ∈ lits.map fun v => (⟨v, compared, hint, true⟩ : HintedLiteral), lit.Reached) ↔
      (compared = true → hint ≠ some .json → lits = []) := by
  constructor
  · intro h hc hh
    rw [List.eq_nil_iff_forall_not_mem]
    intro v hv
    exact hh (h _ (List.mem_map_of_mem hv) hc).1
  · intro h lit hlit hc
    obtain ⟨v, hv, rfl⟩ := List.mem_map.mp hlit
    refine ⟨?_, rfl⟩
    by_contra hh
    rw [h hc hh] at hv
    exact absurd hv List.not_mem_nil

/-- A dropped literal reaches nothing. -/
theorem reached_drop {lit : HintedLiteral} : lit.drop.Reached ↔ lit.compared = false := by
  simp [HintedLiteral.Reached, HintedLiteral.drop]

/-- The hint of an operand that gets its storage type from a comparison's other side. -/
theorem hint_kept {e e' : Expr} :
    e.isJsonColumn = true → expressionStorageTy e ≠ some .json → e'.operandLiterals = [] :=
  fun h hne => absurd (storageTy_of_isJsonColumn h) hne

/-- A bound of a `Between` gets no hint from the other bound. -/
theorem hint_other {e e' : Expr} {P : Prop} :
    ((e.isJsonColumn || e'.isJsonColumn) = true → expressionStorageTy e ≠ some .json → P) ↔
      (expressionStorageTy e ≠ some .json → e'.isJsonColumn = true → P) := by
  constructor
  · intro h hne he'
    exact h (by rw [he', Bool.or_true]) hne
  · intro h hor hne
    rcases (Bool.or_eq_true _ _).mp hor with he | he'
    · exact absurd (storageTy_of_isJsonColumn he) hne
    · exact h hne he'

/-- Without a hint there is none of native JSON. -/
theorem hint_none {c : Bool} {P : Prop} :
    (c = true → (none : Option DbType) ≠ some .json → P) ↔ (c = true → P) :=
  ⟨fun h hc => h hc (by simp), fun h hc _ => h hc⟩

mutual

/-- **The hints that reach their literals.** -/
theorem literals_reached : ∀ (e : Expr) {compared : Bool} {hint : Option DbType},
    (∀ lit ∈ e.literals compared hint, lit.Reached) ↔
      e.HintsReach ∧ (compared = true → hint ≠ some .json → e.operandLiterals = [])
  | .binaryOp _ l r, compared, hint | .isSuperset l r, compared, hint | .intersects l r, compared,
      hint => by
      rw [Expr.literals, List.forall_mem_append, literals_reached l, literals_reached r]
      simp only [Expr.HintsReach, Expr.operandLiterals, implies_true, and_true]
      exact and_congr (and_iff_left hint_kept) (and_iff_left hint_kept)
  | .startsWith l r, compared, hint => by
      rw [Expr.literals, List.forall_mem_append, literals_reached l, literals_reached r]
      simp only [Expr.HintsReach, Expr.operandLiterals, implies_true, and_true, Bool.false_eq_true,
        false_implies]
  | .and es, compared, hint | .or es, compared, hint => by
      rw [Expr.literals, allLiterals_reached es]
      simp [Expr.HintsReach, Expr.operandLiterals]
  | .not e, compared, hint | .isNull e, compared, hint | .length e, compared, hint => by
      rw [Expr.literals, literals_reached e]
      simp [Expr.HintsReach, Expr.operandLiterals]
  | .between e lo hi, compared, hint => by
      rw [Expr.literals, List.forall_mem_append, List.forall_mem_append, literals_reached e,
        literals_reached lo, literals_reached hi]
      simp only [Expr.HintsReach, Expr.operandLiterals, implies_true, and_true]
      rw [hint_none, hint_other, hint_other, forall_and]
      tauto
  | .inList e l, compared, hint => by
      rw [Expr.literals, List.forall_mem_append, literals_reached e, literals_reached l]
      simp only [Expr.HintsReach, Expr.operandLiterals, implies_true, and_true]
      rw [hint_none, and_iff_left hint_kept]
      tauto
  | .anyOp op l r, compared, hint => by
      rw [Expr.literals, List.forall_mem_append, literals_reached l, literals_reached r]
      simp only [Expr.HintsReach, Expr.operandLiterals, implies_true, and_true]
      rw [hint_none, and_iff_left hint_kept]
      tauto
  | .jsonExtract base path, compared, hint => by
      rw [Expr.literals]
      simp only [Expr.HintsReach, Expr.operandLiterals, implies_true, and_true]
      rw [List.forall_mem_map]
      exact forall₂_congr fun lit _ => reached_drop
  | .reference column, compared, hint => by
      simp [Expr.literals, Expr.HintsReach, Expr.operandLiterals]
  | .value v, compared, hint => by
      cases v with
      | list items => exact reached_iff.trans (iff_of_eq (true_and _)).symm
      | _ => exact (@reached_iff [_] _ _).trans (iff_of_eq (true_and _)).symm
  | .list es, compared, hint => by
      rw [Expr.literals, allLiterals_reached es, Expr.HintsReach, Expr.operandLiterals]
  | .other debug, compared, hint => by
      simp [Expr.literals, Expr.HintsReach, Expr.operandLiterals]

theorem allLiterals_reached : ∀ (es : List Expr) {compared : Bool} {hint : Option DbType},
    (∀ lit ∈ allLiterals compared hint es, lit.Reached) ↔
      AllHintsReach es ∧ (compared = true → hint ≠ some .json → Expr.operandLiterals.ofList es = [])
  | [], compared, hint => by
      simp [allLiterals, AllHintsReach, Expr.operandLiterals.ofList]
  | e :: es, compared, hint => by
      rw [allLiterals, List.forall_mem_append, literals_reached e, allLiterals_reached es,
        AllHintsReach, Expr.operandLiterals.ofList]
      rw [List.append_eq_nil_iff]
      tauto

end

/-! ## Parameters -/

section

variable [Sdk] {table : Table}

/-- The parameters from `b` to `b'` are the literals that are sent, each encoded by its hint. -/
def Encodes (lits : List HintedLiteral) (b b' : Binds) : Prop :=
  ∃ new, b'.values = b.values ++ new ∧
    List.Forall₂ (fun lit p => toSurrealWithStorage lit.value lit.hint = .ok p.2)
      (lits.filter HintedLiteral.sent) new

theorem Encodes.nil (b : Binds) : Encodes [] b b := ⟨[], (List.append_nil _).symm, .nil⟩

theorem Encodes.append {lits lits' : List HintedLiteral} {b₀ b₁ b₂ : Binds} (h : Encodes lits b₀ b₁)
    (h' : Encodes lits' b₁ b₂) : Encodes (lits ++ lits') b₀ b₂ := by
  obtain ⟨new, hb, hnew⟩ := h
  obtain ⟨new', hb', hnew'⟩ := h'
  refine ⟨new ++ new', by rw [hb', hb, List.append_assoc], ?_⟩
  rw [List.filter_append]
  exact List.rel_append hnew hnew'

/-- A dropped literal has no parameter. -/
theorem Encodes.dropped (lits : List HintedLiteral) (b : Binds) :
    Encodes (lits.map HintedLiteral.drop) b b := by
  refine ⟨[], (List.append_nil _).symm, ?_⟩
  have hnone : (lits.map HintedLiteral.drop).filter HintedLiteral.sent = [] := by
    rw [List.filter_eq_nil_iff]
    intro lit hlit
    obtain ⟨lit', _, rfl⟩ := List.mem_map.mp hlit
    simp [HintedLiteral.drop]
  rw [hnone]
  exact .nil

theorem Encodes.push {v : Value} {compared : Bool} {hint : Option DbType} {s : SurValue} (b : Binds)
    (h : toSurrealWithStorage v hint = .ok s) :
    Encodes [⟨v, compared, hint, true⟩] b (b.push s).2 :=
  ⟨[(b.nextName, s)], rfl, .cons h .nil⟩

theorem bindItems_encodes {compared : Bool} :
    ∀ {items : List Value} {b b' : Binds} {st : Option DbType}
    {parts : List (List Token)}, bindItems b st items = .ok (parts, b') →
    Encodes (items.map fun v => ⟨v, compared, st, true⟩) b b'
  | [], b, b', st, parts, h => by
      injection h with h; injection h with _ h; subst h
      exact .nil b
  | v :: items, b, b', st, parts, h => by
      rw [bindItems] at h
      obtain ⟨s, hs, h₁⟩ := bind_eq_ok h
      obtain ⟨⟨rest, b₁⟩, hrest, hok⟩ := bind_eq_ok h₁
      injection hok with hok; injection hok with _ hb; subst hb
      exact (Encodes.push b hs).append (bindItems_encodes hrest)

theorem valueToBinds_encodes {compared : Bool} {v : Value} {b b' : Binds} {st : Option DbType}
    {toks : List Token} (h : valueToBinds b v st = .ok (toks, b')) :
    Encodes ((Expr.value v).literals compared st) b b' := by
  cases v with
  | list items =>
      obtain ⟨⟨parts, b₁⟩, hparts, hok⟩ := bind_eq_ok h
      injection hok with hok; injection hok with _ hb; subst hb
      exact bindItems_encodes hparts
  | _ =>
      obtain ⟨s, hs, hok⟩ := bind_eq_ok h
      injection hok with hok; injection hok with _ hb; subst hb
      exact .push b hs

theorem encodes_cases : RenderCases table
    (fun e st b _ b' => ∀ compared, Encodes (e.literals compared st) b b')
    (fun es st b _ b' => ∀ compared, Encodes (allLiterals compared st es) b b') where
  binaryOp hl hr _ := (hl _).append (hr _)
  and hall _ := hall _
  or hall _ := hall _
  not he _ := he _
  isNullColumn _ := .nil _
  isNullPath _ _ := .dropped _ _
  isNull _ _ he _ := he _
  between he hlo hhi _ := (he _).append ((hlo _).append (hhi _))
  inList he hl _ := (he _).append (hl _)
  anyOp hl hr _ := (hl _).append (hr _)
  isSuperset hl hr _ := (hl _).append (hr _)
  intersects hl hr _ := (hl _).append (hr _)
  length he _ := he _
  startsWith he hs _ := (he _).append (hs _)
  jsonExtract _ _ := .dropped _ _
  boolColumn _ _ := .nil _
  column _ _ := .nil _
  value h _ := valueToBinds_encodes h
  list hall _ := hall _
  nil _ := .nil _
  cons he hes _ := (he _).append (hes _)

/-- **Rendering binds the literals**, each by its hint. -/
theorem renderWithStorage_encodes (e : Expr) {b b' : Binds} {st : Option DbType}
    {toks : List Token} (compared : Bool) (h : renderWithStorage table b e st = .ok (toks, b')) :
    Encodes (e.literals compared st) b b' :=
  encodes_cases.expr e h compared

/-! ## Compared literals -/

/-- Every literal that is compared with a native-JSON column has a parameter, and is bound as the
value that its text denotes. -/
structure JsonBound (e : Expr) (b b' : Binds) : Prop where
  sent : ∀ lit ∈ e.literals false none, lit.compared = true → lit.sent = true
  bound : ∃ new, b'.values = b.values ++ new ∧
    List.Forall₂ (fun lit p => lit.compared = true → jsonTextToSurreal lit.value = .ok p.2)
      ((e.literals false none).filter HintedLiteral.sent) new

/-- No JSON text denotes itself: that of a string is quoted. -/
def QuotesStrings : Prop := ∀ text, Sdk.parseJson text ≠ .ok (.string text)

omit [Sdk] in
theorem jsonValueToSurreal_string {json : JsonValue} {text : String}
    (h : jsonValueToSurreal json = .string text) : json = .string text := by
  cases json with
  | string v =>
      injection h with h
      rw [h]
  | number n => cases n with
    | posInt v =>
        change (if v.toNat < 2 ^ 63 then SurValue.number (.int v.toInt64) else _) = _ at h
        split at h <;> exact absurd h (by simp)
    | _ => exact absurd h (by simp [jsonValueToSurreal, jsonNumberToSurreal])
  | _ => exact absurd h (by simp [jsonValueToSurreal])

/-- Nothing is encoded as the value its text denotes unless the hint says so. -/
theorem bound_as_json {v : Value} {hint : Option DbType} {s : SurValue} (hquotes : QuotesStrings)
    (h : toSurrealWithStorage v hint = .ok s) : jsonTextToSurreal v = .ok s ↔
    hint = some .json := by
  constructor
  · intro hjson
    by_contra hne
    rw [toSurrealWithStorage, if_neg hne] at h
    cases v with
    | null =>
        injection h with h
        injection hjson with hjson
        exact absurd (h.trans hjson.symm) (by simp)
    | string text =>
        injection h with h
        unfold jsonTextToSurreal at hjson
        cases hparse : Sdk.parseJson text with
        | error error =>
            simp only [hparse] at hjson
            exact absurd hjson (by simp)
        | ok json =>
            simp only [hparse] at hjson
            injection hjson with hjson
            have hself := jsonValueToSurreal_string (hjson.trans h.symm)
            rw [hself] at hparse
            exact hquotes text hparse
    | _ => exact absurd hjson (by simp [jsonTextToSurreal])
  · intro hhint
    rw [toSurrealWithStorage, if_pos hhint] at h
    exact h

/-- Bound literals, by their hints. -/
theorem forall₂_hint (hquotes : QuotesStrings) {lits : List HintedLiteral}
    {new : List (String × SurValue)}
    (h : List.Forall₂ (fun lit p => toSurrealWithStorage lit.value lit.hint = .ok p.2) lits new) :
    List.Forall₂ (fun lit p => lit.compared = true → jsonTextToSurreal lit.value = .ok p.2) lits
    new ↔
      ∀ lit ∈ lits, lit.compared = true → lit.hint = some .json := by
  induction h with
  | nil => simp
  | cons h _ ih =>
      rw [List.forall₂_cons, List.forall_mem_cons, ih, bound_as_json hquotes h]

/-- **Storage hints reach every compared literal** of exactly those expressions in which no literal
stands where a hint is not handed on. -/
theorem json_hints_iff (hquotes : QuotesStrings) {e : Expr} {b b' : Binds} {toks : List Token}
    (h : render table b e = .ok (toks, b')) : JsonBound e b b' ↔ e.HintsReach := by
  obtain ⟨new, hb, hnew⟩ := renderWithStorage_encodes e false h
  have hreached : (∀ lit ∈ e.literals false none, lit.Reached) ↔ e.HintsReach := by
    rw [literals_reached e]
    exact and_iff_left (by simp)
  rw [← hreached]
  constructor
  · intro hjson
    obtain ⟨new', hb', hbound⟩ := hjson.bound
    obtain rfl : new = new' := List.append_cancel_left (hb.symm.trans hb')
    intro lit hlit hc
    have hsent := hjson.sent lit hlit hc
    exact ⟨(forall₂_hint hquotes hnew).mp hbound lit (List.mem_filter.mpr ⟨hlit, hsent⟩) hc, hsent⟩
  · intro hall
    refine ⟨fun lit hlit hc => (hall lit hlit hc).2, new, hb, (forall₂_hint hquotes hnew).mpr ?_⟩
    intro lit hlit hc
    exact (hall lit (List.mem_filter.mp hlit).1 hc).1

end

/-! ## Profiles -/

theorem plain_quotesStrings : @QuotesStrings plain := by
  intro text h
  change Plain.parseJson text = .ok (.string text) at h
  unfold Plain.parseJson at h
  split at h
  · exact absurd h (by simp)
  · exact absurd h (by simp)
  · exact absurd h (by simp)
  · rename_i cs htext
    injection h with h; injection h with h
    -- the quotes are no part of the string
    have hlen : text.toList.length = cs.dropLast.length := by rw [← h, String.toList_ofList]
    rw [htext, List.length_cons, List.length_dropLast] at hlen
    omega
  · exact absurd h (by simp)
  · split at h <;> exact absurd h (by simp)

/-- The column of profiles. -/
def profileColumn : Column := ⟨⟨0, 2⟩, "profile", .string, .json⟩

/-- The profile is one of these texts: as a list it is in, and as a list any of which it equals. -/
def profileIn (texts : List Value) : Expr :=
  .inList (.reference profileColumn) (.value (.list texts))

def profileAny (texts : List Value) : Expr :=
  .anyOp .eq (.reference profileColumn) (.value (.list texts))

/-- A text in a list is bound as what it denotes. -/
theorem profile_in_true : @JsonBound plain (profileIn [.string "true"]) .empty
    ⟨[("p0", .bool true)]⟩ := by
  let := plain
  have hrender : render people .empty (profileIn [.string "true"]) = .ok
      ([.atom (.ref (.field "profile") []), .op .inOp, .opening .array, .atom (.param "p0"),
        .closing .array], ⟨[("p0", .bool true)]⟩) := rfl
  exact (json_hints_iff plain_quotesStrings hrender).mpr ⟨⟨trivial, trivial⟩, by decide⟩

/-- **A text that is bound as itself.** The list of an `AnyOp` has no hint. -/
theorem profile_any_text : let := plain
    render people .empty (profileAny [.string "true"]) = .ok
      ([.opening .array, .atom (.param "p0"), .closing .array, .op .contains,
        .atom (.ref (.field "profile") [])], ⟨[("p0", .string "true")]⟩) ∧
      jsonTextToSurreal (.string "true") = .ok (.bool true) ∧
      ¬ JsonBound (profileAny [.string "true"]) .empty ⟨[("p0", .string "true")]⟩ := by
  let := plain
  refine ⟨rfl, rfl, fun hjson => ?_⟩
  obtain ⟨new, hnew, hbound⟩ := hjson.bound
  obtain rfl : [("p0", SurValue.string "true")] = new := hnew
  cases hbound with
  | cons hlit _ => exact absurd (hlit rfl) (by decide)

end ToastySurreal
