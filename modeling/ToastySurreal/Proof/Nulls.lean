import ToastySurreal.Op.Write
import ToastySurreal.Plain
import ToastySurreal.Predicate
import ToastySurreal.Proof.Codec
import ToastySurreal.Proof.Grouping

/-!
# Comparisons with something that is absent

`NONE` is below every literal, so `column < literal` holds of a record that lacks the
column, and only `StartsWith` is rendered with a guard against it. `null_reading_iff`
says of which filters and records the rendered predicate selects what Toasty means:
the text must be an expression, which it is not when a bool column is compared or a
conjunction is empty, and the filter must not turn on such a comparison.
-/

namespace ToastySurreal

open Precedence Results

/-! ## Texts that are no expression -/

def Target.isFlag : Target → Bool
  | .column c => c.ty == .bool
  | .path _ _ => false

mutual

/-- No bool column is compared and no conjunction or disjunction is empty. -/
def Filter.readable : Filter → Bool
  | .comparison c => !c.target.isFlag
  | .and fs | .or fs => !fs.isEmpty && allReadable fs

def allReadable : List Filter → Bool
  | [] => true
  | f :: fs => f.readable && allReadable fs

end

/-- A text with two comparisons of one operand, or with empty parentheses. -/
inductive Broken : List Token → Prop where
  | chained (ks : List Token) {o₁ o₂ : Op} (a : Atom) (ls : List Token)
      (h₁ : sqlGrammar.prec o₁ = 3) (h₂ : sqlGrammar.prec o₂ = 3) :
      Broken (ks ++ (.op o₁ :: .atom a :: .op o₂ :: ls))
  | empty (ks ls : List Token) : Broken (ks ++ (.opening .paren :: .closing .paren :: ls))

theorem Broken.append_left {toks : List Token} (h : Broken toks) (ks : List Token) :
    Broken (ks ++ toks) := by
  cases h with
  | chained ks' a ls h₁ h₂ => rw [← List.append_assoc]; exact .chained _ a ls h₁ h₂
  | empty ks' ls => rw [← List.append_assoc]; exact .empty _ ls

theorem Broken.append_right {toks : List Token} (h : Broken toks) (ls : List Token) :
    Broken (toks ++ ls) := by
  cases h with
  | chained ks a ls' h₁ h₂ => rw [List.append_assoc]; exact .chained ks a _ h₁ h₂
  | empty ks ls' => rw [List.append_assoc]; exact .empty ks _

theorem Broken.parens {toks : List Token} (h : Broken toks) : Broken (parens toks) :=
  (h.append_right [.closing .paren]).append_left [.opening .paren]

theorem Broken.joinTokens {sep : Token} : ∀ {parts : List (List Token)},
    (∃ part ∈ parts, Broken part) → Broken (joinTokens sep parts)
  | [], h => by obtain ⟨_, hp, _⟩ := h; exact absurd hp List.not_mem_nil
  | part :: parts, h => by
      rw [joinTokens_cons]
      obtain ⟨p, hp, hb⟩ := h
      rcases List.mem_cons.mp hp with rfl | hp
      · exact hb.append_right _
      · obtain ⟨before, after, rfl⟩ := List.append_of_mem hp
        rw [List.flatMap_append, List.flatMap_cons]
        exact (((hb.append_left [sep]).append_right _).append_left _).append_left _

theorem Broken.parse {toks : List Token} (h : Broken toks) : parse sqlGrammar toks = none := by
  cases h with
  | chained ks a ls h₁ h₂ =>
      exact parse_chained (h₁.trans h₂.symm) (by rw [h₂]; rfl) a ks ls
  | empty ks ls => exact parse_empty_bracket rfl _ ks ls

/-! ## What is rendered -/

theorem CompareOp.prec_sym (op : CompareOp) : sqlGrammar.prec op.binary.sym = 3 := by
  cases op <;> rfl

mutual

theorem filter_onColumns : ∀ f : Filter, f.expr.onColumns = true
  | .comparison c => by
      cases c with
      | targetFirst op target v => cases target <;> rfl
      | literalFirst op v target => cases target <;> rfl
      | between target low high => cases target <;> rfl
      | inList target items asExpr =>
          have hitems : ∀ vs : List Literal,
              Expr.onColumns.allOnColumns (vs.map fun v => .value v.1) = true := by
            intro vs
            induction vs with
            | nil => rfl
            | cons v vs ih => exact ih
          cases asExpr with
          | true => cases target <;> exact hitems items
          | false => cases target <;> rfl
      | startsWith target start => cases target <;> rfl
  | .and fs => filters_onColumns fs
  | .or fs => filters_onColumns fs

theorem filters_onColumns : ∀ fs : List Filter, Expr.onColumns.allOnColumns (filterExprs fs) = true
  | [] => rfl
  | f :: fs => by
      simp [filterExprs, Expr.onColumns.allOnColumns, filter_onColumns f, filters_onColumns fs]

end

section Render

variable [Sdk] {table : Table}

/-- A bool column is rendered as a comparison with `true`. -/
theorem render_flag {binds binds' : Binds} {target : Target} {storageTy : Option DbType}
    {toks : List Token} (hflag : target.isFlag = true)
    (h : renderWithStorage table binds target.expr storageTy = .ok (toks, binds')) :
    ∃ a, toks = [.atom a, .op .eq, .atom .true] := by
  cases target with
  | path c p => exact absurd hflag (by simp [Target.isFlag])
  | column c =>
      have hty : c.ty = .bool := by simpa [Target.isFlag] using hflag
      rw [Target.expr, renderWithStorage] at h
      simp only [hty, if_true] at h
      injection h with h; injection h with h _; subst h
      exact ⟨_, rfl⟩

theorem render_comparison_broken {binds binds' : Binds} {c : Comparison} {toks : List Token}
    (hflag : c.target.isFlag = true)
    (h : renderWithStorage table binds c.expr none = .ok (toks, binds')) : Broken toks := by
  cases c with
  | targetFirst op target v =>
      rw [Comparison.expr, renderWithStorage] at h
      obtain ⟨⟨t₁, b₁⟩, h₁, h⟩ := bind_eq_ok h
      obtain ⟨⟨t₂, b₂⟩, h₂, h⟩ := bind_eq_ok h
      injection h with h; injection h with h _; subst h
      obtain ⟨a, rfl⟩ := render_flag hflag h₁
      -- a flag ends in `= true`, and comparisons do not chain
      exact .chained [.atom a] _ _ rfl (CompareOp.prec_sym op)
  | literalFirst op v target =>
      rw [Comparison.expr, renderWithStorage] at h
      obtain ⟨⟨t₁, b₁⟩, h₁, h⟩ := bind_eq_ok h
      obtain ⟨⟨t₂, b₂⟩, h₂, h⟩ := bind_eq_ok h
      injection h with h; injection h with h _; subst h
      obtain ⟨a, rfl⟩ := render_flag hflag h₂
      exact .chained t₁ _ _ (CompareOp.prec_sym op) rfl
  | between target low high =>
      rw [Comparison.expr, renderWithStorage] at h
      obtain ⟨⟨t₁, b₁⟩, h₁, h⟩ := bind_eq_ok h
      obtain ⟨⟨t₂, b₂⟩, h₂, h⟩ := bind_eq_ok h
      obtain ⟨⟨t₃, b₃⟩, h₃, h⟩ := bind_eq_ok h
      injection h with h; injection h with h _; subst h
      obtain ⟨a, rfl⟩ := render_flag hflag h₁
      exact Broken.parens (.chained [.atom a] _ _ rfl rfl)
  | inList target items asExpr =>
      rw [Comparison.expr, renderWithStorage] at h
      obtain ⟨⟨t₁, b₁⟩, h₁, h⟩ := bind_eq_ok h
      obtain ⟨⟨t₂, b₂⟩, h₂, h⟩ := bind_eq_ok h
      injection h with h; injection h with h _; subst h
      obtain ⟨a, rfl⟩ := render_flag hflag h₁
      exact .chained [.atom a] _ _ rfl rfl
  | startsWith target start =>
      rw [Comparison.expr, renderWithStorage] at h
      obtain ⟨⟨t₁, b₁⟩, h₁, h⟩ := bind_eq_ok h
      obtain ⟨⟨t₂, b₂⟩, h₂, h⟩ := bind_eq_ok h
      injection h with h; injection h with h _; subst h
      obtain ⟨a, rfl⟩ := render_flag hflag h₁
      exact Broken.parens (.chained [.atom a] _ _ rfl rfl)

omit [Sdk] in
/-- Parentheses around a conjunction or disjunction that is empty or has a broken part. -/
theorem broken_chain {o : Op} {fs : List Filter} {parts : List (List Token)}
    (hlen : parts.length = fs.length) (hr : (!fs.isEmpty && allReadable fs) = false)
    (hparts : allReadable fs = false → ∃ part ∈ parts, Broken part) :
    Broken (parens (joinTokens (.op o) parts)) := by
  cases hfs : fs.isEmpty with
  | true =>
      obtain rfl : fs = [] := List.isEmpty_iff.mp hfs
      obtain rfl : parts = [] := List.length_eq_zero_iff.mp hlen
      exact .empty [] []
  | false =>
      rw [hfs] at hr
      exact (Broken.joinTokens (hparts hr)).parens

mutual

/-- **A filter that is not readable is rendered as no expression.** -/
theorem render_broken : ∀ {f : Filter} {binds binds' : Binds} {toks : List Token},
    f.readable = false → renderWithStorage table binds f.expr none = .ok (toks, binds') →
    Broken toks
  | .comparison c, binds, binds', toks, hr, h =>
      render_comparison_broken (by simpa [Filter.readable] using hr) h
  | .and fs, binds, binds', toks, hr, h | .or fs, binds, binds', toks, hr, h => by
      rw [Filter.expr, renderWithStorage] at h
      obtain ⟨⟨parts, b₁⟩, h₁, h⟩ := bind_eq_ok h
      injection h with h; injection h with h _; subst h
      obtain ⟨hlen, hparts⟩ := renderOperands_broken h₁
      exact broken_chain hlen hr hparts

theorem renderOperands_broken : ∀ {fs : List Filter} {binds binds' : Binds}
    {parts : List (List Token)}, renderOperands table binds (filterExprs fs) = .ok (parts, binds') →
    parts.length = fs.length ∧ (allReadable fs = false → ∃ part ∈ parts, Broken part)
  | [], binds, binds', parts, h => by
      injection h with h; injection h with h _; subst h
      exact ⟨rfl, fun hr => absurd hr (by simp [allReadable])⟩
  | f :: fs, binds, binds', parts, h => by
      rw [filterExprs, renderOperands] at h
      obtain ⟨⟨part, b₁⟩, h₁, h⟩ := bind_eq_ok h
      obtain ⟨⟨rest, b₂⟩, h₂, h⟩ := bind_eq_ok h
      injection h with h; injection h with h _; subst h
      obtain ⟨hlen, hrest⟩ := renderOperands_broken h₂
      refine ⟨by simp [hlen], fun hr => ?_⟩
      rw [allReadable, Bool.and_eq_false_iff] at hr
      rcases hr with hr | hr
      · exact ⟨part, List.mem_cons_self .., render_broken hr h₁⟩
      · obtain ⟨p, hp, hb⟩ := hrest hr
        exact ⟨p, List.mem_cons_of_mem _ hp, hb⟩

end

end Render

/-! ## Readable filters are well grouped -/

theorem target_level {target : Target} (h : target.isFlag = false) : target.expr.level = 6 := by
  cases target with
  | path c p => rfl
  | column c =>
      have hty : c.ty ≠ .bool := by simpa [Target.isFlag] using h
      exact if_neg hty

theorem target_misplaced {target : Target} (h : target.isFlag = false) :
    target.expr.misplaced false = 0 := by
  cases target with
  | path c p => rfl
  | column c =>
      have hty : c.ty ≠ .bool := by simpa [Target.isFlag] using h
      exact if_neg hty

theorem target_grouped (target : Target) : target.expr.grouped = true := by
  cases target <;> rfl

theorem listExpr_grouped (items : List Literal) (asExpr : Bool) :
    (listExpr items asExpr).grouped = true ∧ (listExpr items asExpr).misplaced false = 0 ∧
      (listExpr items asExpr).level = 6 := by
  have hitems : ∀ vs : List Literal, allGrouped (vs.map fun v => .value v.1) = true ∧
      allMisplaced false (vs.map fun v => .value v.1) = 0 := by
    intro vs
    induction vs with
    | nil => exact ⟨rfl, rfl⟩
    | cons v vs ih => exact ⟨ih.1, by rw [List.map_cons, allMisplaced, ih.2]; rfl⟩
  cases asExpr with
  | true => exact ⟨(hitems items).1, (hitems items).2, rfl⟩
  | false => exact ⟨rfl, rfl, rfl⟩

theorem leftMin_compare (op : CompareOp) : sqlGrammar.leftMin op.binary.sym = 4 :=
  leftMin_cmp op.prec_sym

theorem comparison_grouped {c : Comparison} (h : c.target.isFlag = false) :
    c.expr.grouped = true ∧ c.expr.misplaced true = 0 := by
  have hlevel := target_level h
  have hplace := target_misplaced h
  cases c with
  | targetFirst op target v =>
      simp [Comparison.expr, Expr.grouped, Expr.misplaced, Comparison.target] at hlevel hplace ⊢
      simp [hlevel, hplace, target_grouped, leftMin_compare, CompareOp.prec_sym, level_value]
  | literalFirst op v target =>
      simp [Comparison.expr, Expr.grouped, Expr.misplaced, Comparison.target] at hlevel hplace ⊢
      simp [hlevel, hplace, target_grouped, leftMin_compare, CompareOp.prec_sym, level_value]
  | between target low high =>
      simp [Comparison.expr, Expr.grouped, Expr.misplaced, Comparison.target] at hlevel hplace ⊢
      simp [hlevel, hplace, target_grouped, level_value]
  | inList target items asExpr =>
      obtain ⟨hg, hm, hl⟩ := listExpr_grouped items asExpr
      simp [Comparison.expr, Expr.grouped, Expr.misplaced, Comparison.target] at hlevel hplace ⊢
      simp [hlevel, hplace, target_grouped, hg, hm, hl]
  | startsWith target start =>
      simp [Comparison.expr, Expr.grouped, Expr.misplaced, Comparison.target] at hlevel hplace ⊢
      simp [hlevel, hplace, target_grouped]

mutual

theorem filter_grouped : ∀ f : Filter, f.readable = true →
    f.expr.grouped = true ∧ f.expr.misplaced true = 0
  | .comparison c, h => comparison_grouped (by simpa [Filter.readable] using h)
  | .and fs, h | .or fs, h => by
      simp only [Filter.readable, Bool.and_eq_true] at h
      obtain ⟨hg, hm⟩ := filters_grouped fs h.2
      cases fs with
      | nil => exact absurd h.1 (by simp)
      | cons f fs => exact ⟨hg, hm⟩

theorem filters_grouped : ∀ fs : List Filter, allReadable fs = true →
    allGrouped (filterExprs fs) = true ∧ allMisplaced true (filterExprs fs) = 0
  | [], _ => ⟨rfl, rfl⟩
  | f :: fs, h => by
      simp only [allReadable, Bool.and_eq_true] at h
      obtain ⟨hg, hm⟩ := filter_grouped f h.1
      obtain ⟨hgs, hms⟩ := filters_grouped fs h.2
      exact ⟨by rw [filterExprs, allGrouped, hg, hgs]; rfl,
        by rw [filterExprs, allMisplaced, hm, hms]⟩

end

theorem filter_wellGrouped {f : Filter} (h : f.readable = true) : f.expr.wellGrouped = true := by
  obtain ⟨hg, hm⟩ := filter_grouped f h
  rw [Expr.wellGrouped, hg, hm]
  rfl

/-! ## Literals are never `NONE` -/

section Encode

variable [Sdk] {table : Table}

theorem toSurreal_ne_none {v : Value} {s : SurValue} (h : toSurreal v = .ok s) : s ≠ .none := by
  cases v with
  | u64 v =>
      rw [toSurreal] at h
      split at h
      · injection h with h; subst h; simp
      · injection h with h; subst h; simp
  | list items =>
      obtain ⟨out, _, h⟩ := bind_eq_ok h
      injection h with h; subst h; simp
  | record items =>
      obtain ⟨out, _, h⟩ := bind_eq_ok h
      injection h with h; subst h; simp
  | object entries =>
      obtain ⟨out, _, h⟩ := bind_eq_ok h
      injection h with h; subst h; simp
  | text kind code =>
      rw [toSurreal] at h
      split at h
      · injection h with h; subst h; simp
      · exact absurd h (by simp)
  | _ => injection h with h; subst h; simp

/-- A literal that is not null is not stored as `NONE`, not even the JSON text `null`. -/
theorem toSurrealWithStorage_ne_none {v : Value} {storageTy : Option DbType} {s : SurValue}
    (hv : v.isNull = false) (h : toSurrealWithStorage v storageTy = .ok s) : s ≠ .none := by
  unfold toSurrealWithStorage at h
  split at h
  · cases v with
    | null => exact absurd hv (by simp [Value.isNull])
    | string text =>
        rw [jsonTextToSurreal] at h
        split at h
        · injection h with h; subst h; exact jsonValueToSurreal_ne_none _
        · exact absurd h (by simp)
    | _ => exact absurd h (by simp [jsonTextToSurreal])
  · exact toSurreal_ne_none h

theorem literal_ne_none {v : Value} {storageTy : Option DbType} {s : SurValue}
    (hv : v.isNull = false) (h : toSurrealWithStorage v storageTy = .ok s) :
    literal v storageTy ≠ .none := by
  rw [literal, h]
  exact toSurrealWithStorage_ne_none hv h

theorem stored_ne_none {v : Literal} {storageTy : DbType} {binds binds' : Binds} {toks : List Token}
    (h : valueToBinds binds v.1 (some storageTy) = .ok (toks, binds')) : v.stored storageTy ≠
    .none := by
  obtain ⟨v, hv⟩ := v
  cases v with
  | list items => simp [Literal.stored]
  | _ =>
      obtain ⟨s, hs, h⟩ := bind_eq_ok h
      exact literal_ne_none hv hs

/-- The stored forms of the literals of a comparison. -/
def Comparison.literals : Comparison → List SurValue
  | .targetFirst _ target v | .literalFirst _ v target => [v.stored target.storageTy]
  | .between target low high => [low.stored target.storageTy, high.stored target.storageTy]
  | .inList target items asExpr => items.map (storedItem target.storageTy asExpr)
  | .startsWith target start => [start.stored target.storageTy]

omit [Sdk] in
theorem target_storageTy (target : Target) :
    expressionStorageTy target.expr = some target.storageTy := by
  cases target <;> rfl

theorem renderItems_ne_none {storageTy : DbType} : ∀ {items : List Literal} {binds binds' : Binds}
    {parts : List (List Token)},
    renderItems table binds (items.map fun v => .value v.1) (some storageTy) = .ok (parts, binds') →
    ∀ v ∈ items, v.stored storageTy ≠ .none
  | [], _, _, _, _ => fun v hv => absurd hv List.not_mem_nil
  | item :: items, binds, binds', parts, h => by
      rw [List.map_cons, renderItems] at h
      obtain ⟨⟨part, b₁⟩, h₁, h⟩ := bind_eq_ok h
      obtain ⟨⟨rest, b₂⟩, h₂, h⟩ := bind_eq_ok h
      rw [renderWithStorage] at h₁
      intro v hv
      rcases List.mem_cons.mp hv with rfl | hv
      · exact stored_ne_none h₁
      · exact renderItems_ne_none h₂ v hv

theorem bindItems_ne_none {storageTy : DbType} : ∀ {items : List Literal} {binds binds' : Binds}
    {parts : List (List Token)},
    bindItems binds (some storageTy) (items.map Subtype.val) = .ok (parts, binds') →
    ∀ v ∈ items, literal v.1 (some storageTy) ≠ .none
  | [], _, _, _, _ => fun v hv => absurd hv List.not_mem_nil
  | item :: items, binds, binds', parts, h => by
      rw [List.map_cons, bindItems] at h
      obtain ⟨s, hs, h⟩ := bind_eq_ok h
      obtain ⟨⟨rest, b₂⟩, h₂, h⟩ := bind_eq_ok h
      intro v hv
      rcases List.mem_cons.mp hv with rfl | hv
      · exact literal_ne_none v.2 hs
      · exact bindItems_ne_none h₂ v hv

/-- What was rendered has all its literals encoded. -/
theorem comparison_literals {binds binds' : Binds} {c : Comparison} {toks : List Token}
    (h : renderWithStorage table binds c.expr none = .ok (toks, binds')) :
    ∀ s ∈ c.literals, s ≠ .none := by
  cases c with
  | targetFirst op target v =>
      rw [Comparison.expr, renderWithStorage, target_storageTy] at h
      obtain ⟨⟨t₁, b₁⟩, h₁, h⟩ := bind_eq_ok h
      obtain ⟨⟨t₂, b₂⟩, h₂, h⟩ := bind_eq_ok h
      rw [renderWithStorage] at h₂
      simpa [Comparison.literals] using stored_ne_none h₂
  | literalFirst op v target =>
      rw [Comparison.expr, renderWithStorage, target_storageTy] at h
      obtain ⟨⟨t₁, b₁⟩, h₁, h⟩ := bind_eq_ok h
      rw [renderWithStorage] at h₁
      simpa [Comparison.literals] using stored_ne_none h₁
  | between target low high =>
      rw [Comparison.expr, renderWithStorage, target_storageTy] at h
      obtain ⟨⟨t₁, b₁⟩, h₁, h⟩ := bind_eq_ok h
      obtain ⟨⟨t₂, b₂⟩, h₂, h⟩ := bind_eq_ok h
      obtain ⟨⟨t₃, b₃⟩, h₃, h⟩ := bind_eq_ok h
      rw [renderWithStorage] at h₂ h₃
      simpa [Comparison.literals] using ⟨stored_ne_none h₂, stored_ne_none h₃⟩
  | inList target items asExpr =>
      rw [Comparison.expr, renderWithStorage, target_storageTy] at h
      obtain ⟨⟨t₁, b₁⟩, h₁, h⟩ := bind_eq_ok h
      obtain ⟨⟨t₂, b₂⟩, h₂, h⟩ := bind_eq_ok h
      intro s hs
      obtain ⟨v, hv, rfl⟩ := List.mem_map.mp hs
      -- a list of literals and a list literal bind their items alike
      cases asExpr with
      | true =>
          rw [listExpr, if_pos rfl, renderWithStorage] at h₂
          obtain ⟨⟨parts, b₃⟩, h₃, _⟩ := bind_eq_ok h₂
          exact renderItems_ne_none h₃ v hv
      | false =>
          rw [listExpr, if_neg (by simp), renderWithStorage] at h₂
          obtain ⟨⟨parts, b₃⟩, h₃, _⟩ := bind_eq_ok h₂
          exact bindItems_ne_none h₃ v hv
  | startsWith target start =>
      rw [Comparison.expr, renderWithStorage, target_storageTy] at h
      obtain ⟨⟨t₁, b₁⟩, h₁, h⟩ := bind_eq_ok h
      obtain ⟨⟨t₂, b₂⟩, h₂, h⟩ := bind_eq_ok h
      rw [renderWithStorage] at h₂
      simpa [Comparison.literals] using stored_ne_none h₂

end Encode

/-! ## What a filter denotes on a record -/

section Meaning

variable [Sdk] [SqlOrder] {table : Table} {rid : RecordId} {o : Object}

omit [Sdk] [SqlOrder] in
@[simp] theorem SurValue.isTrue_bool (b : Bool) : (SurValue.bool b).isTrue = b := by
  cases b <;> rfl

omit [Sdk] in
theorem opValue_compare (op : CompareOp) (v w : SurValue) :
    opValue op.binary.sym v w = .bool (opValue op.binary.sym v w).isTrue := by
  cases op <;> simp [CompareOp.binary, BinaryOp.sym, opValue]

/-- How a comparison comes out on a record. -/
def Comparison.result (table : Table) (rid : RecordId) (o : Object) (c : Comparison) : Bool :=
  c.outcome (c.target.value table rid o)

theorem denote_target (target : Target) (storageTy : Option DbType) :
    denote (rowAlgebra rid o) table false target.expr storageTy = target.value table rid o := by
  cases target <;> rfl

theorem denote_literal (v : Literal) (storageTy : DbType) :
    denote (rowAlgebra rid o) table false (.value v.1) (some storageTy) = v.stored storageTy := by
  obtain ⟨v, hv⟩ := v
  cases v <;> rfl

theorem denote_list (items : List Literal) (asExpr : Bool) (storageTy : DbType) :
    denote (rowAlgebra rid o) table false (listExpr items asExpr) (some storageTy) =
      .array (items.map (storedItem storageTy asExpr)) := by
  have hitems : ∀ vs : List Literal, denoteAll (rowAlgebra rid o) table false
      (vs.map fun v => .value v.1) (some storageTy) = vs.map fun v => v.stored storageTy := by
    intro vs
    induction vs with
    | nil => rfl
    | cons v vs ih => rw [List.map_cons, denoteAll, ih, denote_literal]; rfl
  cases asExpr with
  | true =>
      show SurValue.array (denoteAll (rowAlgebra rid o) table false _ (some storageTy)) = _
      rw [hitems]
      rfl
  | false =>
      show SurValue.array ((items.map Subtype.val).map fun item => literal item (some storageTy)) =
          _
      rw [List.map_map]
      rfl

/-- What is rendered for a comparison computes its outcome. -/
theorem denote_comparison (c : Comparison) :
    denote (rowAlgebra rid o) table true c.expr none = .bool (c.result table rid o) := by
  cases c with
  | targetFirst op target v =>
      rw [Comparison.expr, denote, target_storageTy, denote_target, denote_literal]
      exact opValue_compare op _ _
  | literalFirst op v target =>
      rw [Comparison.expr, denote, target_storageTy, denote_target, denote_literal]
      exact opValue_compare op _ _
  | between target low high =>
      rw [Comparison.expr, denote, target_storageTy, denote_target, denote_literal, denote_literal]
      rfl
  | inList target items asExpr =>
      rw [Comparison.expr, denote, target_storageTy, denote_target, denote_list]
      rfl
  | startsWith target start =>
      rw [Comparison.expr, denote, target_storageTy, denote_target, denote_literal]
      have hguard : ∀ x y : SurValue, (!(SqlOrder.eqv x .none) && ToastySurreal.startsWith x y) =
          ToastySurreal.startsWith x y := by
        intro x y
        cases hs : ToastySurreal.startsWith x y with
        | false => simp
        | true =>
            cases x with
            | string s => simp [SqlOrder.eqv, SqlOrder.none_lt (.string s) (by simp)]
            | _ => exact absurd hs (by simp [ToastySurreal.startsWith])
      show SurValue.bool _ = SurValue.bool _
      simp only [rowAlgebra, opValue, SurValue.isTrue_bool, List.headD_cons, List.getD_cons_succ,
        List.getD_cons_zero, hguard]
      rfl

omit [Sdk] in
theorem foldl_and (bs : List Bool) : ∀ b : Bool, (bs.map SurValue.bool).foldl
    ((rowAlgebra rid o).op .and) (.bool b) = .bool (b && bs.all id) := by
  induction bs with
  | nil => intro b; simp
  | cons c bs ih =>
      intro b
      have hop : (rowAlgebra rid o).op .and (.bool b) (.bool c) = .bool (b && c) := by
        simp [rowAlgebra, opValue]
      rw [List.map_cons, List.foldl_cons, hop, ih, List.all_cons, Bool.and_assoc]
      rfl

omit [Sdk] in
theorem foldl_or (bs : List Bool) : ∀ b : Bool, (bs.map SurValue.bool).foldl
    ((rowAlgebra rid o).op .or) (.bool b) = .bool (b || bs.any id) := by
  induction bs with
  | nil => intro b; simp
  | cons c bs ih =>
      intro b
      have hop : (rowAlgebra rid o).op .or (.bool b) (.bool c) = .bool (b || c) := by
        simp [rowAlgebra, opValue]
      rw [List.map_cons, List.foldl_cons, hop, ih, List.any_cons, Bool.or_assoc]
      rfl

omit [Sdk] in
theorem chainOf_and (bs : List Bool) :
    chainOf (rowAlgebra rid o) .and (.bool true) (bs.map SurValue.bool) = .bool (bs.all id) := by
  cases bs with
  | nil => rfl
  | cons b bs => exact foldl_and bs b

omit [Sdk] in
theorem chainOf_or (bs : List Bool) :
    chainOf (rowAlgebra rid o) .or (.bool false) (bs.map SurValue.bool) = .bool (bs.any id) := by
  cases bs with
  | nil => rfl
  | cons b bs => exact foldl_or bs b

omit [Sdk] [SqlOrder] in
theorem evalAnd_eq (value : Comparison → Bool) : ∀ fs : List Filter,
    evalAnd value fs = (fs.map (Filter.eval value)).all id
  | [] => rfl
  | f :: fs => by rw [evalAnd, evalAnd_eq value fs]; rfl

omit [Sdk] [SqlOrder] in
theorem evalOr_eq (value : Comparison → Bool) : ∀ fs : List Filter,
    evalOr value fs = (fs.map (Filter.eval value)).any id
  | [] => rfl
  | f :: fs => by rw [evalOr, evalOr_eq value fs]; rfl

mutual

theorem denote_filter : ∀ f : Filter, denote (rowAlgebra rid o) table true f.expr none =
    .bool (f.eval (Comparison.result table rid o))
  | .comparison c => denote_comparison c
  | .and fs => by
      rw [Filter.expr, denote, denote_filters fs, chainOf_and, Filter.eval, evalAnd_eq]
  | .or fs => by
      rw [Filter.expr, denote, denote_filters fs, chainOf_or, Filter.eval, evalOr_eq]

theorem denote_filters : ∀ fs : List Filter,
    denoteAll (rowAlgebra rid o) table true (filterExprs fs) none =
    (fs.map (Filter.eval (Comparison.result table rid o))).map SurValue.bool
  | [] => rfl
  | f :: fs => by rw [filterExprs, denoteAll, denote_filter f, denote_filters fs]; rfl

end

/-! ## Turning on something that is absent -/

/-- The comparisons that hold of what is below everything. -/
def Comparison.passesAbsent : Comparison → Bool
  | .targetFirst .lt _ _ | .targetFirst .le _ _ | .literalFirst .gt _ _ | .literalFirst .ge _ _ =>
      true
  | _ => false

mutual

/-- The filter is meant to be false, and a `<` or `<=` comparison with something absent
makes it true: in a conjunction all other operands are meant to hold or turn as well, in
a disjunction none is meant to hold. -/
def Filter.turnsOnAbsent (table : Table) (rid : RecordId) (o : Object) : Filter → Bool
  | .comparison c => decide (c.target.value table rid o = .none) && c.passesAbsent
  | .and fs => anyTurns table rid o fs && allTurnOrHold table rid o fs
  | .or fs => anyTurns table rid o fs && !evalOr (Comparison.reading table rid o) fs

def anyTurns (table : Table) (rid : RecordId) (o : Object) : List Filter → Bool
  | [] => false
  | f :: fs => f.turnsOnAbsent table rid o || anyTurns table rid o fs

def allTurnOrHold (table : Table) (rid : RecordId) (o : Object) : List Filter → Bool
  | [] => true
  | f :: fs =>
      (f.turnsOnAbsent table rid o || f.reading table rid o) && allTurnOrHold table rid o fs

end

omit [Sdk] in
theorem opValue_none {op : CompareOp} {s : SurValue} (h : s ≠ .none) :
    (opValue op.binary.sym .none s).isTrue = (op == .lt || op == .le) ∧
      (opValue op.binary.sym s .none).isTrue = (op == .gt || op == .ge) := by
  have habove : SqlOrder.le s .none = false := SqlOrder.none_lt s h
  have hbelow : SqlOrder.le .none s = true := by
    rcases SqlOrder.le_total .none s with hle | hle
    · exact hle
    · exact absurd hle (by simp [habove])
  cases op <;>
    simp [CompareOp.binary, BinaryOp.sym, opValue, SqlOrder.eqv, habove, hbelow]

/-- Of something absent, a comparison with literals comes out true when it asks for less. -/
theorem outcome_none {c : Comparison} (h : ∀ s ∈ c.literals, s ≠ .none) :
    c.outcome .none = c.passesAbsent := by
  cases c with
  | targetFirst op target v =>
      have hs : v.stored target.storageTy ≠ .none := by simpa [Comparison.literals] using h
      rw [Comparison.outcome, (opValue_none hs).1]
      cases op <;> rfl
  | literalFirst op v target =>
      have hs : v.stored target.storageTy ≠ .none := by simpa [Comparison.literals] using h
      rw [Comparison.outcome, (opValue_none hs).2]
      cases op <;> rfl
  | between target low high =>
      have hlow : low.stored target.storageTy ≠ .none := h _ (List.mem_cons_self ..)
      simp [Comparison.outcome, opValue, SqlOrder.none_lt _ hlow, Comparison.passesAbsent]
  | inList target items asExpr =>
      show (items.map (storedItem target.storageTy asExpr)).any (SqlOrder.eqv .none) = false
      rw [List.any_eq_false]
      intro s hs
      simp [SqlOrder.eqv, SqlOrder.none_lt s (h s hs)]
  | startsWith target start => rfl

theorem result_eq {c : Comparison} (h : ∀ s ∈ c.literals, s ≠ .none) :
    c.result table rid o =
    (c.reading table rid o || (Filter.comparison c).turnsOnAbsent table rid o) := by
  rw [Comparison.result, Comparison.reading, Filter.turnsOnAbsent]
  by_cases hx : c.target.value table rid o = .none
  · simp [hx, outcome_none h]
  · simp [hx]

theorem not_reading_of_turns {c : Comparison}
    (h : (Filter.comparison c).turnsOnAbsent table rid o = true) : c.reading table rid o =
    false := by
  simp only [Filter.turnsOnAbsent, Bool.and_eq_true, decide_eq_true_eq] at h
  simp [Comparison.reading, h.1]

mutual

/-- Every comparison of the filter has its literals encoded. -/
def Filter.Encoded : Filter → Prop
  | .comparison c => ∀ s ∈ c.literals, s ≠ .none
  | .and fs | .or fs => AllEncoded fs

def AllEncoded : List Filter → Prop
  | [] => True
  | f :: fs => f.Encoded ∧ AllEncoded fs

end

omit [SqlOrder] in
mutual

theorem render_encoded : ∀ {f : Filter} {binds binds' : Binds} {toks : List Token},
    renderWithStorage table binds f.expr none = .ok (toks, binds') → f.Encoded
  | .comparison c, _, _, _, h => comparison_literals h
  | .and fs, binds, binds', toks, h | .or fs, binds, binds', toks, h => by
      rw [Filter.expr, renderWithStorage] at h
      obtain ⟨⟨parts, b₁⟩, h₁, h⟩ := bind_eq_ok h
      exact renderOperands_encoded h₁

theorem renderOperands_encoded : ∀ {fs : List Filter} {binds binds' : Binds}
    {parts : List (List Token)},
    renderOperands table binds (filterExprs fs) = .ok (parts, binds') → AllEncoded fs
  | [], _, _, _, _ => trivial
  | f :: fs, binds, binds', parts, h => by
      rw [filterExprs, renderOperands] at h
      obtain ⟨⟨part, b₁⟩, h₁, h⟩ := bind_eq_ok h
      obtain ⟨⟨rest, b₂⟩, h₂, h⟩ := bind_eq_ok h
      exact ⟨render_encoded h₁, renderOperands_encoded h₂⟩

end

/-- What is rendered for a filter computes what is meant, unless the filter turns. -/
structure Tracks (table : Table) (rid : RecordId) (o : Object) (f : Filter) : Prop where
  result : f.eval (Comparison.result table rid o) =
    (f.reading table rid o || f.turnsOnAbsent table rid o)
  false_of_turns : f.turnsOnAbsent table rid o = true → f.reading table rid o = false

theorem evalAnd_result : ∀ {fs : List Filter}, (∀ f ∈ fs, Tracks table rid o f) →
    evalAnd (Comparison.result table rid o) fs = allTurnOrHold table rid o fs
  | [], _ => rfl
  | f :: fs, h => by
      rw [evalAnd, allTurnOrHold, (h f (List.mem_cons_self ..)).result, Bool.or_comm,
        evalAnd_result fun g hg => h g (List.mem_cons_of_mem _ hg)]

theorem evalOr_result : ∀ {fs : List Filter}, (∀ f ∈ fs, Tracks table rid o f) →
    evalOr (Comparison.result table rid o) fs =
      (evalOr (Comparison.reading table rid o) fs || anyTurns table rid o fs)
  | [], _ => rfl
  | f :: fs, h => by
      rw [evalOr, evalOr, anyTurns, (h f (List.mem_cons_self ..)).result,
        evalOr_result fun g hg => h g (List.mem_cons_of_mem _ hg), Filter.reading]
      cases f.eval (Comparison.reading table rid o) <;> cases f.turnsOnAbsent table rid o <;> simp

theorem evalAnd_of_turns : ∀ {fs : List Filter}, (∀ f ∈ fs, Tracks table rid o f) →
    anyTurns table rid o fs = true → evalAnd (Comparison.reading table rid o) fs = false
  | [], _, ht => absurd ht (by simp [anyTurns])
  | f :: fs, h, ht => by
      rw [anyTurns, Bool.or_eq_true] at ht
      rw [evalAnd, Bool.and_eq_false_iff]
      rcases ht with ht | ht
      · exact .inl ((h f (List.mem_cons_self ..)).false_of_turns ht)
      · exact .inr (evalAnd_of_turns (fun g hg => h g (List.mem_cons_of_mem _ hg)) ht)

/-- When all operands turn or hold and none turns, all hold. -/
theorem evalAnd_of_not_turns : ∀ {fs : List Filter}, anyTurns table rid o fs = false →
    allTurnOrHold table rid o fs = evalAnd (Comparison.reading table rid o) fs
  | [], _ => rfl
  | f :: fs, ht => by
      rw [anyTurns, Bool.or_eq_false_iff] at ht
      rw [allTurnOrHold, evalAnd, ht.1, evalAnd_of_not_turns ht.2]
      rfl

theorem tracks_and {fs : List Filter} (h : ∀ f ∈ fs, Tracks table rid o f) :
    Tracks table rid o (.and fs) := by
  refine ⟨?_, fun ht => ?_⟩
  · rw [Filter.eval, evalAnd_result h, Filter.reading, Filter.eval, Filter.turnsOnAbsent]
    cases ht : anyTurns table rid o fs with
    | true => rw [evalAnd_of_turns h ht]; rfl
    | false => rw [evalAnd_of_not_turns ht]; simp
  · simp only [Filter.turnsOnAbsent, Bool.and_eq_true] at ht
    exact evalAnd_of_turns h ht.1

theorem tracks_or {fs : List Filter} (h : ∀ f ∈ fs, Tracks table rid o f) :
    Tracks table rid o (.or fs) := by
  refine ⟨?_, fun ht => ?_⟩
  · rw [Filter.eval, evalOr_result h, Filter.reading, Filter.eval, Filter.turnsOnAbsent]
    cases evalOr (Comparison.reading table rid o) fs <;> simp
  · simp only [Filter.turnsOnAbsent, Bool.and_eq_true, Bool.not_eq_true'] at ht
    exact ht.2

mutual

theorem tracks_filter : ∀ {f : Filter}, f.Encoded → Tracks table rid o f
  | .comparison _, h => ⟨result_eq h, not_reading_of_turns⟩
  | .and _, h => tracks_and (tracks_filters h)
  | .or _, h => tracks_or (tracks_filters h)

theorem tracks_filters : ∀ {fs : List Filter}, AllEncoded fs → ∀ f ∈ fs, Tracks table rid o f
  | [], _ => fun _ hf => absurd hf List.not_mem_nil
  | _ :: _, h => List.forall_mem_cons.mpr ⟨tracks_filter h.1, tracks_filters h.2⟩

end

/-! ## Selecting what is meant -/

/-- The text is an expression, and it is true of the record exactly when the filter is
meant to hold of it. -/
def SelectsAsMeant (table : Table) (f : Filter) (toks : List Token) (binds : Binds)
    (rid : RecordId) (o : Object) : Prop :=
  ∃ p, parse sqlGrammar toks = some p ∧
    (((p.map (resolve binds)).eval isParen (rowAlgebra rid o)).isTrue = true ↔
      f.reading table rid o = true)

/-- **Null satisfies no comparison, with these exceptions.** The rendered predicate
selects a record as the filter is meant exactly when it compares no bool column, has no
empty conjunction or disjunction, and does not turn on a `<` or `<=` comparison with a
column or path the record lacks. -/
theorem null_reading_iff {f : Filter} {binds binds' : Binds} {toks : List Token}
    (hb : binds.Numbered) (h : render table binds f.expr = .ok (toks, binds')) (rid : RecordId)
    (o : Object) :
    SelectsAsMeant table f toks binds' rid o ↔
      f.readable = true ∧ f.turnsOnAbsent table rid o = false := by
  cases hr : f.readable with
  | false =>
      constructor
      · intro hs
        obtain ⟨p, hp, _⟩ := hs
        exact absurd ((render_broken hr h).parse.symm.trans hp) (by simp)
      · intro hs; exact absurd hs.1 (by simp)
  | true =>
      have hmeant := (render_reads_iff (filter_onColumns f) hb h).mpr (filter_wellGrouped hr)
      obtain ⟨p, hp, hval⟩ := hmeant
      have htracks : Tracks table rid o f := tracks_filter (render_encoded h)
      have hresult : ((p.map (resolve binds')).eval isParen (rowAlgebra rid o)).isTrue =
          (f.reading table rid o || f.turnsOnAbsent table rid o) := by
        rw [hval, denote_filter, SurValue.isTrue_bool, htracks.result]
      have hselects : SelectsAsMeant table f toks binds' rid o ↔
          ((f.reading table rid o || f.turnsOnAbsent table rid o) = true ↔
            f.reading table rid o = true) := by
        constructor
        · intro hs
          obtain ⟨q, hq, hsel⟩ := hs
          obtain rfl : p = q := Option.some.inj (hp.symm.trans hq)
          rwa [hresult] at hsel
        · intro hs; exact ⟨p, hp, by rwa [hresult]⟩
      rw [hselects]
      cases ht : f.turnsOnAbsent table rid o with
      | false => simp
      | true => simp [htracks.false_of_turns ht]

end Meaning

/-- A table with a column a row may lack. -/
def jobs : Table where
  id := 0
  name := "jobs"
  columns := [⟨⟨0, 0⟩, "id", .i64, .integer 8⟩, ⟨⟨0, 1⟩, "due", .i64, .integer 8⟩]
  primaryKey := [⟨0, 0⟩]
  indices := []

/-- `due < 5`. -/
def dueSoon : Filter :=
  .comparison (.targetFirst .lt (.column ⟨⟨0, 1⟩, "due", .i64, .integer 8⟩) ⟨.i64 5, rfl⟩)

/-- A job that was inserted without a due date is selected as due before 5. -/
theorem absent_selected :
    ¬ ∀ (f : Filter) (toks : List Token) (binds : Binds) (columns : List ColumnId)
    (row : Row) (rid : RecordId) (o : Object), @render plain jobs .empty f.expr =
    .ok (toks, binds) → @buildRow plain "insert" jobs columns row = .ok (rid, o) →
    @SelectsAsMeant plain plainOrder jobs f toks binds rid o := by
  intro h
  let := plain
  let := plainOrder
  have hsel := h dueSoon _ _ [⟨0, 0⟩, ⟨0, 1⟩] [some (.i64 1), some .null] ⟨"jobs", .number 1⟩
    [] rfl rfl
  have hturns := ((null_reading_iff Binds.numbered_empty rfl _ _).mp hsel).2
  exact absurd hturns (by decide)

/-- A job that is due at 3 is selected, as it is meant to be. -/
theorem present_selected :
    ∃ toks binds, @render plain jobs .empty dueSoon.expr = .ok (toks, binds) ∧
      @SelectsAsMeant plain plainOrder jobs dueSoon toks binds ⟨"jobs", .number 1⟩
        [("due", .number (.int 3))] := by
  let := plain
  let := plainOrder
  exact ⟨_, _, rfl, (null_reading_iff Binds.numbered_empty rfl _ _).mpr ⟨rfl, by decide⟩⟩

end ToastySurreal
