import ToastySurreal.Proof.Parameters

/-!
# What stands where a placeholder is

The renderer hands out placeholders as it meets literals. `template` is the text of an
expression with every literal's encoding in its own place, and rendering from any
parameters writes that text: put the bound values back where the placeholders are and the
template comes out. So what a predicate tests does not depend on what was bound before it.
-/

namespace ToastySurreal

open Results
open Precedence (Tok)

/-! ## Templates -/

/-- An atom with literals in place. -/
inductive Slot where
  | fixed (a : Atom)
  | literal (v : SurValue)
  deriving DecidableEq

abbrev Template := List (Tok Slot Op Bracket Closer)

/-- Put the bound value where its placeholder is. -/
def slotOf (binds : Binds) : Atom → Slot
  | .param name => .literal ((AssocMap.lookup name binds.values).getD .none)
  | a => .fixed a

/-- A literal is the operand itself. -/
def Slot.operand : Slot → Operand
  | .fixed a => resolve .empty a
  | .literal v => .value v

theorem operand_slotOf (binds : Binds) (a : Atom) : (slotOf binds a).operand = resolve binds a := by
  cases a <;> rfl

/-- Rendered tokens with the bound values in place. -/
def fillIn (binds : Binds) (toks : List Token) : Template := toks.map (Tok.map (slotOf binds))

def joinTemplates (sep : Tok Slot Op Bracket Closer) (parts : List Template) : Template :=
  List.intercalate [sep] parts

def inParens (t : Template) : Template := .opening .paren :: (t ++ [.closing .paren])

def inArray (parts : List Template) : Template :=
  .opening .array :: (joinTemplates .comma parts ++ [.closing .array])

section

variable [Sdk]

def valueTemplate (v : Value) (storageTy : Option DbType) : Template :=
  match v with
  | .list items => inArray (items.map fun item => [.atom (.literal (literal item storageTy))])
  | v => [.atom (.literal (literal v storageTy))]

/-- A document path, whose base is a column or rendered text. -/
def pathTemplate (table : Table) (base : Expr) (path : List String) : Template :=
  fillIn .empty (documentPath table base (renderWithStorage table .empty base none) path)

mutual

/-- The text of an expression with its literals in place. -/
def template (table : Table) (expr : Expr) (storageTy : Option DbType) : Template :=
  match expr with
  | .binaryOp op lhs rhs => template table lhs (expressionStorageTy rhs) ++
      .op op.sym :: template table rhs (expressionStorageTy lhs)
  | .and operands => inParens (joinTemplates (.op .and) (templates table operands none))
  | .or operands => inParens (joinTemplates (.op .or) (templates table operands none))
  | .not expr => .pre :: inParens (template table expr none)
  | .isNull (.reference column) =>
      [.atom (.fixed (.ref (columnRef table column) [])), .op .isOp, .atom (.fixed .none)]
  | .isNull (.jsonExtract base path) =>
      pathTemplate table base path ++ [.op .isOp, .atom (.fixed .none)]
  | .isNull expr => template table expr none ++ [.op .isOp, .atom (.fixed .none)]
  | .between expr low high =>
      let target := template table expr none
      inParens (target ++ .op .ge :: (template table low (expressionStorageTy expr) ++
        .op .and :: (target ++ .op .le :: template table high (expressionStorageTy expr))))
  | .inList expr list =>
      template table expr none ++ .op .inOp :: template table list (expressionStorageTy expr)
  | .anyOp _ lhs rhs =>
      template table rhs none ++ .op .contains :: template table lhs (expressionStorageTy rhs)
  | .isSuperset lhs rhs => template table lhs (expressionStorageTy rhs) ++
      .op .containsAll :: template table rhs (expressionStorageTy lhs)
  | .intersects lhs rhs => template table lhs (expressionStorageTy rhs) ++
      .op .containsAny :: template table rhs (expressionStorageTy lhs)
  | .length expr => .opening .arrayLen :: (template table expr none ++ [.closing .paren])
  | .startsWith expr start =>
      let target := template table expr none
      inParens (target ++ .op .isNot :: .atom (.fixed .none) :: .op .and :: .opening .startsWith ::
        (target ++ .comma ::
          (template table start (expressionStorageTy expr) ++ [.closing .paren])))
  | .jsonExtract base path => pathTemplate table base path
  | .reference column =>
      let reference := Tok.atom (.fixed (.ref (columnRef table column) []))
      if column.ty = .bool then [reference, .op .eq, .atom (.fixed .true)] else [reference]
  | .value v => valueTemplate v storageTy
  | .list items => inArray (templates table items storageTy)
  | .other _ => []
termination_by structural expr

def templates (table : Table) (exprs : List Expr) (storageTy : Option DbType) : List Template :=
  match exprs with
  | [] => []
  | e :: es => template table e storageTy :: templates table es storageTy
termination_by structural exprs

end

end

/-! ## Filling in -/

theorem fillIn_append (b : Binds) (ts ts' : List Token) :
    fillIn b (ts ++ ts') = fillIn b ts ++ fillIn b ts' :=
  List.map_append

theorem fillIn_join (b : Binds) (sep : Token) : ∀ parts : List (List Token),
    fillIn b (joinTokens sep parts) = joinTemplates (Tok.map (slotOf b) sep) (parts.map (fillIn b))
  | [] => rfl
  | [part] => by simp [joinTokens, joinTemplates]
  | part :: q :: parts => by
      have ih := fillIn_join b sep (q :: parts)
      simp only [joinTemplates, List.map_cons] at ih ⊢
      rw [joinTokens, fillIn_append, List.intercalate_cons_cons, ← ih]
      · simp [fillIn]
      · simp

theorem fillIn_parens (b : Binds) (ts : List Token) :
    fillIn b (parens ts) = inParens (fillIn b ts) := by
  simp [parens, inParens, fillIn, Tok.map]

theorem fillIn_array (b : Binds) (parts : List (List Token)) :
    fillIn b (arrayTokens parts) = inArray (parts.map (fillIn b)) := by
  have hjoin := fillIn_join b .comma parts
  simp only [Tok.map] at hjoin
  rw [arrayTokens, inArray, ← hjoin]
  simp [fillIn, Tok.map]

/-- A template does not change as more parameters follow. -/
theorem fillIn_later {b later : Binds} {toks : List Token} (h : Bound b toks)
    (hp : b.values <+: later.values) : fillIn later toks = fillIn b toks := by
  refine List.map_congr_left fun t ht => ?_
  cases t with
  | atom a =>
      cases a with
      | param p =>
          obtain ⟨rest, hrest⟩ := hp
          obtain ⟨v, hv⟩ := Option.ne_none_iff_exists'.mp fun hn =>
            AssocMap.lookup_eq_none.mp hn (h p ht)
          show Tok.atom (slotOf later (.param p)) = Tok.atom (slotOf b (.param p))
          rw [slotOf, slotOf, ← hrest, AssocMap.lookup_append, hv]
          rfl
      | _ => rfl
  | _ => rfl

theorem fillIn_bin {b b₁ b₂ : Binds} {t t' : List Token} {o : Op} (h : Steady b b₁ t)
    (h' : Steady b₁ b₂ t') : fillIn b₂ (t ++ .op o :: t') = fillIn b₁ t ++ .op o ::
    fillIn b₂ t' := by
  rw [fillIn_append, fillIn_later h.bound h'.grows]
  rfl

theorem fillIn_binSwap {b b₁ b₂ : Binds} {t t' : List Token} {o : Op} (h : Steady b b₁ t)
    (h' : Steady b₁ b₂ t') : fillIn b₂ (t' ++ .op o :: t) = fillIn b₂ t' ++ .op o ::
    fillIn b₁ t := by
  have hlater := fillIn_later h.bound h'.grows
  rw [fillIn_append, ← hlater]
  rfl

theorem fillIn_param {b : Binds} (hb : b.Numbered) (v : SurValue) :
    fillIn (b.push v).2 [.atom (.param (b.push v).1)] = [.atom (.literal v)] := by
  have hmem : ((b.push v).1, v) ∈ (b.push v).2.values := by simp [Binds.push]
  simp [fillIn, Tok.map, slotOf, AssocMap.lookup_of_mem (hb.push v).nodup hmem]

section

variable [Sdk] {table : Table}

theorem literal_ok {v : Value} {storageTy : Option DbType} {s : SurValue}
    (h : toSurrealWithStorage v storageTy = .ok s) : literal v storageTy = s := by
  rw [literal, h]

theorem bindItems_fills {storageTy : Option DbType} : ∀ {items : List Value} {b b' : Binds}
    {parts : List (List Token)}, b.Numbered → bindItems b storageTy items = .ok (parts, b') →
    parts.map (fillIn b') = items.map fun item => [.atom (.literal (literal item storageTy))]
  | [], b, b', parts, _, h => by
      injection h with h; injection h with h1 h2; subst h1
      rfl
  | item :: items, b, b', parts, hb, h => by
      rw [bindItems] at h
      obtain ⟨s, hs, h₁⟩ := bind_eq_ok h
      obtain ⟨⟨rest, b₂⟩, hrest, hok⟩ := bind_eq_ok h₁
      injection hok with hok; injection hok with h1 h2; subst h1 h2
      have hfirst : fillIn b₂ [.atom (.param b.nextName)] = [.atom (.literal s)] :=
        (fillIn_later (Steady.param b s).bound (bindItems_steady hrest).grows).trans
          (fillIn_param hb s)
      rw [List.map_cons, List.map_cons, bindItems_fills (hb.push s) hrest, hfirst, literal_ok hs]

theorem valueToBinds_fills {storageTy : Option DbType} {v : Value} {b b' : Binds}
    {toks : List Token} (hb : b.Numbered) (h : valueToBinds b v storageTy = .ok (toks, b')) :
    fillIn b' toks = valueTemplate v storageTy := by
  unfold valueToBinds at h
  split at h
  · obtain ⟨⟨parts, b₁⟩, hparts, hok⟩ := bind_eq_ok h
    injection hok with hok; injection hok with h1 h2; subst h1 h2
    rw [fillIn_array, bindItems_fills hb hparts]
    rfl
  · rename_i hlist
    obtain ⟨s, hs, hok⟩ := bind_eq_ok h
    injection hok with hok; injection hok with h1 h2; subst h1 h2
    refine (fillIn_param hb s).trans ?_
    rw [valueTemplate, literal_ok hs]
    exact hlist

omit [Sdk] in
/-- Tokens without a parameter fill in the same from any parameters. -/
theorem fillIn_plain {toks : List Token} (h : toks.all Token.plain = true) (b c : Binds) :
    fillIn b toks = fillIn c toks := by
  refine List.map_congr_left fun t ht => ?_
  have hplain := List.all_eq_true.mp h t ht
  cases t with
  | atom a =>
      cases a with
      | param p => exact absurd hplain (by simp [Token.plain])
      | _ => rfl
  | _ => rfl

theorem fillIn_path (b : Binds) (base : Expr) (path : List String) :
    fillIn b (documentPath table base (renderWithStorage table .empty base none) path) =
      pathTemplate table base path :=
  fillIn_plain documentPath_plain b .empty

theorem fills_cases : RenderCases table
    (fun e st b ts b' => Steady b b' ts ∧ (b.Numbered → fillIn b' ts = template table e st))
    (fun es st b parts b' => SteadyAll b b' parts ∧
      (b.Numbered → parts.map (fillIn b') = templates table es st)) where
  binaryOp hl hr := by
    refine ⟨hl.1.bin hr.1, fun hb => ?_⟩
    rw [fillIn_bin hl.1 hr.1, hl.2 hb, hr.2 (hl.1.numbered hb)]
    rfl
  and hall := by
    refine ⟨hall.1.chain, fun hb => ?_⟩
    rw [fillIn_parens, fillIn_join, hall.2 hb]
    rfl
  or hall := by
    refine ⟨hall.1.chain, fun hb => ?_⟩
    rw [fillIn_parens, fillIn_join, hall.2 hb]
    rfl
  not {e _ _ b' ts} he := by
    refine ⟨he.1.not, fun hb => ?_⟩
    show .pre :: fillIn b' (parens ts) = _
    rw [fillIn_parens, he.2 hb]
    rfl
  isNullColumn := ⟨.plain rfl, fun _ => rfl⟩
  isNullPath _ := by
    refine ⟨.plain isNull_plain, fun hb => ?_⟩
    rw [fillIn_append, fillIn_path]
    rfl
  isNull hcolumn hpath he := by
    refine ⟨he.1.bin (.plain rfl), fun hb => ?_⟩
    rw [fillIn_append, he.2 hb, template]
    · rfl
    · exact hcolumn
    · exact hpath
  between {e lo hi _ _ _ _ b₃ t₁ t₂ _} he hlo hhi := by
    refine ⟨he.1.between hlo.1 hhi.1, fun hb => ?_⟩
    -- parameters bound later fill no slot of what is already written
    have htarget : fillIn b₃ t₁ = template table e none :=
      (fillIn_later he.1.bound (hlo.1.toGrows.trans hhi.1.toGrows).grows).trans (he.2 hb)
    have hlow : fillIn b₃ t₂ = template table lo (expressionStorageTy e) :=
      (fillIn_later hlo.1.bound hhi.1.grows).trans (hlo.2 (he.1.numbered hb))
    have hhigh := hhi.2 (hlo.1.numbered (he.1.numbered hb))
    rw [fillIn_parens, template, ← htarget, ← hlow, ← hhigh]
    simp [fillIn, Tok.map]
  inList he hl := by
    refine ⟨he.1.bin hl.1, fun hb => ?_⟩
    rw [fillIn_bin he.1 hl.1, he.2 hb, hl.2 (he.1.numbered hb)]
    rfl
  anyOp hl hr := by
    refine ⟨hl.1.binSwap hr.1, fun hb => ?_⟩
    -- `CONTAINS` has the operands the other way round, though the left one was bound first
    rw [fillIn_binSwap hl.1 hr.1, hl.2 hb, hr.2 (hl.1.numbered hb)]
    rfl
  isSuperset hl hr := by
    refine ⟨hl.1.bin hr.1, fun hb => ?_⟩
    rw [fillIn_bin hl.1 hr.1, hl.2 hb, hr.2 (hl.1.numbered hb)]
    rfl
  intersects hl hr := by
    refine ⟨hl.1.bin hr.1, fun hb => ?_⟩
    rw [fillIn_bin hl.1 hr.1, hl.2 hb, hr.2 (hl.1.numbered hb)]
    rfl
  length {e _ _ b' ts} he := by
    refine ⟨he.1.length, fun hb => ?_⟩
    show .opening .arrayLen :: fillIn b' (ts ++ [.closing .paren]) = _
    rw [fillIn_append, he.2 hb]
    rfl
  startsWith {e p _ _ _ b₂ t₁ _} he hs := by
    refine ⟨he.1.startsWith hs.1, fun hb => ?_⟩
    -- the target is written twice and bound once
    have htarget : fillIn b₂ t₁ = template table e none :=
      (fillIn_later he.1.bound hs.1.grows).trans (he.2 hb)
    have hstart := hs.2 (he.1.numbered hb)
    rw [fillIn_parens, template, ← htarget, ← hstart]
    simp [fillIn, Tok.map, slotOf]
  jsonExtract _ := ⟨.plain documentPath_plain, fun _ => fillIn_path _ _ _⟩
  boolColumn hbool := by
    refine ⟨.plain rfl, fun _ => ?_⟩
    rw [template, if_pos hbool]
    rfl
  column hbool := by
    refine ⟨.plain rfl, fun _ => ?_⟩
    rw [template, if_neg hbool]
    rfl
  value h := ⟨valueToBinds_steady h, fun hb => valueToBinds_fills hb h⟩
  list hall := by
    refine ⟨hall.1.array, fun hb => ?_⟩
    rw [fillIn_array, hall.2 hb]
    rfl
  nil := ⟨.nil _, fun _ => rfl⟩
  cons he hes := by
    refine ⟨.cons he.1 hes.1, fun hb => ?_⟩
    rw [List.map_cons, fillIn_later he.1.bound hes.1.grows, he.2 hb, hes.2 (he.1.numbered hb)]
    rfl

/-- **Rendering fills in the template**, whatever was bound before. -/
theorem renderWithStorage_fills (e : Expr) {b b' : Binds} {storageTy : Option DbType}
    {toks : List Token} (hb : b.Numbered)
    (h : renderWithStorage table b e storageTy = .ok (toks, b')) :
    fillIn b' toks = template table e storageTy :=
  (fills_cases.expr e h).2 hb

/-! ## Predicates -/

/-- A filter and a condition, as far as they are there. -/
def predicateTemplates (table : Table) (exprs : List (Option Expr)) : List Template :=
  exprs.filterMap (Option.map fun e => template table e none)

theorem renderPredicates_fills : ∀ {exprs : List (Option Expr)} {b b' : Binds}
    {clauses : List (List Token)}, b.Numbered → renderPredicates table b exprs = .ok (clauses, b') →
    clauses.map (fillIn b') = predicateTemplates table exprs
  | [], b, b', clauses, hb, h => by
      injection h with h; injection h with h1 h2; subst h1
      rfl
  | none :: rest, b, b', clauses, hb, h => by
      rw [renderPredicates] at h
      have hrest := renderPredicates_fills hb h
      exact hrest
  | some e :: rest, b, b', clauses, hb, h => by
      rw [renderPredicates] at h
      obtain ⟨⟨t₁, b₁⟩, h₁, hr⟩ := bind_eq_ok h
      obtain ⟨⟨clauses', b₂⟩, h₂, hok⟩ := bind_eq_ok hr
      injection hok with hok; injection hok with h1 h2; subst h1 h2
      have he := renderWithStorage_steady e h₁
      rw [List.map_cons, fillIn_later he.bound (renderPredicates_steady h₂).grows,
        renderWithStorage_fills e hb h₁, renderPredicates_fills (he.numbered hb) h₂]
      rfl

end

end ToastySurreal
