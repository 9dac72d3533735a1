import ToastySurreal.Lib.Parentheses
import ToastySurreal.Proof.Rendering

/-!
# What rendered filters mean

SurrealQL's expression grammar, what a filter denotes under any meaning of the
operators, and the tree whose text the renderer writes down. Literals become
parameters on the way; substituting the collected parameters gives the tree its
values back, however many more are pushed later.
-/

namespace ToastySurreal

open Precedence Results

/-! ## The grammar -/

/-- SurrealQL's expressions: `OR` is weakest, then `AND`, then the comparisons and
containment operators, which do not chain, then `+` and `-`, then `!`. -/
def sqlGrammar : Grammar Op Bracket Closer where
  prec
    | .or => 1
    | .and => 2
    | .add | .sub => 4
    | _ => 3
  chains level := level ≠ 3
  closer
    | .array => .array
    | _ => .paren
  takes
    | .paren, n => n == 1
    | .array, _ => true
    | .arrayLen, n => n == 1
    | .startsWith, n => n == 2

def isParen : Bracket → Bool
  | .paren => true
  | _ => false

theorem isParen_takes (b : Bracket) (n : Nat) (hb : isParen b = true)
    (h : sqlGrammar.takes b n = true) : n = 1 := by
  cases b with
  | paren => simpa [sqlGrammar] using h
  | _ => exact absurd hb (by simp [isParen])

/-- An atom once the parameters are substituted. -/
inductive Operand where
  | ref (r : ColumnRef) (path : List String)
  | raw (base : String) (path : List String)
  | value (v : SurValue)

/-- Substitute the collected parameters. -/
def resolve (binds : Binds) : Atom → Operand
  | .ref r path => .ref r path
  | .raw base path => .raw base path
  | .param name => .value ((AssocMap.lookup name binds.values).getD .none)
  | .true => .value (.bool true)
  | .none => .value .none

/-! ## What an expression denotes -/

/-- Every path into a document starts at a column. -/
def Expr.onColumns : Expr → Bool
  | .binaryOp _ l r | .inList l r | .anyOp _ l r | .isSuperset l r | .intersects l r
  | .startsWith l r => l.onColumns && r.onColumns
  | .and es | .or es | .list es => allOnColumns es
  | .not e | .isNull e | .length e => e.onColumns
  | .between e lo hi => e.onColumns && lo.onColumns && hi.onColumns
  | .jsonExtract (.reference _) _ => true
  | .jsonExtract _ _ => false
  | .reference _ | .value _ | .other _ => true
where allOnColumns : List Expr → Bool
  | [] => true
  | e :: es => e.onColumns && allOnColumns es

section Denote

variable [Sdk]

/-- The stored form of a literal. -/
def literal (v : Value) (storageTy : Option DbType) : SurValue :=
  match toSurrealWithStorage v storageTy with
  | .ok s => s
  | .error _ => .none

variable {V : Type} (alg : Algebra Operand Op Bracket V) (table : Table)

/-- A chain of one operator, grouped to the left; `unit` for no operand at all. -/
def chainOf (o : Op) (unit : SurValue) : List V → V
  | [] => alg.atom (.value unit)
  | v :: vs => vs.foldl (alg.op o) v

def denoteValue (v : Value) (storageTy : Option DbType) : V :=
  match v with
  | .list items =>
      alg.bracket .array (items.map fun item => alg.atom (.value (literal item storageTy)))
  | v => alg.atom (.value (literal v storageTy))

mutual

/-- The value of an expression on a row, for any meaning of the operators. Where a
truth value is wanted (`pred`) a bool column means `= true`. -/
def denote (pred : Bool) (expr : Expr) (storageTy : Option DbType) : V :=
  match expr with
  | .binaryOp op lhs rhs => alg.op op.sym (denote false lhs (expressionStorageTy rhs))
      (denote false rhs (expressionStorageTy lhs))
  | .and operands => chainOf alg .and (.bool true) (denoteAll true operands none)
  | .or operands => chainOf alg .or (.bool false) (denoteAll true operands none)
  | .not expr => alg.pre (denote true expr none)
  | .isNull expr => alg.op .isOp (denote false expr none) (alg.atom (.value .none))
  | .between expr low high =>
      alg.op .and (alg.op .ge (denote false expr none)
        (denote false low (expressionStorageTy expr)))
        (alg.op .le (denote false expr none) (denote false high (expressionStorageTy expr)))
  | .inList expr list =>
      alg.op .inOp (denote false expr none) (denote false list (expressionStorageTy expr))
  | .anyOp _ lhs rhs =>
      alg.op .contains (denote false rhs none) (denote false lhs (expressionStorageTy rhs))
  | .isSuperset lhs rhs => alg.op .containsAll (denote false lhs (expressionStorageTy rhs))
      (denote false rhs (expressionStorageTy lhs))
  | .intersects lhs rhs => alg.op .containsAny (denote false lhs (expressionStorageTy rhs))
      (denote false rhs (expressionStorageTy lhs))
  | .length expr => alg.bracket .arrayLen [denote false expr none]
  -- an absent value matches no prefix
  | .startsWith expr start =>
      alg.op .and (alg.op .isNot (denote false expr none) (alg.atom (.value .none)))
        (alg.bracket .startsWith
          [denote false expr none, denote false start (expressionStorageTy expr)])
  | .jsonExtract (.reference column) path => alg.atom (.ref (columnRef table column) path)
  | .jsonExtract _ path => alg.atom (.raw "" path)
  | .reference column =>
      if pred && column.ty == .bool then
        alg.op .eq (alg.atom (.ref (columnRef table column) [])) (alg.atom (.value (.bool true)))
      else alg.atom (.ref (columnRef table column) [])
  | .value v => denoteValue alg v storageTy
  | .list items => alg.bracket .array (denoteAll false items storageTy)
  | .other _ => alg.atom (.value .none)
termination_by structural expr

def denoteAll (pred : Bool) (exprs : List Expr) (storageTy : Option DbType) : List V :=
  match exprs with
  | [] => []
  | e :: es => denote pred e storageTy :: denoteAll pred es storageTy
termination_by structural exprs

end

end Denote

/-! ## The tree that is rendered -/

abbrev Shape := Cst Operand Op Bracket

/-- A chain as the one item of its parentheses. -/
def chain {A : Type} (o : Op) : List (Cst A Op Bracket) → List (Cst A Op Bracket)
  | [] => []
  | t :: ts => [ts.foldl (.bin o) t]

section Shape

variable [Sdk]

def valueShape (v : Value) (storageTy : Option DbType) : Shape :=
  match v with
  | .list items => .bracket .array (items.map fun item => .atom (.value (literal item storageTy)))
  | v => .atom (.value (literal v storageTy))

mutual

/-- The tree `render_with_storage` writes down, parentheses included. -/
def shape (table : Table) (expr : Expr) (storageTy : Option DbType) : Shape :=
  match expr with
  | .binaryOp op lhs rhs => .bin op.sym (shape table lhs (expressionStorageTy rhs))
      (shape table rhs (expressionStorageTy lhs))
  | .and operands => .bracket .paren (chain .and (shapeAll table operands none))
  | .or operands => .bracket .paren (chain .or (shapeAll table operands none))
  | .not expr => .pre (.bracket .paren [shape table expr none])
  | .isNull (.reference column) =>
      .bin .isOp (.atom (.ref (columnRef table column) [])) (.atom (.value .none))
  | .isNull (.jsonExtract base path) =>
      .bin .isOp (shape table (.jsonExtract base path) none) (.atom (.value .none))
  | .isNull expr => .bin .isOp (shape table expr none) (.atom (.value .none))
  | .between expr low high => .bracket .paren [.bin .and
      (.bin .ge (shape table expr none) (shape table low (expressionStorageTy expr)))
      (.bin .le (shape table expr none) (shape table high (expressionStorageTy expr)))]
  | .inList expr list =>
      .bin .inOp (shape table expr none) (shape table list (expressionStorageTy expr))
  | .anyOp _ lhs rhs =>
      .bin .contains (shape table rhs none) (shape table lhs (expressionStorageTy rhs))
  | .isSuperset lhs rhs => .bin .containsAll (shape table lhs (expressionStorageTy rhs))
      (shape table rhs (expressionStorageTy lhs))
  | .intersects lhs rhs => .bin .containsAny (shape table lhs (expressionStorageTy rhs))
      (shape table rhs (expressionStorageTy lhs))
  | .length expr => .bracket .arrayLen [shape table expr none]
  | .startsWith expr start => .bracket .paren [.bin .and
      (.bin .isNot (shape table expr none) (.atom (.value .none)))
      (.bracket .startsWith [shape table expr none, shape table start (expressionStorageTy expr)])]
  | .jsonExtract (.reference column) path => .atom (.ref (columnRef table column) path)
  | .jsonExtract _ path => .atom (.raw "" path)
  | .reference column =>
      if column.ty = .bool then
        .bin .eq (.atom (.ref (columnRef table column) [])) (.atom (.value (.bool true)))
      else .atom (.ref (columnRef table column) [])
  | .value v => valueShape v storageTy
  | .list items => .bracket .array (shapeAll table items storageTy)
  | .other _ => .atom (.value .none)
termination_by structural expr

def shapeAll (table : Table) (exprs : List Expr) (storageTy : Option DbType) : List Shape :=
  match exprs with
  | [] => []
  | e :: es => shape table e storageTy :: shapeAll table es storageTy
termination_by structural exprs

end

end Shape

/-! ### Texts of chains and lists -/

theorem joinTokens_cons (sep : Token) : ∀ (part : List Token) (parts : List (List Token)),
    joinTokens sep (part :: parts) = part ++ parts.flatMap (fun p => sep :: p)
  | part, [] => by simp [joinTokens]
  | part, q :: parts => by
      show part ++ sep :: joinTokens sep (q :: parts) = _
      rw [joinTokens_cons sep q parts]
      simp

theorem yield_foldl (o : Op) : ∀ (ts : List (Cst Atom Op Bracket)) (t : Cst Atom Op Bracket),
    (ts.foldl (.bin o) t).yield sqlGrammar =
      t.yield sqlGrammar ++ ts.flatMap (fun u => .op o :: u.yield sqlGrammar)
  | [], t => by simp
  | u :: ts, t => by
      rw [List.foldl_cons, yield_foldl o ts, Cst.yield]
      simp

/-- A chain is written with its operator between the operands. -/
theorem yield_chain (o : Op) (ts : List (Cst Atom Op Bracket)) :
    Cst.yieldItems sqlGrammar (chain o ts) =
    joinTokens (.op o) (ts.map (Cst.yield sqlGrammar)) := by
  cases ts with
  | nil => rfl
  | cons t ts =>
      rw [chain, Cst.yieldItems, Cst.yieldTail, List.append_nil, yield_foldl, List.map_cons,
        joinTokens_cons]
      simp [List.flatMap_map]

theorem yieldTail_eq : ∀ ts : List (Cst Atom Op Bracket),
    Cst.yieldTail sqlGrammar ts = ts.flatMap fun t => .comma :: t.yield sqlGrammar
  | [] => rfl
  | t :: ts => by rw [Cst.yieldTail, yieldTail_eq ts]; simp

/-- Items are written with commas between them. -/
theorem yieldItems_eq (ts : List (Cst Atom Op Bracket)) :
    Cst.yieldItems sqlGrammar ts = joinTokens .comma (ts.map (Cst.yield sqlGrammar)) := by
  cases ts with
  | nil => rfl
  | cons t ts =>
      rw [Cst.yieldItems, yieldTail_eq, List.map_cons, joinTokens_cons]
      simp [List.flatMap_map]

theorem map_foldl {A A' : Type} (f : A → A') (o : Op) : ∀ (ts : List (Cst A Op Bracket))
    (t : Cst A Op Bracket),
    (ts.foldl (.bin o) t).map f = (mapItems f ts).foldl (.bin o) (t.map f)
  | [], _ => rfl
  | u :: ts, t => by rw [List.foldl_cons, map_foldl f o ts]; rfl

theorem mapItems_chain {A A' : Type} (f : A → A') (o : Op) (ts : List (Cst A Op Bracket)) :
    mapItems f (chain o ts) = chain o (mapItems f ts) := by
  cases ts with
  | nil => rfl
  | cons t ts => simp only [chain, mapItems, map_foldl]

/-! ### Parameters -/

/-- Parameters are named by their positions. -/
def Binds.Numbered (binds : Binds) : Prop :=
  binds.values.map Prod.fst = (List.range binds.values.length).map fun i => "p" ++ toString i

theorem toString_inj {i j : Nat} (h : toString i = toString j) : i = j := by
  have hl : Nat.toDigits 10 i = Nat.toDigits 10 j := by
    rw [← Nat.toList_repr, ← Nat.toList_repr]
    exact congrArg String.toList h
  rw [← Nat.ofDigitChars_ten_toDigits (n := i), hl, Nat.ofDigitChars_ten_toDigits]

theorem paramName_inj {i j : Nat} (h : "p" ++ toString i = "p" ++ toString j) : i = j :=
  toString_inj (append_left_cancel h)

theorem Binds.numbered_empty : Binds.empty.Numbered := rfl

theorem Binds.Numbered.nodup {binds : Binds} (h : binds.Numbered) :
    (binds.values.map Prod.fst).Nodup := by
  rw [h]
  exact List.nodup_range.map fun _ _ h => paramName_inj h

theorem Binds.Numbered.push {binds : Binds} (h : binds.Numbered) (v : SurValue) :
    (binds.push v).2.Numbered := by
  unfold Binds.Numbered at h ⊢
  simp [Binds.push, Binds.nextName, List.range_succ, h]

/-- A parameter keeps its value as more are pushed. -/
theorem resolve_push {binds later : Binds} {v : SurValue} (hl : later.Numbered)
    (hp : (binds.push v).2.values <+: later.values) :
    resolve later (.param (binds.push v).1) = .value v := by
  have hmem : ((binds.push v).1, v) ∈ later.values := hp.subset (by simp [Binds.push])
  rw [resolve, AssocMap.lookup_of_mem hl.nodup hmem]
  rfl

/-- Rendering wrote the text of a tree that resolves to `s`, and only added parameters. -/
structure Renders (binds binds' : Binds) (toks : List Token) (s : Shape) : Prop where
  numbered : binds'.Numbered
  grows : binds.values <+: binds'.values
  tree : ∃ c : Cst Atom Op Bracket, c.yield sqlGrammar = toks ∧
    ∀ later : Binds, later.Numbered → binds'.values <+: later.values → c.map (resolve later) = s

/-- The same for a list of texts. -/
structure RendersAll (binds binds' : Binds) (parts : List (List Token)) (ss : List Shape) :
    Prop where
  numbered : binds'.Numbered
  grows : binds.values <+: binds'.values
  trees : ∃ cs : List (Cst Atom Op Bracket), cs.map (Cst.yield sqlGrammar) = parts ∧
    ∀ later : Binds, later.Numbered → binds'.values <+: later.values →
    mapItems (resolve later) cs = ss

theorem Renders.bin {b₀ b₁ b₂ : Binds} {t₁ t₂ : List Token} {s₁ s₂ : Shape} (o : Op)
    (h₁ : Renders b₀ b₁ t₁ s₁) (h₂ : Renders b₁ b₂ t₂ s₂) :
    Renders b₀ b₂ (t₁ ++ .op o :: t₂) (.bin o s₁ s₂) := by
  obtain ⟨c₁, hy₁, hm₁⟩ := h₁.tree
  obtain ⟨c₂, hy₂, hm₂⟩ := h₂.tree
  refine ⟨h₂.numbered, h₁.grows.trans h₂.grows, .bin o c₁ c₂, by rw [Cst.yield, hy₁, hy₂], ?_⟩
  intro later hl hp
  rw [Cst.map, hm₁ later hl (h₂.grows.trans hp), hm₂ later hl hp]

/-- The same with the operands written in the other order. -/
theorem Renders.binSwap {b₀ b₁ b₂ : Binds} {t₁ t₂ : List Token} {s₁ s₂ : Shape} (o : Op)
    (h₁ : Renders b₀ b₁ t₁ s₁) (h₂ : Renders b₁ b₂ t₂ s₂) :
    Renders b₀ b₂ (t₂ ++ .op o :: t₁) (.bin o s₂ s₁) := by
  obtain ⟨c₁, hy₁, hm₁⟩ := h₁.tree
  obtain ⟨c₂, hy₂, hm₂⟩ := h₂.tree
  refine ⟨h₂.numbered, h₁.grows.trans h₂.grows, .bin o c₂ c₁, by rw [Cst.yield, hy₁, hy₂], ?_⟩
  intro later hl hp
  rw [Cst.map, hm₁ later hl (h₂.grows.trans hp), hm₂ later hl hp]

theorem Renders.bracket {b₀ b₁ : Binds} {t : List Token} {s : Shape} (b : Bracket)
    (h : Renders b₀ b₁ t s) :
    Renders b₀ b₁ (.opening b :: (t ++ [.closing (sqlGrammar.closer b)])) (.bracket b [s]) := by
  obtain ⟨c, hy, hm⟩ := h.tree
  refine ⟨h.numbered, h.grows, .bracket b [c], ?_, ?_⟩
  · rw [Cst.yield, Cst.yieldItems, Cst.yieldTail, List.append_nil, hy]
  · intro later hl hp
    rw [Cst.map, mapItems, mapItems, hm later hl hp]

theorem Renders.pre {b₀ b₁ : Binds} {t : List Token} {s : Shape} (h : Renders b₀ b₁ t s) :
    Renders b₀ b₁ (.pre :: t) (.pre s) := by
  obtain ⟨c, hy, hm⟩ := h.tree
  refine ⟨h.numbered, h.grows, .pre c, by rw [Cst.yield, hy], ?_⟩
  intro later hl hp
  rw [Cst.map, hm later hl hp]

/-- An atom that is no parameter. -/
theorem Renders.atom {b : Binds} (hb : b.Numbered) {a : Atom} {x : Operand}
    (h : ∀ later, resolve later a = x) : Renders b b [.atom a] (.atom x) := by
  refine ⟨hb, List.prefix_refl _, .atom a, rfl, ?_⟩
  intro later _ _
  rw [Cst.map, h]

theorem Renders.none {b : Binds} (hb : b.Numbered) :
    Renders b b [.atom .none] (.atom (.value .none)) :=
  .atom hb fun _ => rfl

theorem Renders.param {b : Binds} (hb : b.Numbered) (v : SurValue) :
    Renders b (b.push v).2 [.atom (.param (b.push v).1)] (.atom (.value v)) := by
  refine ⟨hb.push v, ⟨_, rfl⟩, .atom (.param (b.push v).1), rfl, ?_⟩
  intro later hl hp
  rw [Cst.map, resolve_push hl hp]

theorem RendersAll.nil {b : Binds} (hb : b.Numbered) : RendersAll b b [] [] :=
  ⟨hb, List.prefix_refl _, [], rfl, fun _ _ _ => rfl⟩

theorem RendersAll.cons {b₀ b₁ b₂ : Binds} {t : List Token} {ts : List (List Token)} {s : Shape}
    {ss : List Shape} (h₁ : Renders b₀ b₁ t s) (h₂ : RendersAll b₁ b₂ ts ss) :
    RendersAll b₀ b₂ (t :: ts) (s :: ss) := by
  obtain ⟨c, hy, hm⟩ := h₁.tree
  obtain ⟨cs, hys, hms⟩ := h₂.trees
  refine ⟨h₂.numbered, h₁.grows.trans h₂.grows, c :: cs, by rw [List.map_cons, hy, hys], ?_⟩
  intro later hl hp
  rw [mapItems, hm later hl (h₂.grows.trans hp), hms later hl hp]

theorem RendersAll.chain {b₀ b₁ : Binds} {ts : List (List Token)} {ss : List Shape} (o : Op)
    (h : RendersAll b₀ b₁ ts ss) :
    Renders b₀ b₁ (parens (joinTokens (.op o) ts)) (.bracket .paren (chain o ss)) := by
  obtain ⟨cs, hy, hm⟩ := h.trees
  refine ⟨h.numbered, h.grows, .bracket .paren (ToastySurreal.chain o cs), ?_, ?_⟩
  · rw [Cst.yield, yield_chain, hy]; rfl
  · intro later hl hp
    rw [Cst.map, mapItems_chain, hm later hl hp]

theorem RendersAll.array {b₀ b₁ : Binds} {ts : List (List Token)} {ss : List Shape}
    (h : RendersAll b₀ b₁ ts ss) : Renders b₀ b₁ (arrayTokens ts) (.bracket .array ss) := by
  obtain ⟨cs, hy, hm⟩ := h.trees
  refine ⟨h.numbered, h.grows, .bracket .array cs, ?_, ?_⟩
  · rw [Cst.yield, yieldItems_eq, hy]; rfl
  · intro later hl hp
    rw [Cst.map, hm later hl hp]

/-! ### The renderer writes down the tree -/

section Renders

variable [Sdk] {table : Table}

theorem bindItems_renders {storageTy : Option DbType} :
    ∀ (items : List Value) {binds binds' : Binds} {parts : List (List Token)}, binds.Numbered →
    bindItems binds storageTy items = .ok (parts, binds') →
    RendersAll binds binds' parts
      (items.map fun item => .atom (.value (literal item storageTy)))
  | [], binds, binds', parts, hb, h => by
      rw [bindItems] at h
      injection h with h; injection h with h1 h2; subst h1 h2
      exact .nil hb
  | item :: items, binds, binds', parts, hb, h => by
      rw [bindItems] at h
      obtain ⟨s, hs, h⟩ := bind_eq_ok h
      obtain ⟨⟨rest, b₂⟩, hrest, h⟩ := bind_eq_ok h
      injection h with h; injection h with h1 h2; subst h1 h2
      have hlit : literal item storageTy = s := by rw [literal, hs]
      have hrec := bindItems_renders items (hb.push s) hrest
      rw [List.map_cons, hlit]
      exact .cons (.param hb s) hrec

theorem valueToBinds_renders {storageTy : Option DbType} {v : Value} {binds binds' : Binds}
    {toks : List Token} (hb : binds.Numbered)
    (h : valueToBinds binds v storageTy = .ok (toks, binds')) :
    Renders binds binds' toks (valueShape v storageTy) := by
  unfold valueToBinds at h
  split at h
  · obtain ⟨⟨parts, b₁⟩, hparts, h⟩ := bind_eq_ok h
    injection h with h; injection h with h1 h2; subst h1 h2
    exact (bindItems_renders _ hb hparts).array
  · rename_i hno
    obtain ⟨s, hs, h⟩ := bind_eq_ok h
    injection h with h; injection h with h1 h2; subst h1 h2
    have hlit : literal v storageTy = s := by rw [literal, hs]
    have hshape : valueShape v storageTy = .atom (.value s) := by
      rw [← hlit]
      cases v with
      | list items => exact absurd rfl (hno items)
      | _ => rfl
    rw [hshape]
    exact .param hb s

theorem renders_cases : RenderCases table
    (fun e st b ts b' => e.onColumns = true → b.Numbered → Renders b b' ts (shape table e st))
    (fun es st b parts b' => Expr.onColumns.allOnColumns es = true → b.Numbered →
      RendersAll b b' parts (shapeAll table es st)) where
  binaryOp hl hr hc hb := by
    simp only [Expr.onColumns, Bool.and_eq_true] at hc
    have hl := hl hc.1 hb
    rw [shape]; exact hl.bin _ (hr hc.2 hl.numbered)
  and hall hc hb := by rw [shape]; exact (hall hc hb).chain _
  or hall hc hb := by rw [shape]; exact (hall hc hb).chain _
  not he hc hb := by rw [shape]; exact ((he hc hb).bracket .paren).pre
  isNullColumn _ hb := by rw [shape]; exact Renders.bin .isOp (.atom hb fun _ => rfl) (.none hb)
  isNullPath {base _ _ _} _ hc hb := by
    cases base with
    | reference column =>
        rw [shape, shape]
        exact Renders.bin .isOp (.atom hb fun _ => rfl) (.none hb)
    | _ => exact absurd hc (by simp [Expr.onColumns])
  isNull hcolumn hpath he hc hb := by
    have he := he hc hb
    rw [shape]
    · exact he.bin .isOp (.none he.numbered)
    · exact hcolumn
    · exact hpath
  between he hlo hhi hc hb := by
    simp only [Expr.onColumns, Bool.and_eq_true] at hc
    have he := he hc.1.1 hb
    have hlo := hlo hc.1.2 he.numbered
    have hhi := hhi hc.2 hlo.numbered
    -- the target is written twice, with the parameters of its first rendering
    obtain ⟨c₁, hy₁, hm₁⟩ := he.tree
    obtain ⟨c₂, hy₂, hm₂⟩ := hlo.tree
    obtain ⟨c₃, hy₃, hm₃⟩ := hhi.tree
    refine ⟨hhi.numbered, he.grows.trans (hlo.grows.trans hhi.grows),
      .bracket .paren [.bin .and (.bin .ge c₁ c₂) (.bin .le c₁ c₃)], ?_, ?_⟩
    · simp only [Cst.yield, Cst.yieldItems, Cst.yieldTail, hy₁, hy₂, hy₃, parens,
        List.append_nil, List.append_assoc, List.cons_append]
      rfl
    · intro later hl hp
      have hp₂ := hhi.grows.trans hp
      rw [shape]
      simp only [Cst.map, mapItems, hm₁ later hl (hlo.grows.trans hp₂), hm₂ later hl hp₂,
        hm₃ later hl hp]
  inList he hl hc hb := by
    simp only [Expr.onColumns, Bool.and_eq_true] at hc
    have he := he hc.1 hb
    rw [shape]; exact he.bin _ (hl hc.2 he.numbered)
  anyOp hl hr hc hb := by
    simp only [Expr.onColumns, Bool.and_eq_true] at hc
    have hl := hl hc.1 hb
    rw [shape]; exact hl.binSwap _ (hr hc.2 hl.numbered)
  isSuperset hl hr hc hb := by
    simp only [Expr.onColumns, Bool.and_eq_true] at hc
    have hl := hl hc.1 hb
    rw [shape]; exact hl.bin _ (hr hc.2 hl.numbered)
  intersects hl hr hc hb := by
    simp only [Expr.onColumns, Bool.and_eq_true] at hc
    have hl := hl hc.1 hb
    rw [shape]; exact hl.bin _ (hr hc.2 hl.numbered)
  length he hc hb := by rw [shape]; exact (he hc hb).bracket .arrayLen
  startsWith he hs hc hb := by
    simp only [Expr.onColumns, Bool.and_eq_true] at hc
    have he := he hc.1 hb
    have hs := hs hc.2 he.numbered
    obtain ⟨c₁, hy₁, hm₁⟩ := he.tree
    obtain ⟨c₂, hy₂, hm₂⟩ := hs.tree
    refine ⟨hs.numbered, he.grows.trans hs.grows, .bracket .paren
      [.bin .and (.bin .isNot c₁ (.atom .none)) (.bracket .startsWith [c₁, c₂])], ?_, ?_⟩
    · simp only [Cst.yield, Cst.yieldItems, Cst.yieldTail, hy₁, hy₂, parens, List.append_nil,
        List.append_assoc, List.cons_append]
      rfl
    · intro later hl hp
      rw [shape]
      simp only [Cst.map, mapItems, hm₁ later hl (hs.grows.trans hp), hm₂ later hl hp, resolve]
  jsonExtract {base _ _ _} _ hc hb := by
    cases base with
    | reference column => rw [shape]; exact .atom hb fun _ => rfl
    | _ => exact absurd hc (by simp [Expr.onColumns])
  boolColumn hbool _ hb := by
    rw [shape, if_pos hbool]
    exact Renders.bin .eq (.atom hb fun _ => rfl) (.atom hb fun _ => rfl)
  column hbool _ hb := by
    rw [shape, if_neg hbool]
    exact .atom hb fun _ => rfl
  value h _ hb := by rw [shape]; exact valueToBinds_renders hb h
  list hall hc hb := by rw [shape]; exact (hall hc hb).array
  nil _ hb := .nil hb
  cons he hes hc hb := by
    simp only [Expr.onColumns.allOnColumns, Bool.and_eq_true] at hc
    have he := he hc.1 hb
    exact .cons he (hes hc.2 he.numbered)

/-- **The rendered tokens are the text of the tree.** -/
theorem renderWithStorage_renders (e : Expr) {binds binds' : Binds} {storageTy : Option DbType}
    {toks : List Token} (hc : e.onColumns = true) (hb : binds.Numbered)
    (h : renderWithStorage table binds e storageTy = .ok (toks, binds')) :
    Renders binds binds' toks (shape table e storageTy) :=
  renders_cases.expr e h hc hb

end Renders

end ToastySurreal
