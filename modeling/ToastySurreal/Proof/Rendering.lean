import ToastySurreal.Expr
import ToastySurreal.Lib.Results

/-!
# Induction over the renderer

What has to be shown of each arm of the renderer for a property of whatever it writes.
Only this module takes `render_with_storage` apart when a filter renders; the results on
what is written (its parameters, its tree, its text) give the cases.
-/

namespace ToastySurreal

open Results

variable [Sdk] {table : Table}

/-- The cases of an induction over what renders: `P` of an expression and `Q` of a list of
them, with the storage hint, the parameters before, what is written and the parameters
after. -/
structure RenderCases (table : Table)
    (P : Expr → Option DbType → Binds → List Token → Binds → Prop)
    (Q : List Expr → Option DbType → Binds → List (List Token) → Binds → Prop) : Prop where
  binaryOp {op l r st b b₁ b₂ ts ts'} : P l (expressionStorageTy r) b ts b₁ →
    P r (expressionStorageTy l) b₁ ts' b₂ → P (.binaryOp op l r) st b (ts ++ .op op.sym :: ts') b₂
  and {es st b b' parts} : Q es none b parts b' →
    P (.and es) st b (parens (joinTokens (.op .and) parts)) b'
  or {es st b b' parts} : Q es none b parts b' →
    P (.or es) st b (parens (joinTokens (.op .or) parts)) b'
  not {e st b b' ts} : P e none b ts b' → P (.not e) st b (.pre :: parens ts) b'
  isNullColumn {column st b} :
    P (.isNull (.reference column)) st b
      [.atom (.ref (columnRef table column) []), .op .isOp, .atom .none] b
  /-- The base of a path is rendered on its own. -/
  isNullPath {base path st b} :
    (∀ {ts b'}, renderWithStorage table .empty base none = .ok (ts, b') →
      P base none .empty ts b') →
    P (.isNull (.jsonExtract base path)) st b
      (documentPath table base (renderWithStorage table .empty base none) path ++
        [.op .isOp, .atom .none]) b
  isNull {e st b b' ts} : (∀ column, e ≠ .reference column) →
    (∀ base path, e ≠ .jsonExtract base path) →
    P e none b ts b' → P (.isNull e) st b (ts ++ [.op .isOp, .atom .none]) b'
  /-- The target is rendered once and written twice. -/
  between {e lo hi st b b₁ b₂ b₃ ts ts' ts''} : P e none b ts b₁ →
    P lo (expressionStorageTy e) b₁ ts' b₂ → P hi (expressionStorageTy e) b₂ ts'' b₃ →
    P (.between e lo hi) st b
      (parens (ts ++ .op .ge :: (ts' ++ .op .and :: (ts ++ .op .le :: ts'')))) b₃
  inList {e l st b b₁ b₂ ts ts'} : P e none b ts b₁ → P l (expressionStorageTy e) b₁ ts' b₂ →
    P (.inList e l) st b (ts ++ .op .inOp :: ts') b₂
  /-- The left side is bound first and written last. -/
  anyOp {l r st b b₁ b₂ ts ts'} : P l (expressionStorageTy r) b ts b₁ → P r none b₁ ts' b₂ →
    P (.anyOp .eq l r) st b (ts' ++ .op .contains :: ts) b₂
  isSuperset {l r st b b₁ b₂ ts ts'} : P l (expressionStorageTy r) b ts b₁ →
    P r (expressionStorageTy l) b₁ ts' b₂ →
    P (.isSuperset l r) st b (ts ++ .op .containsAll :: ts') b₂
  intersects {l r st b b₁ b₂ ts ts'} : P l (expressionStorageTy r) b ts b₁ →
    P r (expressionStorageTy l) b₁ ts' b₂ →
    P (.intersects l r) st b (ts ++ .op .containsAny :: ts') b₂
  length {e st b b' ts} : P e none b ts b' →
    P (.length e) st b (.opening .arrayLen :: (ts ++ [.closing .paren])) b'
  startsWith {e p st b b₁ b₂ ts ts'} : P e none b ts b₁ → P p (expressionStorageTy e) b₁ ts' b₂ →
    P (.startsWith e p) st b
      (parens (ts ++ .op .isNot :: .atom .none :: .op .and :: .opening .startsWith ::
        (ts ++ .comma :: (ts' ++ [.closing .paren])))) b₂
  jsonExtract {base path st b} :
    (∀ {ts b'}, renderWithStorage table .empty base none = .ok (ts, b') →
      P base none .empty ts b') →
    P (.jsonExtract base path) st b
      (documentPath table base (renderWithStorage table .empty base none) path) b
  boolColumn {column st b} : column.ty = .bool →
    P (.reference column) st b
      [.atom (.ref (columnRef table column) []), .op .eq, .atom .true] b
  column {column st b} : column.ty ≠ .bool →
    P (.reference column) st b [.atom (.ref (columnRef table column) [])] b
  value {v st b b' ts} : valueToBinds b v st = .ok (ts, b') → P (.value v) st b ts b'
  list {es st b b' parts} : Q es st b parts b' → P (.list es) st b (arrayTokens parts) b'
  nil {st b} : Q [] st b [] b
  cons {e es st b b₁ b₂ ts parts} : P e st b ts b₁ → Q es st b₁ parts b₂ →
    Q (e :: es) st b (ts :: parts) b₂

namespace RenderCases

variable {P : Expr → Option DbType → Binds → List Token → Binds → Prop}
  {Q : List Expr → Option DbType → Binds → List (List Token) → Binds → Prop}

mutual

/-- **What every arm keeps holds of whatever renders.** -/
theorem expr (cases : RenderCases table P Q) : ∀ (e : Expr) {b b' : Binds} {st : Option DbType}
    {ts : List Token}, renderWithStorage table b e st = .ok (ts, b') → P e st b ts b'
  | .binaryOp op l r, b, b', st, ts, h => by
      rw [renderWithStorage] at h
      obtain ⟨⟨t₁, b₁⟩, h₁, h⟩ := bind_eq_ok h
      obtain ⟨⟨t₂, b₂⟩, h₂, h⟩ := bind_eq_ok h
      injection h with h; injection h with h1 h2; subst h1 h2
      exact cases.binaryOp (cases.expr l h₁) (cases.expr r h₂)
  | .and es, b, b', st, ts, h => by
      rw [renderWithStorage] at h
      obtain ⟨⟨parts, b₁⟩, h₁, h⟩ := bind_eq_ok h
      injection h with h; injection h with h1 h2; subst h1 h2
      exact cases.and (cases.operands es h₁)
  | .or es, b, b', st, ts, h => by
      rw [renderWithStorage] at h
      obtain ⟨⟨parts, b₁⟩, h₁, h⟩ := bind_eq_ok h
      injection h with h; injection h with h1 h2; subst h1 h2
      exact cases.or (cases.operands es h₁)
  | .not e, b, b', st, ts, h => by
      rw [renderWithStorage] at h
      obtain ⟨⟨t₁, b₁⟩, h₁, h⟩ := bind_eq_ok h
      injection h with h; injection h with h1 h2; subst h1 h2
      exact cases.not (cases.expr e h₁)
  | .isNull e, b, b', st, ts, h => by
      cases e with
      | reference column =>
          rw [renderWithStorage] at h
          injection h with h; injection h with h1 h2; subst h1 h2
          exact cases.isNullColumn
      | jsonExtract base path =>
          rw [renderWithStorage] at h
          injection h with h; injection h with h1 h2; subst h1 h2
          exact cases.isNullPath fun h => cases.expr base h
      | _ =>
          rw [renderWithStorage] at h
          · obtain ⟨⟨t₁, b₁⟩, h₁, h⟩ := bind_eq_ok h
            injection h with h; injection h with h1 h2; subst h1 h2
            exact cases.isNull (by simp) (by simp) (cases.expr _ h₁)
          all_goals simp
  | .between e lo hi, b, b', st, ts, h => by
      rw [renderWithStorage] at h
      obtain ⟨⟨t₁, b₁⟩, h₁, h⟩ := bind_eq_ok h
      obtain ⟨⟨t₂, b₂⟩, h₂, h⟩ := bind_eq_ok h
      obtain ⟨⟨t₃, b₃⟩, h₃, h⟩ := bind_eq_ok h
      injection h with h; injection h with h1 h2; subst h1 h2
      exact cases.between (cases.expr e h₁) (cases.expr lo h₂) (cases.expr hi h₃)
  | .inList e l, b, b', st, ts, h => by
      rw [renderWithStorage] at h
      obtain ⟨⟨t₁, b₁⟩, h₁, h⟩ := bind_eq_ok h
      obtain ⟨⟨t₂, b₂⟩, h₂, h⟩ := bind_eq_ok h
      injection h with h; injection h with h1 h2; subst h1 h2
      exact cases.inList (cases.expr e h₁) (cases.expr l h₂)
  | .anyOp op l r, b, b', st, ts, h => by
      rw [renderWithStorage] at h
      split at h
      · exact absurd h (by simp)
      · rename_i heq
        have hop : op = .eq := not_not.mp heq
        subst hop
        obtain ⟨⟨t₁, b₁⟩, h₁, h⟩ := bind_eq_ok h
        obtain ⟨⟨t₂, b₂⟩, h₂, h⟩ := bind_eq_ok h
        injection h with h; injection h with h1 h2; subst h1 h2
        exact cases.anyOp (cases.expr l h₁) (cases.expr r h₂)
  | .isSuperset l r, b, b', st, ts, h => by
      rw [renderWithStorage] at h
      obtain ⟨⟨t₁, b₁⟩, h₁, h⟩ := bind_eq_ok h
      obtain ⟨⟨t₂, b₂⟩, h₂, h⟩ := bind_eq_ok h
      injection h with h; injection h with h1 h2; subst h1 h2
      exact cases.isSuperset (cases.expr l h₁) (cases.expr r h₂)
  | .intersects l r, b, b', st, ts, h => by
      rw [renderWithStorage] at h
      obtain ⟨⟨t₁, b₁⟩, h₁, h⟩ := bind_eq_ok h
      obtain ⟨⟨t₂, b₂⟩, h₂, h⟩ := bind_eq_ok h
      injection h with h; injection h with h1 h2; subst h1 h2
      exact cases.intersects (cases.expr l h₁) (cases.expr r h₂)
  | .length e, b, b', st, ts, h => by
      rw [renderWithStorage] at h
      obtain ⟨⟨t₁, b₁⟩, h₁, h⟩ := bind_eq_ok h
      injection h with h; injection h with h1 h2; subst h1 h2
      exact cases.length (cases.expr e h₁)
  | .startsWith e p, b, b', st, ts, h => by
      rw [renderWithStorage] at h
      obtain ⟨⟨t₁, b₁⟩, h₁, h⟩ := bind_eq_ok h
      obtain ⟨⟨t₂, b₂⟩, h₂, h⟩ := bind_eq_ok h
      injection h with h; injection h with h1 h2; subst h1 h2
      exact cases.startsWith (cases.expr e h₁) (cases.expr p h₂)
  | .jsonExtract base path, b, b', st, ts, h => by
      rw [renderWithStorage] at h
      injection h with h; injection h with h1 h2; subst h1 h2
      exact cases.jsonExtract fun h => cases.expr base h
  | .reference column, b, b', st, ts, h => by
      rw [renderWithStorage] at h
      split at h
      · rename_i hbool
        injection h with h; injection h with h1 h2; subst h1 h2
        exact cases.boolColumn hbool
      · rename_i hbool
        injection h with h; injection h with h1 h2; subst h1 h2
        exact cases.column hbool
  | .value v, b, b', st, ts, h => by
      rw [renderWithStorage] at h
      exact cases.value h
  | .list es, b, b', st, ts, h => by
      rw [renderWithStorage] at h
      obtain ⟨⟨parts, b₁⟩, h₁, h⟩ := bind_eq_ok h
      injection h with h; injection h with h1 h2; subst h1 h2
      exact cases.list (cases.items es h₁)
  | .other debug, b, b', st, ts, h => by
      rw [renderWithStorage] at h
      exact absurd h (by simp)

theorem operands (cases : RenderCases table P Q) : ∀ (es : List Expr) {b b' : Binds}
    {parts : List (List Token)}, renderOperands table b es = .ok (parts, b') → Q es none b parts b'
  | [], b, b', parts, h => by
      rw [renderOperands] at h
      injection h with h; injection h with h1 h2; subst h1 h2
      exact cases.nil
  | e :: es, b, b', parts, h => by
      rw [renderOperands] at h
      obtain ⟨⟨t₁, b₁⟩, h₁, h⟩ := bind_eq_ok h
      obtain ⟨⟨rest, b₂⟩, h₂, h⟩ := bind_eq_ok h
      injection h with h; injection h with h1 h2; subst h1 h2
      exact cases.cons (cases.expr e h₁) (cases.operands es h₂)

theorem items (cases : RenderCases table P Q) :
    ∀ (es : List Expr) {b b' : Binds} {st : Option DbType}
    {parts : List (List Token)}, renderItems table b es st = .ok (parts, b') → Q es st b parts b'
  | [], b, b', st, parts, h => by
      rw [renderItems] at h
      injection h with h; injection h with h1 h2; subst h1 h2
      exact cases.nil
  | e :: es, b, b', st, parts, h => by
      rw [renderItems] at h
      obtain ⟨⟨t₁, b₁⟩, h₁, h⟩ := bind_eq_ok h
      obtain ⟨⟨rest, b₂⟩, h₂, h⟩ := bind_eq_ok h
      injection h with h; injection h with h1 h2; subst h1 h2
      exact cases.cons (cases.expr e h₁) (cases.items es h₂)

end

end RenderCases

end ToastySurreal
