import ToastySurreal.Proof.Routing
import ToastySurreal.Proof.Session

/-!
# Literals stay out of the text

Two instances of an operation that differ in nothing but the contents of their literals,
keys and cursors are sent as the same statements: the contents only ever become values
of parameters. `Alike` says what two instances have in common. The proofs take the two
translations side by side; wherever both succeed they have written the same tokens and
named the same parameters.
-/

namespace ToastySurreal

open Results

/-! ## Instances of one shape -/

/-- How long a list literal is, and which literals are null. -/
inductive LiteralShape where
  | null
  | list (length : Nat)
  | scalar
  deriving DecidableEq

def Value.shape : Value → LiteralShape
  | .null => .null
  | .list items => .list items.length
  | _ => .scalar

/-- Two literals of one shape are lists of one length, or no list is among them. -/
theorem Value.lists_of_shape {v w : Value} (h : v.shape = w.shape) :
    (∃ items items', v = .list items ∧ w = .list items' ∧ items.length = items'.length) ∨
      (∀ items, v ≠ .list items) ∧ ∀ items, w ≠ .list items := by
  cases v with
  | list items =>
      cases w with
      | list items' => injection h with h; exact .inl ⟨items, items', rfl, rfl, h⟩
      | _ => exact absurd h (by simp [Value.shape])
  | _ =>
      refine .inr ⟨by simp, fun items hw => ?_⟩
      subst hw
      exact absurd h (by simp [Value.shape])

mutual

/-- One expression tree with other literals. A document path is rooted at a column, so it
has none to change; what the renderer does not know it refuses whatever it holds. -/
inductive Expr.Alike : Expr → Expr → Prop where
  | binaryOp {op l l' r r'} (hl : l.Alike l') (hr : r.Alike r') :
      Expr.Alike (.binaryOp op l r) (.binaryOp op l' r')
  | and {es es'} (h : Expr.AllAlike es es') : Expr.Alike (.and es) (.and es')
  | or {es es'} (h : Expr.AllAlike es es') : Expr.Alike (.or es) (.or es')
  | not {e e'} (h : e.Alike e') : Expr.Alike (.not e) (.not e')
  | isNull {e e'} (h : e.Alike e') : Expr.Alike (.isNull e) (.isNull e')
  | between {e e' lo lo' hi hi'} (he : e.Alike e') (hlo : lo.Alike lo') (hhi : hi.Alike hi') :
      Expr.Alike (.between e lo hi) (.between e' lo' hi')
  | inList {e e' l l'} (he : e.Alike e') (hl : l.Alike l') :
      Expr.Alike (.inList e l) (.inList e' l')
  | anyOp {op l l' r r'} (hl : l.Alike l') (hr : r.Alike r') :
      Expr.Alike (.anyOp op l r) (.anyOp op l' r')
  | isSuperset {l l' r r'} (hl : l.Alike l') (hr : r.Alike r') :
      Expr.Alike (.isSuperset l r) (.isSuperset l' r')
  | intersects {l l' r r'} (hl : l.Alike l') (hr : r.Alike r') :
      Expr.Alike (.intersects l r) (.intersects l' r')
  | length {e e'} (h : e.Alike e') : Expr.Alike (.length e) (.length e')
  | startsWith {e e' p p'} (he : e.Alike e') (hp : p.Alike p') :
      Expr.Alike (.startsWith e p) (.startsWith e' p')
  | jsonExtract (base path) : Expr.Alike (.jsonExtract base path) (.jsonExtract base path)
  | reference (column) : Expr.Alike (.reference column) (.reference column)
  | value {v w} (h : v.shape = w.shape) : Expr.Alike (.value v) (.value w)
  | list {es es'} (h : Expr.AllAlike es es') : Expr.Alike (.list es) (.list es')
  | other (debug debug') : Expr.Alike (.other debug) (.other debug')

inductive Expr.AllAlike : List Expr → List Expr → Prop where
  | nil : Expr.AllAlike [] []
  | cons {e e' es es'} (h : e.Alike e') (hs : Expr.AllAlike es es') :
      Expr.AllAlike (e :: es) (e' :: es')

end

/-- The hint a comparison gives the other side is the same. -/
theorem Expr.Alike.storageTy {e e' : Expr} (h : e.Alike e') :
    expressionStorageTy e = expressionStorageTy e' := by
  cases h <;> rfl

/-- Both are the same column or document path, or neither is one. -/
theorem Expr.Alike.columnShaped {e e' : Expr} (h : e.Alike e') :
    (∃ column, e = .reference column ∧ e' = .reference column) ∨
      (∃ base path, e = .jsonExtract base path ∧ e' = .jsonExtract base path) ∨
      ((∀ column, e ≠ .reference column) ∧ ∀ base path, e ≠ .jsonExtract base path) ∧
        (∀ column, e' ≠ .reference column) ∧ ∀ base path, e' ≠ .jsonExtract base path := by
  cases h with
  | reference column => exact .inl ⟨column, rfl, rfl⟩
  | jsonExtract base path => exact .inr (.inl ⟨base, path, rfl, rfl⟩)
  | _ => exact .inr (.inr (by simp))

/-! ## The same names -/

/-- The same parameters, with whatever values. -/
def SameNames (b b' : Binds) : Prop := b.values.map Prod.fst = b'.values.map Prod.fst

theorem SameNames.nextName {b b' : Binds} (h : SameNames b b') : b.nextName = b'.nextName := by
  have hlen := congrArg List.length h
  simp only [List.length_map] at hlen
  rw [Binds.nextName, Binds.nextName, hlen]

theorem SameNames.push {b b' : Binds} (h : SameNames b b') (v w : SurValue) :
    SameNames (b.push v).2 (b'.push w).2 := by
  show (b.values ++ [_]).map Prod.fst = (b'.values ++ [_]).map Prod.fst
  rw [List.map_append, List.map_append, h, List.map_singleton, List.map_singleton, h.nextName]

theorem SameNames.pushNamed {b b' : Binds} (h : SameNames b b') (name : String) (v w : SurValue) :
    SameNames (b.pushNamed name v) (b'.pushNamed name w) := by
  show (b.values ++ [_]).map Prod.fst = (b'.values ++ [_]).map Prod.fst
  rw [List.map_append, List.map_append, h, List.map_singleton, List.map_singleton]

/-- Two computations write the same and name the same parameters. -/
def SameForm {α : Type} (x y : Except Error (α × Binds)) : Prop :=
  Agree (fun r r' => r.1 = r'.1 ∧ SameNames r.2 r'.2) x y

section Form

variable {α β γ : Type} {x y : Except Error (α × Binds)}

theorem SameForm.ok {a : α} {b b' : Binds} (h : SameNames b b') :
    SameForm (.ok (a, b)) (.ok (a, b')) :=
  Agree.ok ⟨rfl, h⟩

/-- What follows them starts from the same text and the same names. -/
theorem SameForm.agree {T : γ → γ → Prop} {f g : α × Binds → Except Error γ} (h : SameForm x y)
    (hf : ∀ a b b', SameNames b b' → Agree T (f (a, b)) (g (a, b'))) : Agree T (x >>= f)
    (y >>= g) := by
  refine Agree.bind h fun r r' hr => ?_
  obtain ⟨a, b⟩ := r
  obtain ⟨a', b'⟩ := r'
  obtain ⟨ha, hb⟩ := hr
  obtain rfl : a = a' := ha
  exact hf a b b' hb

theorem SameForm.bind {f g : α × Binds → Except Error (β × Binds)} (h : SameForm x y)
    (hf : ∀ a b b', SameNames b b' → SameForm (f (a, b)) (g (a, b'))) :
    SameForm (x >>= f) (y >>= g) := h.agree hf

/-- A value that only gets bound. -/
theorem SameForm.after {v w : Except Error γ} {f g : γ → Except Error (β × Binds)}
    (hf : ∀ s s', SameForm (f s) (g s')) : SameForm (v >>= f) (w >>= g) :=
  Agree.bind Agree.any fun s s' _ => hf s s'

end Form

/-! ## Expressions -/

section Rendering

variable [Sdk] {table : Table} {b b' : Binds}

theorem bindItems_alike {storageTy : Option DbType} : ∀ {items items' : List Value} {b b' : Binds},
    items.length = items'.length → SameNames b b' →
    SameForm (bindItems b storageTy items) (bindItems b' storageTy items')
  | [], [], _, _, _, hb => .ok hb
  | _ :: items, _ :: items', b, b', hlen, hb => by
      refine SameForm.after fun s s' => ?_
      refine SameForm.bind (bindItems_alike (by simpa using hlen) (hb.push s s'))
        fun parts b₁ b₁' h₁ => ?_
      show SameForm (.ok ([.atom (.param b.nextName)] :: parts, b₁)) (.ok (_, b₁'))
      rw [hb.nextName]
      exact .ok h₁

theorem valueToBinds_single {storageTy : Option DbType} {v : Value} (h : ∀ items, v ≠ .list items) :
    valueToBinds b v storageTy =
      toSurrealWithStorage v storageTy >>= fun s =>
      .ok ([.atom (.param (b.push s).1)], (b.push s).2) := by
  cases v with
  | list items => exact absurd rfl (h items)
  | _ => rfl

theorem valueToBinds_alike {storageTy : Option DbType} {v w : Value} (h : v.shape = w.shape)
    (hb : SameNames b b') : SameForm (valueToBinds b v storageTy)
    (valueToBinds b' w storageTy) := by
  rcases Value.lists_of_shape h with ⟨items, items', rfl, rfl, hlen⟩ | ⟨hv, hw⟩
  · exact SameForm.bind (bindItems_alike hlen hb) fun parts b₁ b₁' h₁ => .ok h₁
  · rw [valueToBinds_single hv, valueToBinds_single hw]
    refine SameForm.after fun s s' => ?_
    show SameForm (α := List Token) (.ok ([.atom (.param b.nextName)], _)) (.ok (_, _))
    rw [hb.nextName]
    exact .ok (hb.push s s')

/-- A presence check of anything but a column or a document path renders what it checks. -/
theorem renderWithStorage_isNull {e : Expr} {storageTy : Option DbType}
    (href : ∀ column, e ≠ .reference column) (hpath : ∀ base path, e ≠ .jsonExtract base path) :
    renderWithStorage table b (.isNull e) storageTy = renderWithStorage table b e none >>= fun r =>
      .ok (r.1 ++ [.op .isOp, .atom .none], r.2) := by
  cases e with
  | reference column => exact absurd rfl (href column)
  | jsonExtract base path => exact absurd rfl (hpath base path)
  | _ => rfl

mutual

/-- **Expressions of one tree are written alike**: the literals only become values of
parameters. -/
theorem renderWithStorage_alike : ∀ {e e' : Expr} {b b' : Binds} {storageTy : Option DbType},
    e.Alike e' → SameNames b b' →
    SameForm (renderWithStorage table b e storageTy) (renderWithStorage table b' e' storageTy)
  | .binaryOp _ l r, _, b, b', st, .binaryOp hl hr, hb
  | .isSuperset l r, _, b, b', st, .isSuperset hl hr, hb
  | .intersects l r, _, b, b', st, .intersects hl hr, hb => by
      rw [renderWithStorage, renderWithStorage, hl.storageTy, hr.storageTy]
      refine SameForm.bind (renderWithStorage_alike hl hb) fun t₁ b₁ b₁' h₁ => ?_
      exact SameForm.bind (renderWithStorage_alike hr h₁) fun t₂ b₂ b₂' h₂ => .ok h₂
  | .and es, _, b, b', st, .and h, hb | .or es, _, b, b', st, .or h, hb => by
      rw [renderWithStorage, renderWithStorage]
      exact SameForm.bind (renderOperands_alike h hb) fun parts b₁ b₁' h₁ => .ok h₁
  | .not e, _, b, b', st, .not h, hb => by
      rw [renderWithStorage, renderWithStorage]
      exact SameForm.bind (renderWithStorage_alike h hb) fun t₁ b₁ b₁' h₁ => .ok h₁
  | .isNull e, _, b, b', st, .isNull h, hb => by
      rcases h.columnShaped with ⟨column, rfl, rfl⟩ | ⟨base, path, rfl, rfl⟩ | ⟨hplain, hplain'⟩
      · rw [renderWithStorage, renderWithStorage]
        exact .ok hb
      · rw [renderWithStorage, renderWithStorage]
        exact .ok hb
      · rw [renderWithStorage_isNull hplain.1 hplain.2,
          renderWithStorage_isNull hplain'.1 hplain'.2]
        exact SameForm.bind (renderWithStorage_alike h hb) fun t₁ b₁ b₁' h₁ => .ok h₁
  | .between e lo hi, _, b, b', st, .between he hlo hhi, hb => by
      rw [renderWithStorage, renderWithStorage, he.storageTy]
      refine SameForm.bind (renderWithStorage_alike he hb) fun t₁ b₁ b₁' h₁ => ?_
      refine SameForm.bind (renderWithStorage_alike hlo h₁) fun t₂ b₂ b₂' h₂ => ?_
      exact SameForm.bind (renderWithStorage_alike hhi h₂) fun t₃ b₃ b₃' h₃ => .ok h₃
  | .inList e l, _, b, b', st, .inList he hl, hb => by
      rw [renderWithStorage, renderWithStorage, he.storageTy]
      refine SameForm.bind (renderWithStorage_alike he hb) fun t₁ b₁ b₁' h₁ => ?_
      exact SameForm.bind (renderWithStorage_alike hl h₁) fun t₂ b₂ b₂' h₂ => .ok h₂
  | .anyOp op l r, _, b, b', st, .anyOp hl hr, hb => by
      rw [renderWithStorage, renderWithStorage, hr.storageTy]
      split
      · exact Agree.errorLeft _
      · refine SameForm.bind (renderWithStorage_alike hl hb) fun t₁ b₁ b₁' h₁ => ?_
        exact SameForm.bind (renderWithStorage_alike hr h₁) fun t₂ b₂ b₂' h₂ => .ok h₂
  | .length e, _, b, b', st, .length h, hb => by
      rw [renderWithStorage, renderWithStorage]
      exact SameForm.bind (renderWithStorage_alike h hb) fun t₁ b₁ b₁' h₁ => .ok h₁
  | .startsWith e p, _, b, b', st, .startsWith he hp, hb => by
      rw [renderWithStorage, renderWithStorage, he.storageTy]
      refine SameForm.bind (renderWithStorage_alike he hb) fun t₁ b₁ b₁' h₁ => ?_
      exact SameForm.bind (renderWithStorage_alike hp h₁) fun t₂ b₂ b₂' h₂ => .ok h₂
  | .jsonExtract base path, _, b, b', st, .jsonExtract _ _, hb => by
      rw [renderWithStorage, renderWithStorage]
      exact .ok hb
  | .reference column, _, b, b', st, .reference _, hb => by
      rw [renderWithStorage, renderWithStorage]
      split
      · exact .ok hb
      · exact .ok hb
  | .value v, _, b, b', st, .value h, hb => by
      rw [renderWithStorage, renderWithStorage]
      exact valueToBinds_alike h hb
  | .list es, _, b, b', st, .list h, hb => by
      rw [renderWithStorage, renderWithStorage]
      exact SameForm.bind (renderItems_alike h hb) fun parts b₁ b₁' h₁ => .ok h₁
  | .other debug, _, b, b', st, .other _ _, hb => by
      rw [renderWithStorage]
      exact Agree.errorLeft _

theorem renderOperands_alike : ∀ {es es' : List Expr} {b b' : Binds}, Expr.AllAlike es es' →
    SameNames b b' → SameForm (renderOperands table b es) (renderOperands table b' es')
  | [], _, b, b', .nil, hb => by
      rw [renderOperands, renderOperands]
      exact .ok hb
  | e :: es, _, b, b', .cons h hs, hb => by
      rw [renderOperands, renderOperands]
      refine SameForm.bind (renderWithStorage_alike h hb) fun t₁ b₁ b₁' h₁ => ?_
      exact SameForm.bind (renderOperands_alike hs h₁) fun parts b₂ b₂' h₂ => .ok h₂

theorem renderItems_alike : ∀ {es es' : List Expr} {b b' : Binds} {storageTy : Option DbType},
    Expr.AllAlike es es' → SameNames b b' →
    SameForm (renderItems table b es storageTy) (renderItems table b' es' storageTy)
  | [], _, b, b', st, .nil, hb => by
      rw [renderItems, renderItems]
      exact .ok hb
  | e :: es, _, b, b', st, .cons h hs, hb => by
      rw [renderItems, renderItems]
      refine SameForm.bind (renderWithStorage_alike h hb) fun t₁ b₁ b₁' h₁ => ?_
      exact SameForm.bind (renderItems_alike hs h₁) fun parts b₂ b₂' h₂ => .ok h₂

end

end Rendering

/-! ## Statements -/

/-- Which entries of a row are literals, and which of them are null. -/
def rowShape (row : Row) : List (Option Bool) := row.map (Option.map Value.isNull)

/-- An assignment with another literal, null or not as before. -/
inductive Assignment.Alike : Assignment → Assignment → Prop where
  | set {v w : Value} (h : v.isNull = w.isNull) : Assignment.Alike (.set v) (.set w)
  | add (v w : Value) : Assignment.Alike (.add v) (.add w)
  | subtract (v w : Value) : Assignment.Alike (.subtract v) (.subtract w)
  | append (v w : Value) : Assignment.Alike (.append v) (.append w)
  | other (debug debug' : String) : Assignment.Alike (.other debug) (.other debug')

/-- Assignments to the same columns. -/
def AlikeAssignments (as as' : List (ColumnId × Assignment)) : Prop :=
  List.Forall₂ (fun a a' => a.1 = a'.1 ∧ a.2.Alike a'.2) as as'

/-- The same numbers; a cursor where the other has one. -/
inductive Pagination.Alike : Pagination → Pagination → Prop where
  | offset (limit : Nat) (start : Option Nat) :
      Pagination.Alike (.offset limit start) (.offset limit start)
  | cursor (pageSize : Nat) {after after' : Option Value} (h : after.isSome = after'.isSome) :
      Pagination.Alike (.cursor pageSize after) (.cursor pageSize after')

structure GetByKey.Alike (op op' : GetByKey) : Prop where
  select : op.select = op'.select
  keys : op.keys.length = op'.keys.length

structure QueryPk.Alike (op op' : QueryPk) : Prop where
  select : op.select = op'.select
  pkFilter : op.pkFilter.Alike op'.pkFilter
  filter : Option.Rel Expr.Alike op.filter op'.filter
  order : op.order = op'.order
  limit : Option.Rel Pagination.Alike op.limit op'.limit

structure Scan.Alike (op op' : Scan) : Prop where
  columns : op.columns = op'.columns
  filter : Option.Rel Expr.Alike op.filter op'.filter
  limit : Option.Rel Pagination.Alike op.limit op'.limit

structure UpdateByKey.Alike (op op' : UpdateByKey) : Prop where
  keys : op.keys.length = op'.keys.length
  assignments : AlikeAssignments op.assignments op'.assignments
  filter : Option.Rel Expr.Alike op.filter op'.filter
  condition : Option.Rel Expr.Alike op.condition op'.condition
  returning : op.returning = op'.returning

structure DeleteByKey.Alike (op op' : DeleteByKey) : Prop where
  keys : op.keys.length = op'.keys.length
  filter : Option.Rel Expr.Alike op.filter op'.filter
  condition : Option.Rel Expr.Alike op.condition op'.condition

structure Insert.Alike (insert insert' : Insert) : Prop where
  columns : insert.columns = insert'.columns
  values : Option.Rel (List.Forall₂ fun row row' => rowShape row = rowShape row') insert.values
    insert'.values
  returning : insert.returning = insert'.returning

structure UpsertClause.Alike (clause clause' : UpsertClause) : Prop where
  target : clause.target = clause'.target
  action : clause.action = clause'.action
  shared : AlikeAssignments clause.shared clause'.shared
  defaults : AlikeAssignments clause.defaults clause'.defaults

structure Upsert.Alike (op op' : Upsert) : Prop where
  insert : op.insert.Alike op'.insert
  clause : Option.Rel UpsertClause.Alike op.clause op'.clause

/-- Two instances of one operation, over the same tables and of the same shape. -/
inductive Operation.Alike : Operation → Operation → Prop where
  | querySql (table : Table) {insert insert' : Insert} (ret : Bool) (h : insert.Alike insert') :
      Operation.Alike (.querySql (.ok (table, insert)) ret) (.querySql (.ok (table, insert')) ret)
  | insert (table : Table) {insert insert' : Insert} (ret : Bool) (h : insert.Alike insert') :
      Operation.Alike (.insert (some (table, insert)) ret) (.insert (some (table, insert')) ret)
  | getByKey (table : Table) {op op' : GetByKey} (h : op.Alike op') :
      Operation.Alike (.getByKey table op) (.getByKey table op')
  | queryPk (table : Table) {op op' : QueryPk} (h : op.Alike op') :
      Operation.Alike (.queryPk table op) (.queryPk table op')
  | findPkByIndex (table : Table) {op op' : FindPkByIndex} (h : op.filter.Alike op'.filter) :
      Operation.Alike (.findPkByIndex table op) (.findPkByIndex table op')
  | scan (table : Table) {op op' : Scan} (h : op.Alike op') :
      Operation.Alike (.scan table op) (.scan table op')
  | updateByKey (table : Table) {op op' : UpdateByKey} (h : op.Alike op') :
      Operation.Alike (.updateByKey table op) (.updateByKey table op')
  | deleteByKey (table : Table) {op op' : DeleteByKey} (h : op.Alike op') :
      Operation.Alike (.deleteByKey table op) (.deleteByKey table op')
  | upsert (table : Table) {op op' : Upsert} (h : op.Alike op') :
      Operation.Alike (.upsert table op) (.upsert table op')

/-- The same text and the same names of parameters. -/
structure Query.SameText (q q' : Query) : Prop where
  text : q.sql.text = q'.sql.text
  names : q.binds.map Prod.fst = q'.binds.map Prod.fst

/-- Two calls that differ in nothing but the values of parameters. -/
def Call.SameText : Call → Call → Prop
  | .plain q, .plain q' | .tx q, .tx q' => q.SameText q'
  | .begin, .begin | .commit, .commit | .cancel, .cancel => True
  | _, _ => False

section Queries

variable [Sdk] {table : Table} {b b' : Binds}

theorem renderPredicates_alike : ∀ {exprs exprs' : List (Option Expr)} {b b' : Binds},
    List.Forall₂ (Option.Rel Expr.Alike) exprs exprs' → SameNames b b' →
    SameForm (renderPredicates table b exprs) (renderPredicates table b' exprs')
  | [], _, _, _, .nil, hb => .ok hb
  | none :: rest, _, _, _, .cons .none hs, hb => by
      rw [renderPredicates, renderPredicates]
      exact renderPredicates_alike hs hb
  | some e :: rest, _, _, _, .cons (.some h) hs, hb => by
      rw [renderPredicates, renderPredicates]
      refine SameForm.bind (renderWithStorage_alike h hb) fun t₁ b₁ b₁' h₁ => ?_
      exact SameForm.bind (renderPredicates_alike hs h₁) fun clauses b₂ b₂' h₂ => .ok h₂

omit [Sdk] in
theorem pushClause_alike {column : Column} {rhs : String → SetRhs} {x y : Except Error SurValue}
    (hb : SameNames b b') : SameForm (x >>= fun v => .ok (pushClause b column rhs v))
      (y >>= fun v => .ok (pushClause b' column rhs v)) := by
  refine SameForm.after fun v w => ?_
  show SameForm (α := SetClause) (.ok (⟨column.name, rhs b.nextName⟩, (b.push v).2))
    (.ok (⟨column.name, rhs b'.nextName⟩, (b'.push w).2))
  rw [hb.nextName]
  exact .ok (hb.push v w)

theorem renderAssignment_alike {column : Column} {a a' : Assignment} (h : a.Alike a')
    (hb : SameNames b b') : SameForm (renderAssignment column b a)
    (renderAssignment column b' a') := by
  cases h with
  | set h =>
      rw [renderAssignment, renderAssignment, h]
      split
      · exact .ok hb
      · exact pushClause_alike hb
  | add v w => exact pushClause_alike hb
  | subtract v w => exact pushClause_alike hb
  | append v w => exact pushClause_alike hb
  | other debug debug' => exact Agree.errorLeft _

theorem renderAssignments_alike : ∀ {as as' : List (ColumnId × Assignment)} {b b' : Binds},
    AlikeAssignments as as' → SameNames b b' →
    SameForm (renderAssignments table b as) (renderAssignments table b' as')
  | [], _, _, _, .nil, hb => .ok hb
  | (cid, a) :: as, (_, a') :: as', _, _, .cons ⟨hcid, h⟩ hs, hb => by
      obtain rfl : cid = _ := hcid
      rw [renderAssignments, renderAssignments]
      refine SameForm.bind (renderAssignment_alike h hb) fun clause b₁ b₁' h₁ => ?_
      exact SameForm.bind (renderAssignments_alike hs h₁) fun clauses b₂ b₂' h₂ => .ok h₂

/-- **An update's text** does not depend on its key and literals. -/
theorem updateQuery_alike {op op' : UpdateByKey} (h : op.Alike op') (key key' : Value) :
    Agree Query.SameText (updateQuery table op key) (updateQuery table op' key') := by
  refine SameForm.agree (renderAssignments_alike h.assignments rfl) fun sets b₁ b₁' h₁ => ?_
  refine SameForm.agree (renderPredicates_alike (.cons h.filter (.cons h.condition .nil)) h₁)
    fun clauses b₂ b₂' h₂ => ?_
  refine Agree.bind Agree.any fun rid rid' _ => ?_
  rw [h.returning]
  exact .ok ⟨rfl, h₂.pushNamed "rid" rid.value rid'.value⟩

theorem deleteQuery_alike {op op' : DeleteByKey} (h : op.Alike op') (key key' : Value) :
    Agree Query.SameText (deleteQuery table op key) (deleteQuery table op' key') := by
  refine SameForm.agree (renderPredicates_alike (.cons h.filter (.cons h.condition .nil)) rfl)
    fun clauses b₁ b₁' h₁ => ?_
  exact Agree.bind Agree.any fun rid rid' _ => .ok ⟨rfl, h₁.pushNamed "rid" rid.value rid'.value⟩

theorem keyBinds_alike : ∀ {keys keys' : List Value} (i : Nat), keys.length = keys'.length →
    Agree (fun bs bs' => bs.map Prod.fst = bs'.map Prod.fst) (keyBinds table keys i)
    (keyBinds table keys' i)
  | [], [], _, _ => .ok rfl
  | _ :: keys, _ :: keys', i, h => by
      refine Agree.bind Agree.any fun rid rid' _ => ?_
      refine Agree.bind (keyBinds_alike (i + 1) (by simpa using h)) fun bs bs' hbs => .ok ?_
      rw [List.map_cons, List.map_cons, hbs]

/-- **A read by keys** names one parameter a key. -/
theorem getQuery_alike {op op' : GetByKey} (h : op.Alike op') :
    Agree Query.SameText (getQuery table op) (getQuery table op') := by
  refine Agree.bind (keyBinds_alike 0 h.keys) fun bs bs' hbs => .ok ⟨?_, hbs⟩
  rw [h.select, hbs]

theorem queryPkPredicate_alike {op op' : QueryPk} (h : op.Alike op') :
    SameForm (queryPkPredicate table op) (queryPkPredicate table op') := by
  refine SameForm.bind (renderWithStorage_alike h.pkFilter rfl) fun predicate b₁ b₁' h₁ => ?_
  have hfilter := h.filter
  generalize op.filter = filter at hfilter ⊢
  generalize op'.filter = filter' at hfilter ⊢
  cases hfilter with
  | none => exact .ok h₁
  | some hf => exact SameForm.bind (renderWithStorage_alike hf h₁) fun extra b₂ b₂' h₂ => .ok h₂

theorem scanPredicate_alike {filter filter' : Option Expr}
    (h : Option.Rel Expr.Alike filter filter') :
    SameForm (scanPredicate table filter) (scanPredicate table filter') := by
  cases h with
  | none => exact .ok rfl
  | some h => exact SameForm.bind (renderWithStorage_alike h rfl) fun toks b₁ b₁' h₁ => .ok h₁

/-- A page request with another limit and other parameters. -/
def KeysetSelect.withPage (input : KeysetSelect) (limit : Option Pagination) (binds : Binds) :
    KeysetSelect :=
  { input with limit := limit, binds := binds }

section

variable {input : KeysetSelect} {limit : Option Pagination}

omit [Sdk] in
theorem effectiveOrder_alike (h : Option.Rel Pagination.Alike input.limit limit) :
    effectiveOrder (input.withPage limit b) = effectiveOrder input := by
  obtain ⟨tableName, projection, predicate, sortRef, sortColumn, order, limit', b', select⟩ := input
  cases order with
  | some dir => rfl
  | none => cases h with
    | none => rfl
    | some h => cases h <;> rfl

theorem resumePart_alike (h : Option.Rel Pagination.Alike input.limit limit)
    (hb : SameNames input.binds b) :
    SameForm (resumePart input) (resumePart (input.withPage limit b)) := by
  have hclause : ∀ p, resumeClause (input.withPage limit b) p = resumeClause input p := fun p => by
    rw [resumeClause, resumeClause, effectiveOrder_alike h]; rfl
  obtain ⟨tableName, projection, predicate, sortRef, sortColumn, order, limit', b', select⟩ := input
  cases h with
  | none => exact .ok hb
  | some h => cases h with
    | offset limit start => exact .ok hb
    | cursor pageSize hafter =>
        rename_i after after'
        cases after with
        | none => cases after' with
          | none => exact .ok hb
          | some cursor => exact absurd hafter (by simp)
        | some cursor => cases after' with
          | none => exact absurd hafter (by simp)
          | some cursor' =>
              refine SameForm.after fun v w => ?_
              have hresume := hclause b'.nextName
              refine Agree.ok ⟨congrArg (fun clause => [clause]) ?_, hb.push v w⟩
              exact hresume.symm.trans (congrArg _ hb.nextName)

omit [Sdk] in
theorem limitOf_alike {limit' : Option Pagination} (h : Option.Rel Pagination.Alike limit' limit) :
    limitOf limit' = limitOf limit := by
  cases h with
  | none => rfl
  | some h => cases h <;> rfl

omit [Sdk] in
theorem sortOf_alike (h : Option.Rel Pagination.Alike input.limit limit) :
    sortOf (input.withPage limit b) = sortOf input := by
  rw [sortOf, sortOf, effectiveOrder_alike h]; rfl

/-- **A page's text** does not depend on its cursor. -/
theorem keysetQuery_alike (h : Option.Rel Pagination.Alike input.limit limit)
    (hb : SameNames input.binds b) :
    Agree Query.SameText (keysetQuery input) (keysetQuery (input.withPage limit b)) := by
  refine SameForm.agree (resumePart_alike h hb) fun resume b₁ b₁' h₁ => .ok ⟨?_, h₁⟩
  rw [sortOf_alike h, limitOf_alike h]; rfl

end

/-! ### Upserts -/

omit [Sdk] in
theorem mutationOf_alike (cid : ColumnId) : ∀ {as as' : List (ColumnId × Assignment)},
    AlikeAssignments as as' → Option.Rel Assignment.Alike (mutationOf as cid) (mutationOf as' cid)
  | [], _, .nil => .none
  | (cid₁, a) :: as, (_, a') :: as', .cons ⟨hcid, h⟩ hs => by
      obtain rfl : cid₁ = _ := hcid
      have ih := mutationOf_alike cid hs
      unfold mutationOf at ih ⊢
      by_cases hc : cid₁.index = cid.index
      · simp only [List.find?_cons, hc, decide_true, Option.map_some]
        exact .some h
      · simp only [List.find?_cons, hc, decide_false]
        exact ih

omit [Sdk] in
/-- The literals at one position of two rows are both null or neither is. -/
theorem rowValue_alike {op : String} {row row' : Row} (h : rowShape row = rowShape row')
    (position : Nat) :
    Agree (fun v v' => v.isNull = v'.isNull) (rowValue op row position)
    (rowValue op row' position) := by
  intro v v' hv hv'
  have hpos := congrArg (·[position]?) h
  simp only [rowShape, List.getElem?_map] at hpos
  unfold rowValue at hv hv'
  split at hv
  · rename_i value hrow
    split at hv'
    · rename_i value' hrow'
      injection hv with hv; injection hv' with hv'; subst hv hv'
      simpa [hrow, hrow'] using hpos
    · exact absurd hv' (by simp)
  · exact absurd hv (by simp)

section

variable {clause clause' : UpsertClause}

theorem createOnlySets_alike {row row' : Row} (hc : clause.Alike clause')
    (hrow : rowShape row = rowShape row') : ∀ {columns : List ColumnId} {position : Nat}
    {b b' : Binds}, SameNames b b' → SameForm (createOnlySets table clause row columns position b)
      (createOnlySets table clause' row' columns position b')
  | [], _, _, _, hb => .ok hb
  | cid :: columns, position, b, b', hb => by
      have hshared : (mutationOf clause.shared (table.column cid).id).isSome =
          (mutationOf clause'.shared (table.column cid).id).isSome := by
        have h := mutationOf_alike (table.column cid).id hc.shared
        generalize mutationOf clause.shared _ = m at h ⊢
        generalize mutationOf clause'.shared _ = m' at h ⊢
        cases h <;> rfl
      rw [createOnlySets, createOnlySets]
      dsimp only
      rw [hshared]
      split
      · exact createOnlySets_alike hc hrow hb
      · refine Agree.bind (rowValue_alike hrow position) fun v v' hnull => ?_
        rw [hnull]
        split
        · exact createOnlySets_alike hc hrow hb
        · refine SameForm.after fun s s' => ?_
          refine SameForm.bind (createOnlySets_alike hc hrow (hb.push s s'))
            fun sets b₁ b₁' h₁ => ?_
          show SameForm (α := List SetClause)
            (.ok (⟨(table.column cid).name, .orParam b.nextName⟩ :: sets, b₁))
            (.ok (⟨(table.column cid).name, .orParam b'.nextName⟩ :: sets, b₁'))
          rw [hb.nextName]
          exact .ok h₁

theorem defaultParam_alike {column : Column} {a a' : Option Assignment}
    (h : Option.Rel Assignment.Alike a a') (hb : SameNames b b') :
    SameForm (defaultParam column b a) (defaultParam column b' a') := by
  cases h with
  | none => exact Agree.errorLeft _
  | some h => cases h with
    | set h =>
        refine SameForm.after fun v w => ?_
        show SameForm (.ok (b.nextName, (b.push v).2)) (.ok (b'.nextName, (b'.push w).2))
        rw [hb.nextName]
        exact .ok (hb.push v w)
    | _ => exact Agree.errorLeft _

theorem renderSharedMutation_alike {column : Column} {d d' : Option Assignment} {a a' : Assignment}
    (hd : Option.Rel Assignment.Alike d d') (h : a.Alike a') (hb : SameNames b b') :
    SameForm (renderSharedMutation column d b a) (renderSharedMutation column d' b' a') := by
  cases h with
  | set h =>
      rw [renderSharedMutation, renderSharedMutation, h]
      split
      · exact .ok hb
      · exact pushClause_alike hb
  | add v w => exact SameForm.bind (defaultParam_alike hd hb) fun p b₁ b₁' h₁ => pushClause_alike h₁
  | subtract v w =>
      exact SameForm.bind (defaultParam_alike hd hb) fun p b₁ b₁' h₁ => pushClause_alike h₁
  | append v w =>
      exact SameForm.bind (defaultParam_alike hd hb) fun p b₁ b₁' h₁ => pushClause_alike h₁
  | other debug debug' => exact Agree.errorLeft _

theorem sharedSets_alike (hc : clause.Alike clause') : ∀ {as as' : List (ColumnId × Assignment)}
    {b b' : Binds}, AlikeAssignments as as' → SameNames b b' →
    SameForm (sharedSets table clause b as) (sharedSets table clause' b' as')
  | [], _, _, _, .nil, hb => .ok hb
  | (cid, a) :: as, (_, a') :: as', _, _, .cons ⟨hcid, h⟩ hs, hb => by
      obtain rfl : cid = _ := hcid
      refine SameForm.bind (renderSharedMutation_alike (mutationOf_alike cid hc.defaults) h hb)
        fun set b₁ b₁' h₁ => ?_
      exact SameForm.bind (sharedSets_alike hc hs h₁) fun sets b₂ b₂' h₂ => .ok h₂

/-- **An upsert's text** does not depend on its row, its mutations and their defaults. -/
theorem upsertQuery_alike {insert insert' : Insert} {row row' : Row} {returning : Bool}
    (hcolumns : insert.columns = insert'.columns) (hc : clause.Alike clause')
    (hrow : rowShape row = rowShape row') (rid rid' : RecordId) (content content' : Object) :
    Agree Query.SameText (upsertQuery table insert clause row rid content returning)
      (upsertQuery table insert' clause' row' rid' content' returning) := by
  unfold upsertQuery
  rw [hcolumns]
  refine SameForm.agree (createOnlySets_alike hc hrow rfl) fun created b₁ b₁' h₁ => ?_
  refine SameForm.agree (sharedSets_alike hc hc.shared h₁) fun shared b₂ b₂' h₂ => ?_
  dsimp only
  split
  · refine .ok ⟨?_, congrArg ("rid" :: ·) (h₂.push (.object content) (.object content'))⟩
    show (Sql.upsert (.merge b₂.nextName) returning).text = _
    rw [h₂.nextName]; rfl
  · exact .ok ⟨rfl, congrArg ("rid" :: ·) h₂⟩

omit [Sdk] in
theorem upsertSource_alike {op op' : Upsert} (h : op.Alike op') :
    Agree (fun s s' => s.1.Alike s'.1 ∧ rowShape s.2 = rowShape s'.2) (upsertSource table op)
      (upsertSource table op') := by
  intro s s' hs hs'
  obtain ⟨hclause, hvalues⟩ := upsertSource_ok hs
  obtain ⟨hclause', hvalues'⟩ := upsertSource_ok hs'
  have hc := h.clause
  have hv := h.insert.values
  rw [hclause, hclause'] at hc
  rw [hvalues, hvalues'] at hv
  cases hc with
  | some hc => cases hv with
    | some hv => cases hv with
      | cons hrow _ => exact ⟨hc, hrow⟩

end

end Queries

/-! ## Operations -/

section Operations

open Prog

variable [Sdk] {conn : Connection} {table : Table}

omit [Sdk] in
theorem callOf_sameText {q q' : Query} (h : q.SameText q') :
    Call.SameText (if conn.transaction then .tx q else .plain q)
      (if conn.transaction then .tx q' else .plain q') := by
  split <;> exact h

omit [Sdk] in
theorem runQuery_alike {q q' : Query} (h : q.SameText q') :
    (runQuery conn q).InStep Call.SameText (runQuery conn q') := by
  refine ⟨callOf_sameText h, fun r r' => ?_⟩
  cases r <;> cases r' <;> trivial

omit [Sdk] in
theorem runQuery_attempt_alike {q q' : Query} (h : q.SameText q') :
    (runQuery conn q).attempt.InStep Call.SameText (runQuery conn q').attempt := by
  refine ⟨callOf_sameText h, fun r r' => ?_⟩
  cases r <;> cases r' <;> trivial

theorem insertRows_alike {columns : List ColumnId} {wantReturn : Bool}
    {returning : Option (List Column)} :
    ∀ {rows rows' : List Row} (count count' : Nat) (records records' : List Value),
    rows.length = rows'.length →
    (insertRows conn table columns wantReturn returning rows count records).InStep Call.SameText
      (insertRows conn table columns wantReturn returning rows' count' records')
  | [], [], _, _, _, _, _ => trivial
  | _ :: rows, _ :: rows', count, count', records, records', hlen => by
      rw [insertRows, insertRows]
      refine InStep.lift_bind Agree.any fun built built' _ => ?_
      refine InStep.bind (runQuery_alike ⟨rfl, rfl⟩) fun value value' => ?_
      refine InStep.lift_bind Agree.any fun decoded decoded' _ => ?_
      exact insertRows_alike _ _ _ _ (by simpa using hlen)

theorem execInsert_alike {insert insert' : Insert} (h : insert.Alike insert') (ret : Bool) :
    (execInsert conn table insert ret).InStep Call.SameText
    (execInsert conn table insert' ret) := by
  unfold execInsert
  have hvalues := h.values
  generalize insert.values = values at hvalues ⊢
  generalize insert'.values = values' at hvalues ⊢
  cases hvalues with
  | none => trivial
  | some hrows =>
      rw [h.columns, h.returning]
      refine InStep.lift_bind (Agree.refl _) fun returning _ hr => ?_
      subst hr
      exact InStep.bind (insertRows_alike _ _ _ _ hrows.length_eq) fun n n' => trivial

theorem execGetByKey_alike {op op' : GetByKey} (h : op.Alike op') :
    (execGetByKey conn table op).InStep Call.SameText (execGetByKey conn table op') := by
  unfold execGetByKey
  have hempty : op.keys.isEmpty = op'.keys.isEmpty := by
    rw [Bool.eq_iff_iff, List.isEmpty_iff_length_eq_zero, List.isEmpty_iff_length_eq_zero, h.keys]
  rw [hempty]
  split
  · trivial
  · refine InStep.lift_bind (getQuery_alike h) fun q q' hq => ?_
    refine InStep.bind (runQuery_alike hq) fun value value' => ?_
    exact InStep.lift_bind Agree.any fun records records' _ => trivial

theorem runKeysetSelect_alike {input : KeysetSelect} {limit : Option Pagination} {b : Binds}
    (h : Option.Rel Pagination.Alike input.limit limit) (hb : SameNames input.binds b) :
    (runKeysetSelect conn input).InStep Call.SameText
    (runKeysetSelect conn (input.withPage limit b)) := by
  refine InStep.lift_bind (keysetQuery_alike h hb) fun q q' hq => ?_
  refine InStep.bind (runQuery_alike hq) fun value value' => ?_
  refine InStep.lift_bind Agree.any fun next next' _ => ?_
  exact InStep.lift_bind Agree.any fun records records' _ => trivial

theorem execQueryPk_alike {op op' : QueryPk} (h : op.Alike op') :
    (execQueryPk conn table op).InStep Call.SameText (execQueryPk conn table op') := by
  refine InStep.lift_bind (queryPkPredicate_alike h) fun r r' hr => ?_
  obtain ⟨predicate, b⟩ := r
  obtain ⟨_, b'⟩ := r'
  obtain ⟨rfl, hb⟩ := hr
  dsimp only
  rw [h.select, h.order]
  exact runKeysetSelect_alike h.limit hb

theorem execScan_alike {op op' : Scan} (h : op.Alike op') :
    (execScan conn table op).InStep Call.SameText (execScan conn table op') := by
  refine InStep.lift_bind (scanPredicate_alike h.filter) fun r r' hr => ?_
  obtain ⟨predicate, b⟩ := r
  obtain ⟨_, b'⟩ := r'
  obtain ⟨rfl, hb⟩ := hr
  dsimp only [scanSelect]
  rw [h.columns]
  exact runKeysetSelect_alike h.limit hb

theorem execFindPkByIndex_alike {op op' : FindPkByIndex} (h : op.filter.Alike op'.filter) :
    (execFindPkByIndex conn table op).InStep Call.SameText (execFindPkByIndex conn table op') := by
  refine InStep.lift_bind (renderWithStorage_alike h rfl) fun r r' hr => ?_
  obtain ⟨predicate, b⟩ := r
  obtain ⟨_, b'⟩ := r'
  obtain ⟨rfl, hb⟩ := hr
  refine InStep.bind (runQuery_alike ⟨rfl, hb⟩) fun value value' => ?_
  exact InStep.lift_bind Agree.any fun records records' _ => trivial

theorem execUpdateByKey_alike {op op' : UpdateByKey} (h : op.Alike op') :
    (execUpdateByKey conn table op).InStep Call.SameText (execUpdateByKey conn table op') := by
  refine InStep.lift_bind Agree.any fun key key' _ => ?_
  refine InStep.lift_bind (updateQuery_alike h key key') fun q q' hq => ?_
  refine InStep.bind (runQuery_alike hq) fun value value' => InStep.silent ?_ ?_
  -- nothing is sent after the rows came back
  all_goals
    dsimp only
    split
    · trivial
    · split
      · exact Asks.lift_bind fun records _ => trivial
      · trivial

theorem execDeleteByKey_alike {op op' : DeleteByKey} (h : op.Alike op') :
    (execDeleteByKey conn table op).InStep Call.SameText (execDeleteByKey conn table op') := by
  refine InStep.lift_bind Agree.any fun key key' _ => ?_
  refine InStep.lift_bind (deleteQuery_alike h key key') fun q q' hq => ?_
  refine InStep.bind (runQuery_alike hq) fun value value' => InStep.silent ?_ ?_
  all_goals
    dsimp only
    split <;> trivial

theorem execUpsert_alike {op op' : Upsert} (h : op.Alike op') :
    (execUpsert conn table op).InStep Call.SameText (execUpsert conn table op') := by
  refine InStep.lift_bind (upsertSource_alike h) fun source source' hsource => ?_
  obtain ⟨clause, row⟩ := source
  obtain ⟨clause', row'⟩ := source'
  obtain ⟨hc, hrow⟩ := hsource
  refine InStep.lift_bind Agree.any fun built built' _ => ?_
  rw [h.insert.returning]
  refine InStep.lift_bind (Agree.refl _) fun returning _ hr => ?_
  subst hr
  rw [hc.action]
  generalize clause'.action = action
  cases action with
  | update =>
      refine InStep.lift_bind (upsertQuery_alike h.insert.columns hc hrow _ _ _ _) fun q q' hq => ?_
      exact InStep.bind (runQuery_alike hq) fun value value' =>
        InStep.silent (Asks.lift _) (Asks.lift _)
  | ignore =>
      refine InStep.bind (runQuery_attempt_alike ⟨rfl, rfl⟩) fun result result' =>
        InStep.silent ?_ ?_
      · cases result with
        | ok value => exact Asks.lift _
        | error err => dsimp only; split <;> trivial
      · cases result' with
        | ok value => exact Asks.lift _
        | error err => dsimp only; split <;> trivial

omit [Sdk] in
theorem guarded_alike {α : Type} {name : String} {p p' : Action α} (h : p.InStep Call.SameText p') :
    (guarded conn name p).InStep Call.SameText (guarded conn name p') :=
  InStep.lift_bind Agree.any fun _ _ _ => h

/-- **Instances of one shape are sent alike.** -/
theorem exec_alike {op op' : Operation} (h : op.Alike op') :
    ∃ p p', exec conn op = conn.keep p ∧ exec conn op' = conn.keep p' ∧
    p.InStep Call.SameText p' := by
  cases h with
  | querySql table ret h => exact ⟨_, _, rfl, rfl, guarded_alike (execInsert_alike h ret)⟩
  | insert table ret h => exact ⟨_, _, rfl, rfl, guarded_alike (execInsert_alike h ret)⟩
  | getByKey table h => exact ⟨_, _, rfl, rfl, execGetByKey_alike h⟩
  | queryPk table h => exact ⟨_, _, rfl, rfl, execQueryPk_alike h⟩
  | findPkByIndex table h => exact ⟨_, _, rfl, rfl, execFindPkByIndex_alike h⟩
  | scan table h => exact ⟨_, _, rfl, rfl, execScan_alike h⟩
  | updateByKey table h => exact ⟨_, _, rfl, rfl, guarded_alike (execUpdateByKey_alike h)⟩
  | deleteByKey table h => exact ⟨_, _, rfl, rfl, guarded_alike (execDeleteByKey_alike h)⟩
  | upsert table h => exact ⟨_, _, rfl, rfl, guarded_alike (execUpsert_alike h)⟩

/-- **Literals stay out of the text**: two instances of one shape, whatever the database
answers to either, send the same statements with the same parameters, as far as both get;
and if neither fails they send the same number of them. -/
theorem literals_bound {op op' : Operation} (h : op.Alike op') {log log' : CallLog}
    {conn₁ conn₁' : Connection} {result result' : Except Error ExecResponse}
    (hrun : (exec conn op).Runs Replies [] log (.ok (conn₁, result)))
    (hrun' : (exec conn op').Runs Replies [] log' (.ok (conn₁', result'))) :
    (∀ c ∈ log.zip log', c.1.1.SameText c.2.1) ∧
      ∀ resp resp', result = .ok resp → result' = .ok resp' → log.length = log'.length := by
  obtain ⟨p, p', hp, hp', hstep⟩ := @exec_alike _ conn op op' h
  rw [hp] at hrun
  rw [hp'] at hrun'
  obtain ⟨r, hr, hout⟩ := runs_keep.mp hrun
  obtain ⟨r', hr', hout'⟩ := runs_keep.mp hrun'
  injection hout with hout; injection hout with _ hres; subst hres
  injection hout' with hout'; injection hout' with _ hres'; subst hres'
  obtain ⟨sent, sent', rfl, rfl, hall, hlen⟩ := hstep.logs hr hr'
  exact ⟨hall, hlen⟩

end Operations

/-- A table with two text columns. -/
def messages : Table where
  id := 0
  name := "messages"
  columns := [⟨⟨0, 0⟩, "id", .i64, .integer 8⟩, ⟨⟨0, 1⟩, "author", .string, .text⟩,
    ⟨⟨0, 2⟩, "body", .string, .text⟩]
  primaryKey := [⟨0, 0⟩]
  indices := []

/-- Overwrite a message of one of two authors. -/
def redaction (id : Int64) (author author' body : String) : Operation :=
  .updateByKey messages
    { keys := [.i64 id]
      assignments := [(⟨0, 2⟩, .set (.string body))]
      filter := some (.inList (.reference ⟨⟨0, 1⟩, "author", .string, .text⟩)
        (.value (.list [.string author, .string author'])))
      condition := none
      returning := none }

/-- What is sent for it. -/
def redactionSent (id : Int64) (author author' body : String) : CallLog :=
  [(.plain ⟨.update [⟨"body", .param "p0"⟩] [[.atom (.ref (.field "author") []), .op .inOp,
      .opening .array, .atom (.param "p1"), .comma, .atom (.param "p2"), .closing .array]] false,
    [("p0", .string body), ("p1", .string author), ("p2", .string author'),
      ("rid", .recordId "messages" (.number id))]⟩, .ok .none)]

/-- A body that would end the statement stays a parameter. -/
theorem redactions_sent_alike :
    (∀ c ∈ (redactionSent 1 "ada" "bob" "gone").zip
      (redactionSent 2 "eve" "$p0" "x'; DELETE messages"), c.1.1.SameText c.2.1) ∧
      ∀ resp resp', (.ok (.count 0) : Except Error ExecResponse) = .ok resp →
        (.ok (.count 0) : Except Error ExecResponse) = .ok resp' →
        (redactionSent 1 "ada" "bob" "gone").length =
          (redactionSent 2 "eve" "$p0" "x'; DELETE messages").length :=
  @literals_bound plain .new (redaction 1 "ada" "bob" "gone")
    (redaction 2 "eve" "$p0" "x'; DELETE messages") (.updateByKey messages
      { keys := rfl
        assignments := .cons ⟨rfl, .set rfl⟩ .nil
        filter := .some (.inList (.reference _) (.value rfl))
        condition := .none
        returning := rfl })
    _ _ .new .new _ _ ⟨.ok .none, _, rfl, rfl, rfl⟩ ⟨.ok .none, _, rfl, rfl, rfl⟩

end ToastySurreal
