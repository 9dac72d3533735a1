import ToastySurreal.Plain
import ToastySurreal.Proof.Render

/-!
# Which filters are read back as they were meant

The renderer glues operands and operators together and writes parentheses only in
some of its arms, so it matters what stands under what. `render_reads_iff` says
exactly when the text means what the filter denotes: the operands of a comparison
are no comparisons themselves, sums and differences are grouped to the left, no
conjunction or disjunction is empty, and a bool column, which is rendered as a
comparison with `true`, only stands where a truth value is wanted.
-/

namespace ToastySurreal

open Precedence Results

/-! ## When a filter is well grouped -/

/-- The level of what an expression is rendered as; brackets and atoms are above all
operators. -/
def Expr.level : Expr → Nat
  | .binaryOp op _ _ => sqlGrammar.prec op.sym
  | .isNull _ | .inList _ _ | .anyOp _ _ _ | .isSuperset _ _ | .intersects _ _ => 3
  | .reference column => if column.ty = .bool then 3 else 6
  | _ => 6

mutual

/-- No operand is rendered at a weaker level than the operator over it takes. -/
def Expr.grouped : Expr → Bool
  | .binaryOp op l r => decide (sqlGrammar.leftMin op.sym ≤ l.level) && l.grouped &&
      (decide (sqlGrammar.prec op.sym + 1 ≤ r.level) && r.grouped)
  | .and es | .or es => !es.isEmpty && allGrouped es
  | .not e | .length e => e.grouped
  | .isNull (.reference _) | .isNull (.jsonExtract _ _) => true
  | .isNull e => decide (4 ≤ e.level) && e.grouped
  | .between e lo hi =>
      decide (4 ≤ e.level) && e.grouped && (decide (4 ≤ lo.level) && lo.grouped) &&
      (decide (4 ≤ hi.level) && hi.grouped)
  | .inList l r | .anyOp _ l r | .isSuperset l r | .intersects l r =>
      decide (4 ≤ l.level) && l.grouped && (decide (4 ≤ r.level) && r.grouped)
  | .startsWith e s => decide (4 ≤ e.level) && e.grouped && s.grouped
  | .list es => allGrouped es
  | .jsonExtract _ _ | .reference _ | .value _ | .other _ => true

def allGrouped : List Expr → Bool
  | [] => true
  | e :: es => e.grouped && allGrouped es

end

mutual

/-- How often a bool column stands where its value is wanted and is rendered as a
comparison all the same. -/
def Expr.misplaced (pred : Bool) : Expr → Nat
  | .binaryOp _ l r | .inList l r | .anyOp _ l r | .isSuperset l r | .intersects l r =>
      l.misplaced false + r.misplaced false
  | .startsWith e s => e.misplaced false + (e.misplaced false + s.misplaced false)
  | .and es | .or es => allMisplaced true es
  | .list es => allMisplaced false es
  | .not e => e.misplaced true
  | .isNull (.reference _) | .isNull (.jsonExtract _ _) => 0
  | .isNull e | .length e => e.misplaced false
  | .between e lo hi =>
      (e.misplaced false + lo.misplaced false) + (e.misplaced false + hi.misplaced false)
  | .reference column => if pred then 0 else if column.ty = .bool then 1 else 0
  | .jsonExtract _ _ | .value _ | .other _ => 0

def allMisplaced (pred : Bool) : List Expr → Nat
  | [] => 0
  | e :: es => e.misplaced pred + allMisplaced pred es

end

mutual

/-- How many conjunctions and disjunctions have no operand. -/
def Expr.empties : Expr → Nat
  | .binaryOp _ l r | .inList l r | .anyOp _ l r | .isSuperset l r | .intersects l r =>
      l.empties + r.empties
  | .startsWith e s => e.empties + (e.empties + s.empties)
  | .and es | .or es => (if es.isEmpty then 1 else 0) + allEmpties es
  | .list es => allEmpties es
  | .isNull (.reference _) | .isNull (.jsonExtract _ _) => 0
  | .not e | .isNull e | .length e => e.empties
  | .between e lo hi => (e.empties + lo.empties) + (e.empties + hi.empties)
  | .jsonExtract _ _ | .reference _ | .value _ | .other _ => 0

def allEmpties : List Expr → Nat
  | [] => 0
  | e :: es => e.empties + allEmpties es

end

/-- The filters the renderer gets right. -/
def Expr.wellGrouped (e : Expr) : Bool := e.grouped && e.misplaced true == 0

/-! ## Grouping and fitting -/

theorem level_binaryOp (op : BinaryOp) (l r : Expr) :
    (Expr.binaryOp op l r).level = sqlGrammar.prec op.sym := rfl

theorem level_and (es : List Expr) : (Expr.and es).level = 6 := rfl
theorem level_or (es : List Expr) : (Expr.or es).level = 6 := rfl
theorem level_not (e : Expr) : (Expr.not e).level = 6 := rfl
theorem level_isNull (e : Expr) : (Expr.isNull e).level = 3 := rfl
theorem level_between (e lo hi : Expr) : (Expr.between e lo hi).level = 6 := rfl
theorem level_inList (l r : Expr) : (Expr.inList l r).level = 3 := rfl
theorem level_anyOp (op : BinaryOp) (l r : Expr) : (Expr.anyOp op l r).level = 3 := rfl
theorem level_isSuperset (l r : Expr) : (Expr.isSuperset l r).level = 3 := rfl
theorem level_intersects (l r : Expr) : (Expr.intersects l r).level = 3 := rfl
theorem level_length (e : Expr) : (Expr.length e).level = 6 := rfl
theorem level_startsWith (e p : Expr) : (Expr.startsWith e p).level = 6 := rfl
theorem level_jsonExtract (b : Expr) (path : List String) : (Expr.jsonExtract b path).level = 6 :=
  rfl
theorem level_reference (c : Column) :
    (Expr.reference c).level = if c.ty = .bool then 3 else 6 := rfl
theorem level_value (v : Value) : (Expr.value v).level = 6 := rfl
theorem level_list (es : List Expr) : (Expr.list es).level = 6 := rfl
theorem level_other (debug : String) : (Expr.other debug).level = 6 := rfl

theorem three_le_level (e : Expr) : 3 ≤ e.level := by
  cases e with
  | binaryOp op l r => cases op <;> simp [Expr.level, BinaryOp.sym, sqlGrammar]
  | reference column => simp only [Expr.level]; split <;> omega
  | _ => simp [Expr.level]

/-- A chain to the left fits at its own level when its operands fit next to it. -/
theorem fits_foldl {o : Op} (ho : sqlGrammar.chains (sqlGrammar.prec o) = true) :
    ∀ (ts : List Shape) (t : Shape),
    (ts.foldl (.bin o) t).fits sqlGrammar (sqlGrammar.prec o) = true ↔
      t.fits sqlGrammar (sqlGrammar.prec o) = true ∧
        ∀ u ∈ ts, u.fits sqlGrammar (sqlGrammar.prec o + 1) = true
  | [], t => by simp
  | u :: ts, t => by
      have hmin : sqlGrammar.leftMin o = sqlGrammar.prec o := by rw [Grammar.leftMin, if_pos ho]
      rw [List.foldl_cons, fits_foldl ho ts]
      simp [Cst.fits, hmin, and_assoc]

/-- A chain fits anywhere once it fits at its own level. -/
theorem fits_foldl_zero {o : Op} (ts : List Shape) {t : Shape}
    (ht : t.fits sqlGrammar 0 = t.fits sqlGrammar (sqlGrammar.prec o)) :
    (ts.foldl (.bin o) t).fits sqlGrammar 0 =
      (ts.foldl (.bin o) t).fits sqlGrammar (sqlGrammar.prec o) := by
  rcases List.eq_nil_or_concat ts with rfl | ⟨us, u, rfl⟩
  · exact ht
  · simp [List.foldl_append, Cst.fits]

mutual

/-- A grouped filter has no empty chain. -/
theorem empties_of_grouped : ∀ e : Expr, e.grouped = true → e.empties = 0
  | .binaryOp op l r, h => by
      simp only [Expr.grouped, Bool.and_eq_true] at h
      rw [Expr.empties, empties_of_grouped l h.1.2, empties_of_grouped r h.2.2]
  | .and es, h => by
      simp only [Expr.grouped, Bool.and_eq_true, Bool.not_eq_true'] at h
      rw [Expr.empties, allEmpties_of_grouped es h.2, h.1]; rfl
  | .or es, h => by
      simp only [Expr.grouped, Bool.and_eq_true, Bool.not_eq_true'] at h
      rw [Expr.empties, allEmpties_of_grouped es h.2, h.1]; rfl
  | .not e, h => by rw [Expr.empties]; exact empties_of_grouped e h
  | .length e, h => by rw [Expr.empties]; exact empties_of_grouped e h
  | .isNull e, h => by
      cases e with
      | reference column => rfl
      | jsonExtract base path => rfl
      | _ =>
          rw [Expr.grouped] at h
          · rw [Expr.empties]
            · simp only [Bool.and_eq_true] at h
              exact empties_of_grouped _ h.2
            all_goals simp
          all_goals simp
  | .between e lo hi, h => by
      simp only [Expr.grouped, Bool.and_eq_true] at h
      rw [Expr.empties, empties_of_grouped e h.1.1.2, empties_of_grouped lo h.1.2.2,
        empties_of_grouped hi h.2.2]
  | .inList l r, h => by
      simp only [Expr.grouped, Bool.and_eq_true] at h
      rw [Expr.empties, empties_of_grouped l h.1.2, empties_of_grouped r h.2.2]
  | .anyOp op l r, h => by
      simp only [Expr.grouped, Bool.and_eq_true] at h
      rw [Expr.empties, empties_of_grouped l h.1.2, empties_of_grouped r h.2.2]
  | .isSuperset l r, h => by
      simp only [Expr.grouped, Bool.and_eq_true] at h
      rw [Expr.empties, empties_of_grouped l h.1.2, empties_of_grouped r h.2.2]
  | .intersects l r, h => by
      simp only [Expr.grouped, Bool.and_eq_true] at h
      rw [Expr.empties, empties_of_grouped l h.1.2, empties_of_grouped r h.2.2]
  | .startsWith e p, h => by
      simp only [Expr.grouped, Bool.and_eq_true] at h
      rw [Expr.empties, empties_of_grouped e h.1.2, empties_of_grouped p h.2]
  | .list es, h => by rw [Expr.empties]; exact allEmpties_of_grouped es h
  | .jsonExtract _ _, _ => rfl
  | .reference _, _ => rfl
  | .value _, _ => rfl
  | .other _, _ => rfl

theorem allEmpties_of_grouped : ∀ es : List Expr, allGrouped es = true → allEmpties es = 0
  | [], _ => rfl
  | e :: es, h => by
      simp only [allGrouped, Bool.and_eq_true] at h
      rw [allEmpties, empties_of_grouped e h.1, allEmpties_of_grouped es h.2]

end

section Fits

variable [Sdk] {table : Table}

theorem valueShape_fits (v : Value) (storageTy : Option DbType) (n : Nat) :
    (valueShape v storageTy).fits sqlGrammar n = true := by
  unfold valueShape
  split
  · rename_i items
    simp only [Cst.fits, Bool.and_eq_true]
    refine ⟨rfl, fitsItems_iff.mpr ?_⟩
    intro t ht
    obtain ⟨item, _, rfl⟩ := List.mem_map.mp ht
    rfl
  · rfl

/-- A path is one token, whatever its base. -/
theorem shape_jsonExtract (base : Expr) (path : List String) (storageTy : Option DbType) :
    ∃ a, shape table (.jsonExtract base path) storageTy = .atom a := by
  cases base <;> exact ⟨_, rfl⟩

theorem shapeAll_eq_nil {es : List Expr} {storageTy : Option DbType} :
    shapeAll table es storageTy = [] ↔ es = [] := by
  cases es <;> simp [shapeAll]

omit [Sdk] in
/-- The parentheses around a chain of operands that all fit at level three. -/
theorem chain_fits {o : Op} (ho : sqlGrammar.chains (sqlGrammar.prec o) = true)
    (hlt : sqlGrammar.prec o < 3) {ss : List Shape} {G : Prop} (n : Nat)
    (hall : ∀ k ≤ 3, (∀ s ∈ ss, s.fits sqlGrammar k = true) ↔ G)
    (hone : ∀ s ∈ ss, ∀ k ≤ 3, s.fits sqlGrammar 0 = s.fits sqlGrammar k) :
    Cst.fits sqlGrammar n (.bracket .paren (chain o ss)) = true ↔ ss ≠ [] ∧ G := by
  cases ss with
  | nil => simp [Cst.fits, chain, sqlGrammar]
  | cons t ts =>
      have ht := hone t (List.mem_cons_self ..) (sqlGrammar.prec o) (by omega)
      have hbr : Cst.fits sqlGrammar n (.bracket .paren (chain o (t :: ts))) =
          (ts.foldl (.bin o) t).fits sqlGrammar 0 := by
        simp [Cst.fits, chain, Cst.fitsItems, sqlGrammar]
      rw [hbr, fits_foldl_zero ts ht, fits_foldl ho, ← hall (sqlGrammar.prec o + 1) (by omega)]
      simp only [List.mem_cons, forall_eq_or_imp, ne_eq, reduceCtorEq, not_false_eq_true, true_and]
      rw [← ht, hone t (List.mem_cons_self ..) (sqlGrammar.prec o + 1) (by omega)]

omit [Sdk] in
theorem leftMin_cmp {o : Op} (h : sqlGrammar.prec o = 3) : sqlGrammar.leftMin o = 4 := by
  rw [Grammar.leftMin, h]; rfl

mutual

/-- **What is rendered fits exactly when the filter is grouped.** -/
theorem shape_fits : ∀ (e : Expr) (storageTy : Option DbType) (n : Nat), n ≤ 6 →
    ((shape table e storageTy).fits sqlGrammar n = true ↔ n ≤ e.level ∧ e.grouped = true)
  | .binaryOp op l r, st, n, hn => by
      have hl := shape_fits l (expressionStorageTy r) (sqlGrammar.leftMin op.sym)
        (by cases op <;> simp [Grammar.leftMin, BinaryOp.sym, sqlGrammar])
      have hr := shape_fits r (expressionStorageTy l) (sqlGrammar.prec op.sym + 1)
        (by cases op <;> simp [BinaryOp.sym, sqlGrammar])
      rw [shape, Cst.fits]
      simp only [Bool.and_eq_true, decide_eq_true_eq, hl, hr, level_binaryOp, Expr.grouped,
        and_assoc]
  | .and es, st, n, hn => by
      -- a chain has its own parentheses, so only its operands count
      rw [shape, chain_fits rfl (by decide) n (shapeAll_fits es none) (shapeAll_level es none)]
      simp only [ne_eq, shapeAll_eq_nil, level_and, Expr.grouped, Bool.and_eq_true,
        Bool.not_eq_true', List.isEmpty_eq_false_iff]
      exact ⟨fun h => ⟨hn, h⟩, fun h => h.2⟩
  | .or es, st, n, hn => by
      rw [shape, chain_fits rfl (by decide) n (shapeAll_fits es none) (shapeAll_level es none)]
      simp only [ne_eq, shapeAll_eq_nil, level_or, Expr.grouped, Bool.and_eq_true,
        Bool.not_eq_true', List.isEmpty_eq_false_iff]
      exact ⟨fun h => ⟨hn, h⟩, fun h => h.2⟩
  | .not e, st, n, hn => by
      have he := shape_fits e none 0 (by omega)
      rw [shape]
      simp only [Cst.fits, Cst.fitsItems, Cst.isUnary, Bool.true_and, Bool.and_true,
        Bool.and_eq_true, he, level_not, Expr.grouped]
      exact ⟨fun h => ⟨hn, h.2.2⟩, fun h => ⟨rfl, Nat.zero_le _, h.2⟩⟩
  | .isNull e, st, n, hn => by
      -- the comparison with `NONE` is the same whatever is tested
      have hcmp : ∀ s : Shape, (Cst.fits sqlGrammar n (.bin .isOp s (.atom (.value .none))) = true ↔
          n ≤ 3 ∧ s.fits sqlGrammar 4 = true) := by
        intro s
        simp only [Cst.fits, Bool.and_true, Bool.and_eq_true, decide_eq_true_eq,
          leftMin_cmp (o := .isOp) rfl]
        exact Iff.rfl
      cases e with
      | reference column => rw [shape, hcmp]; simp [Cst.fits, level_isNull, Expr.grouped]
      | jsonExtract base path =>
          rw [shape, hcmp]
          have he := shape_fits (.jsonExtract base path) none 4 (by omega)
          rw [he]
          simp [level_isNull, level_jsonExtract, Expr.grouped]
      | _ =>
          rw [shape, hcmp, shape_fits _ none 4 (by omega)]
          · simp only [Expr.grouped, Bool.and_eq_true, decide_eq_true_eq]
            exact Iff.rfl
          all_goals simp
  | .between e lo hi, st, n, hn => by
      -- both comparisons hold the tested operand, on the left
      have he := shape_fits e none 4 (by omega)
      have hlo := shape_fits lo (expressionStorageTy e) 4 (by omega)
      have hhi := shape_fits hi (expressionStorageTy e) 4 (by omega)
      rw [shape]
      simp only [Cst.fits, Cst.fitsItems, Bool.and_true, Bool.and_eq_true, decide_eq_true_eq,
        leftMin_cmp (o := .ge) rfl, leftMin_cmp (o := .le) rfl,
        show sqlGrammar.prec .ge + 1 = 4 from rfl, show sqlGrammar.prec .le + 1 = 4 from rfl,
        he, hlo, hhi, level_between, Expr.grouped]
      constructor
      · intro h
        obtain ⟨_, ⟨_, ⟨_, he⟩, hlo⟩, ⟨_, _⟩, hhi⟩ := h
        exact ⟨hn, ⟨he, hlo⟩, hhi⟩
      · intro h
        obtain ⟨_, ⟨he, hlo⟩, hhi⟩ := h
        exact ⟨rfl, ⟨Nat.zero_le _, ⟨by decide, he⟩, hlo⟩, ⟨by decide, he⟩, hhi⟩
  | .inList l r, st, n, hn => by
      rw [shape]
      simp only [Cst.fits, Bool.and_eq_true, decide_eq_true_eq, leftMin_cmp (o := .inOp) rfl,
        show sqlGrammar.prec .inOp + 1 = 4 from rfl, shape_fits l none 4 (by omega),
        shape_fits r (expressionStorageTy l) 4 (by omega), level_inList, Expr.grouped, and_assoc]
      exact Iff.rfl
  | .anyOp op l r, st, n, hn => by
      rw [shape]
      simp only [Cst.fits, Bool.and_eq_true, decide_eq_true_eq, leftMin_cmp (o := .contains) rfl,
        show sqlGrammar.prec .contains + 1 = 4 from rfl, shape_fits r none 4 (by omega),
        shape_fits l (expressionStorageTy r) 4 (by omega), level_anyOp, Expr.grouped]
      exact ⟨fun h => ⟨h.1.1, h.2, h.1.2⟩, fun h => ⟨⟨h.1, h.2.2⟩, h.2.1⟩⟩
  | .isSuperset l r, st, n, hn => by
      rw [shape]
      simp only [Cst.fits, Bool.and_eq_true, decide_eq_true_eq, leftMin_cmp (o := .containsAll) rfl,
        show sqlGrammar.prec .containsAll + 1 = 4 from rfl,
        shape_fits l (expressionStorageTy r) 4 (by omega),
        shape_fits r (expressionStorageTy l) 4 (by omega), level_isSuperset, Expr.grouped,
        and_assoc]
      exact Iff.rfl
  | .intersects l r, st, n, hn => by
      rw [shape]
      simp only [Cst.fits, Bool.and_eq_true, decide_eq_true_eq, leftMin_cmp (o := .containsAny) rfl,
        show sqlGrammar.prec .containsAny + 1 = 4 from rfl,
        shape_fits l (expressionStorageTy r) 4 (by omega),
        shape_fits r (expressionStorageTy l) 4 (by omega), level_intersects, Expr.grouped,
        and_assoc]
      exact Iff.rfl
  | .length e, st, n, hn => by
      rw [shape]
      simp only [Cst.fits, Cst.fitsItems, Bool.and_true, Bool.and_eq_true,
        shape_fits e none 0 (by omega), level_length, Expr.grouped]
      exact ⟨fun h => ⟨hn, h.2.2⟩, fun h => ⟨rfl, Nat.zero_le _, h.2⟩⟩
  | .startsWith e p, st, n, hn => by
      -- it stands under `IS NOT`, and once more as an argument
      have he := shape_fits e none 4 (by omega)
      have he' := shape_fits e none 0 (by omega)
      have hp := shape_fits p (expressionStorageTy e) 0 (by omega)
      rw [shape]
      simp only [Cst.fits, Cst.fitsItems, Bool.and_true, Bool.and_eq_true, decide_eq_true_eq,
        leftMin_cmp (o := .isNot) rfl, he, he', hp, level_startsWith, Expr.grouped]
      constructor
      · intro h
        obtain ⟨_, ⟨_, _, he⟩, _, _, hp⟩ := h
        exact ⟨hn, he, hp.2⟩
      · intro h
        obtain ⟨_, he, hp⟩ := h
        exact ⟨rfl, ⟨Nat.zero_le _, by decide, he⟩, rfl, ⟨Nat.zero_le _, he.2⟩, Nat.zero_le _, hp⟩
  | .jsonExtract base path, st, n, hn => by
      have hatom : ∃ a, shape table (.jsonExtract base path) st = .atom a :=
        shape_jsonExtract base path st
      obtain ⟨a, ha⟩ := hatom
      rw [ha]
      simp only [Cst.fits, level_jsonExtract, Expr.grouped, true_iff]
      exact ⟨hn, trivial⟩
  | .reference column, st, n, hn => by
      rw [shape]
      -- a flag is written as a comparison with true
      by_cases hb : column.ty = .bool
      · simp only [hb, if_true, Cst.fits, Bool.and_true, decide_eq_true_eq, level_reference,
          Expr.grouped, and_true]
        exact Iff.rfl
      · simp only [hb, if_false, Cst.fits, level_reference, Expr.grouped, true_iff, and_true]
        exact hn
  | .value v, st, n, hn => by
      rw [shape]
      simp only [valueShape_fits, level_value, Expr.grouped, true_iff]
      exact ⟨hn, trivial⟩
  | .list es, st, n, hn => by
      rw [shape]
      simp only [Cst.fits, Bool.and_eq_true, fitsItems_iff, level_list, Expr.grouped,
        shapeAll_fits es st 0 (by omega)]
      exact ⟨fun h => ⟨hn, h.2⟩, fun h => ⟨rfl, h.2⟩⟩
  | .other debug, st, n, hn => by
      rw [shape]
      simp only [Cst.fits, level_other, Expr.grouped, true_iff]
      exact ⟨hn, trivial⟩

theorem shapeAll_fits : ∀ (es : List Expr) (storageTy : Option DbType) (k : Nat), k ≤ 3 →
    ((∀ s ∈ shapeAll table es storageTy, s.fits sqlGrammar k = true) ↔ allGrouped es = true)
  | [], st, k, _ => by simp [shapeAll, allGrouped]
  | e :: es, st, k, hk => by
      have hlevel : k ≤ e.level := Nat.le_trans hk (three_le_level e)
      simp [shapeAll, allGrouped, shape_fits e st k (by omega), hlevel, shapeAll_fits es st k hk]

theorem shapeAll_level : ∀ (es : List Expr) (storageTy : Option DbType),
    ∀ s ∈ shapeAll table es storageTy, ∀ k ≤ 3, s.fits sqlGrammar 0 = s.fits sqlGrammar k
  | [], st, s, hs, _, _ => by rw [shapeAll] at hs; exact absurd hs List.not_mem_nil
  | e :: es, st, s, hs, k, hk => by
      rw [shapeAll] at hs
      rcases List.mem_cons.mp hs with rfl | hs
      · have hlevel : k ≤ e.level := Nat.le_trans hk (three_le_level e)
        rw [Bool.eq_iff_iff, shape_fits e st 0 (by omega), shape_fits e st k (by omega)]
        simp [hlevel]
      · exact shapeAll_level es st s hs k hk

end

end Fits

/-! ## What is written against what is meant -/

section Meant

variable [Sdk]

/-- The tree an expression denotes. -/
def meant (table : Table) (pred : Bool) (e : Expr) (storageTy : Option DbType) : Shape :=
  denote (terms isParen) table pred e storageTy

def meantAll (table : Table) (pred : Bool) (es : List Expr) (storageTy : Option DbType) :
    List Shape :=
  denoteAll (terms isParen) table pred es storageTy

variable {table : Table} {V : Type}

omit [Sdk] in
theorem eval_foldl (alg : Algebra Operand Op Bracket V) (o : Op) : ∀ (ts : List Shape) (t : Shape),
    (ts.foldl (.bin o) t).eval isParen alg =
      (evalItems isParen alg ts).foldl (alg.op o) (t.eval isParen alg)
  | [], _ => rfl
  | u :: ts, t => by rw [List.foldl_cons, eval_foldl alg o ts]; rfl

omit [Sdk] in
theorem eval_chainOf (alg : Algebra Operand Op Bracket V) (o : Op) (unit : SurValue)
    (ts : List Shape) :
    (chainOf (terms isParen) o unit ts).eval isParen alg =
      chainOf alg o unit (evalItems isParen alg ts) := by
  cases ts with
  | nil => rfl
  | cons t ts => exact eval_foldl alg o ts t

theorem eval_denoteValue (alg : Algebra Operand Op Bracket V) (v : Value) (st : Option DbType) :
    (denoteValue (terms isParen) v st).eval isParen alg = denoteValue alg v st := by
  unfold denoteValue
  split
  · rename_i items
    have hitems : ∀ vs : List Value, evalItems isParen alg
        (vs.map fun item => (terms isParen).atom (.value (literal item st))) =
          vs.map fun item => alg.atom (.value (literal item st)) := by
      intro vs
      induction vs with
      | nil => rfl
      | cons v vs ih => rw [List.map_cons, evalItems, ih]; rfl
    show alg.bracket .array (evalItems isParen alg _) = _
    rw [hitems]
  · rfl

mutual

/-- The denotation is the value of the tree. -/
theorem eval_meant (alg : Algebra Operand Op Bracket V) : ∀ (pred : Bool) (e : Expr)
    (st : Option DbType), (meant table pred e st).eval isParen alg = denote alg table pred e st
  | _, .binaryOp op l r, st => by
      rw [denote, ← eval_meant alg false l, ← eval_meant alg false r]; rfl
  | _, .and es, st => by
      rw [denote, ← eval_meantAll alg true es none, ← eval_chainOf]; rfl
  | _, .or es, st => by
      rw [denote, ← eval_meantAll alg true es none, ← eval_chainOf]; rfl
  | _, .not e, st => by rw [denote, ← eval_meant alg true e]; rfl
  | _, .isNull e, st => by rw [denote, ← eval_meant alg false e]; rfl
  | _, .between e lo hi, st => by
      rw [denote, ← eval_meant alg false e, ← eval_meant alg false lo,
        ← eval_meant alg false hi]; rfl
  | _, .inList l r, st => by
      rw [denote, ← eval_meant alg false l, ← eval_meant alg false r]; rfl
  | _, .anyOp op l r, st => by
      rw [denote, ← eval_meant alg false l, ← eval_meant alg false r]; rfl
  | _, .isSuperset l r, st => by
      rw [denote, ← eval_meant alg false l, ← eval_meant alg false r]; rfl
  | _, .intersects l r, st => by
      rw [denote, ← eval_meant alg false l, ← eval_meant alg false r]; rfl
  | _, .length e, st => by rw [denote, ← eval_meant alg false e]; rfl
  | _, .startsWith e p, st => by
      rw [denote, ← eval_meant alg false e, ← eval_meant alg false p]; rfl
  | _, .jsonExtract base path, st => by cases base <;> rfl
  | pred, .reference column, st => by
      rw [meant, denote, denote]
      split <;> rfl
  | _, .value v, st => by rw [meant, denote, denote, eval_denoteValue]
  | _, .list es, st => by rw [denote, ← eval_meantAll alg false es st]; rfl
  | _, .other debug, st => rfl

theorem eval_meantAll (alg : Algebra Operand Op Bracket V) : ∀ (pred : Bool) (es : List Expr)
    (st : Option DbType),
    evalItems isParen alg (meantAll table pred es st) = denoteAll alg table pred es st
  | _, [], _ => rfl
  | pred, e :: es, st => by
      rw [denoteAll, ← eval_meant alg pred e, ← eval_meantAll alg pred es]; rfl

end

/-! ### Sizes -/

variable {wa wo : Nat}

omit [Sdk] in
theorem size_foldl (o : Op) : ∀ (ts : List Shape) (t : Shape),
    (ts.foldl (.bin o) t).size wa wo = t.size wa wo + sizeItems wa wo ts + wo * ts.length
  | [], t => by simp [sizeItems]
  | u :: ts, t => by
      rw [List.foldl_cons, size_foldl o ts, Cst.size, sizeItems, List.length_cons, Nat.mul_add]
      omega

theorem valueShape_eq (v : Value) (st : Option DbType) :
    valueShape v st = denoteValue (terms isParen) v st := by
  unfold valueShape denoteValue
  split <;> rfl

theorem length_shapeAll : ∀ (es : List Expr) (st : Option DbType),
    (shapeAll table es st).length = es.length
  | [], _ => rfl
  | e :: es, st => by rw [shapeAll, List.length_cons, length_shapeAll es, List.length_cons]

theorem length_meantAll : ∀ (pred : Bool) (es : List Expr) (st : Option DbType),
    (meantAll table pred es st).length = es.length
  | _, [], _ => rfl
  | pred, e :: es, st => by
      rw [meantAll, denoteAll, List.length_cons, List.length_cons]
      exact congrArg (· + 1) (length_meantAll pred es st)

omit [Sdk] in
/-- A chain weighs its operands and one operator less than it has operands; an empty
one is written as nothing and means an atom. -/
theorem size_chain {o : Op} {unit : SurValue} {ss ts : List Shape} {m n : Nat}
    (hlen : ss.length = ts.length)
    (h : sizeItems wa wo ss + wa * m = sizeItems wa wo ts + (wa + wo) * n) :
    Cst.size wa wo (.bracket .paren (chain o ss)) + wa * ((if ss.isEmpty then 1 else 0) + m) =
      (chainOf (terms isParen) o unit ts).size wa wo + (wa + wo) * n := by
  match ss, ts, hlen with
  | [], [], _ =>
      simp only [sizeItems] at h
      show 0 + wa * (1 + m) = wa + (wa + wo) * n
      rw [Nat.mul_add]; omega
  | s :: ss, t :: ts, hlen =>
      have hl : ss.length = ts.length := by simpa using hlen
      simp only [sizeItems] at h
      have hs : Cst.size wa wo (.bracket .paren (chain o (s :: ss))) =
          s.size wa wo + sizeItems wa wo ss + wo * ss.length := by
        rw [Cst.size, chain, sizeItems, sizeItems, size_foldl]; omega
      have ht : (chainOf (terms isParen) o unit (t :: ts)).size wa wo =
          t.size wa wo + sizeItems wa wo ts + wo * ts.length := size_foldl o ts t
      rw [hs, ht, hl]
      simp only [List.isEmpty_cons, Bool.false_eq_true, if_false, Nat.zero_add]
      omega

omit [Sdk] in
theorem size_isNull {s t : Shape} {m n : Nat}
    (h : s.size wa wo + wa * m = t.size wa wo + (wa + wo) * n) :
    Cst.size wa wo (.bin .isOp s (.atom (.value .none))) + wa * m =
      Cst.size wa wo (.bin .isOp t (.atom (.value .none))) + (wa + wo) * n := by
  rw [Cst.size, Cst.size, Cst.size, Cst.size]
  omega

theorem isEmpty_shapeAll (es : List Expr) (st : Option DbType) :
    (shapeAll table es st).isEmpty = es.isEmpty := by
  cases es <;> rfl

mutual

/-- **What is written weighs more than what is meant** by a comparison for every
misplaced bool column, and less by an atom for every empty chain. -/
theorem size_shape : ∀ (pred : Bool) (e : Expr) (st : Option DbType),
    (shape table e st).size wa wo + wa * e.empties =
      (meant table pred e st).size wa wo + (wa + wo) * e.misplaced pred
  | pred, .binaryOp _ l r, st | pred, .isSuperset l r, st | pred, .intersects l r, st => by
      have hl := size_shape false l (expressionStorageTy r)
      have hr := size_shape false r (expressionStorageTy l)
      rw [shape, Cst.size, Expr.empties, Expr.misplaced, Nat.mul_add, Nat.mul_add]
      show _ = (meant table false l (expressionStorageTy r)).size wa wo +
        (meant table false r (expressionStorageTy l)).size wa wo + wo + _
      omega
  | pred, .and es, st => by
      have h := @size_chain wa wo .and (.bool true) _ _ _ _
        (by rw [length_shapeAll, length_meantAll]) (sizeAll_shape true es none)
      rw [isEmpty_shapeAll] at h
      rw [shape]; exact h
  | pred, .or es, st => by
      have h := @size_chain wa wo .or (.bool false) _ _ _ _
        (by rw [length_shapeAll, length_meantAll]) (sizeAll_shape true es none)
      rw [isEmpty_shapeAll] at h
      rw [shape]; exact h
  | pred, .not e, st => by
      have he := size_shape true e none
      rw [shape, Cst.size, Cst.size, sizeItems, sizeItems, Nat.add_zero]
      exact he
  | pred, .isNull e, st => by
      cases e with
      | reference column =>
          rw [shape]
          show wa + wa + wo + wa * 0 = wa + wa + wo + (wa + wo) * 0
          omega
      | jsonExtract base path =>
          have he := size_shape false (.jsonExtract base path) none
          rw [shape]; exact size_isNull he
      | _ =>
          rw [shape, Expr.empties, Expr.misplaced]
          · exact size_isNull (size_shape false _ none)
          all_goals simp
  | pred, .between e lo hi, st => by
      have he := size_shape false e none
      have hlo := size_shape false lo (expressionStorageTy e)
      have hhi := size_shape false hi (expressionStorageTy e)
      rw [shape]
      simp only [Cst.size, sizeItems, Expr.empties, Expr.misplaced, Nat.mul_add, Nat.add_zero]
      show _ = (meant table false e none).size wa wo +
        (meant table false lo (expressionStorageTy e)).size wa wo + wo +
        ((meant table false e none).size wa wo +
          (meant table false hi (expressionStorageTy e)).size wa wo + wo) + wo + _
      omega
  | pred, .inList l r, st => by
      have hl := size_shape false l none
      have hr := size_shape false r (expressionStorageTy l)
      rw [shape, Cst.size, Expr.empties, Expr.misplaced, Nat.mul_add, Nat.mul_add]
      show _ = (meant table false l none).size wa wo +
        (meant table false r (expressionStorageTy l)).size wa wo + wo + _
      omega
  | pred, .anyOp op l r, st => by
      have hl := size_shape false l (expressionStorageTy r)
      have hr := size_shape false r none
      rw [shape, Cst.size, Expr.empties, Expr.misplaced, Nat.mul_add, Nat.mul_add]
      show _ = (meant table false r none).size wa wo +
        (meant table false l (expressionStorageTy r)).size wa wo + wo + _
      omega
  | pred, .length e, st => by
      have he := size_shape false e none
      rw [shape, Cst.size, sizeItems, sizeItems, Expr.empties, Expr.misplaced]
      show _ = (meant table false e none).size wa wo + 0 + _
      omega
  | pred, .startsWith e p, st => by
      have he := size_shape false e none
      have hp := size_shape false p (expressionStorageTy e)
      rw [shape]
      simp only [Cst.size, sizeItems, Expr.empties, Expr.misplaced, Nat.mul_add, Nat.add_zero]
      show _ = (meant table false e none).size wa wo + wa + wo +
        ((meant table false e none).size wa wo +
          ((meant table false p (expressionStorageTy e)).size wa wo + 0)) + wo + _
      omega
  | pred, .jsonExtract base path, st => by cases base <;> rfl
  | pred, .reference column, st => by
      rw [shape, meant, denote, Expr.empties, Expr.misplaced]
      by_cases hb : column.ty = .bool
      · cases pred with
        | true => simp [hb, terms]
        | false =>
            simp only [hb, Bool.false_and, Bool.false_eq_true, if_true, if_false]
            show wa + wa + wo + wa * 0 = wa + (wa + wo) * 1
            omega
      · have hb' : (column.ty == .bool) = false := by simpa using hb
        simp only [hb, hb', Bool.and_false, Bool.false_eq_true, if_false, ite_self]
        rfl
  | pred, .value v, st => by
      rw [shape, meant, denote, valueShape_eq, Expr.empties, Expr.misplaced]
      omega
  | pred, .list es, st => by
      have h := sizeAll_shape false es st
      rw [shape, Cst.size]; exact h
  | pred, .other debug, st => rfl

theorem sizeAll_shape : ∀ (pred : Bool) (es : List Expr) (st : Option DbType),
    sizeItems wa wo (shapeAll table es st) + wa * allEmpties es =
      sizeItems wa wo (meantAll table pred es st) + (wa + wo) * allMisplaced pred es
  | _, [], _ => by simp [shapeAll, meantAll, denoteAll, sizeItems, allEmpties, allMisplaced]
  | pred, e :: es, st => by
      have he := size_shape pred e st
      have hes := sizeAll_shape pred es st
      rw [shapeAll, sizeItems, allEmpties, allMisplaced, Nat.mul_add, Nat.mul_add]
      show _ = (meant table pred e st).size wa wo + sizeItems wa wo (meantAll table pred es st) + _
      omega

end

/-! ### Shapes -/

omit [Sdk] in
theorem erase_foldl (o : Op) : ∀ (ts : List Shape) (t : Shape),
    (ts.foldl (.bin o) t).erase isParen = (eraseItems isParen ts).foldl (.bin o) (t.erase isParen)
  | [], _ => rfl
  | u :: ts, t => by rw [List.foldl_cons, erase_foldl o ts]; rfl

omit [Sdk] in
/-- Chains of operands of one shape have one shape, unless they are empty. -/
theorem erase_chain {o : Op} {unit : SurValue} {ss ts : List Shape} (hne : ss ≠ [])
    (h : eraseItems isParen ts = eraseItems isParen ss) :
    (chainOf (terms isParen) o unit ts).erase isParen =
      Cst.erase isParen (.bracket .paren (chain o ss)) := by
  match ss, ts with
  | [], _ => exact absurd rfl hne
  | s :: ss, [] => exact absurd h (by simp [eraseItems])
  | s :: ss, t :: ts =>
      simp only [eraseItems, List.cons.injEq] at h
      show (ts.foldl (.bin o) t).erase isParen = (ss.foldl (.bin o) s).erase isParen
      rw [erase_foldl, erase_foldl, h.1, h.2]

mutual

/-- **What is written has the shape of what is meant** when no bool column is misplaced
and no chain is empty. -/
theorem erase_meant : ∀ (pred : Bool) (e : Expr) (st : Option DbType), e.misplaced pred = 0 →
    e.empties = 0 → (meant table pred e st).erase isParen = (shape table e st).erase isParen
  | pred, .binaryOp _ l r, st, hm, he | pred, .isSuperset l r, st, hm, he
  | pred, .intersects l r, st, hm, he => by
      simp only [Expr.misplaced, Expr.empties, Nat.add_eq_zero_iff] at hm he
      have hl := erase_meant false l (expressionStorageTy r) hm.1 he.1
      have hr := erase_meant false r (expressionStorageTy l) hm.2 he.2
      rw [shape, Cst.erase, ← hl, ← hr]; rfl
  | pred, .and es, st, hm, he | pred, .or es, st, hm, he => by
      simp only [Expr.misplaced, Expr.empties, Nat.add_eq_zero_iff] at hm he
      have hne : es ≠ [] := by rintro rfl; exact absurd he.1 (by simp)
      rw [shape]
      exact erase_chain (by rwa [ne_eq, shapeAll_eq_nil]) (eraseAll_meant true es none hm he.2)
  | pred, .not e, st, hm, he => by
      have h := erase_meant true e none hm he
      rw [shape]
      show Cst.pre ((meant table true e none).erase isParen) =
          .pre ((shape table e none).erase isParen)
      rw [h]
  | pred, .isNull e, st, hm, he => by
      cases e with
      | reference column => rfl
      | jsonExtract base path =>
          have h := erase_meant false (.jsonExtract base path) none rfl rfl
          rw [shape, Cst.erase, ← h]; rfl
      | _ =>
          rw [Expr.misplaced] at hm
          · rw [Expr.empties] at he
            · rw [shape]
              · exact congrArg (fun t : Shape => Cst.bin .isOp t (.atom (.value .none)))
                  (erase_meant false _ none hm he)
              all_goals simp
            all_goals simp
          all_goals simp
  | pred, .between e lo hi, st, hm, he => by
      simp only [Expr.misplaced, Expr.empties, Nat.add_eq_zero_iff] at hm he
      have h := erase_meant false e none hm.1.1 he.1.1
      have hlo := erase_meant false lo (expressionStorageTy e) hm.1.2 he.1.2
      have hhi := erase_meant false hi (expressionStorageTy e) hm.2.2 he.2.2
      rw [shape]
      show Cst.bin .and (.bin .ge ((meant table false e none).erase isParen)
          ((meant table false lo (expressionStorageTy e)).erase isParen))
        (.bin .le ((meant table false e none).erase isParen)
          ((meant table false hi (expressionStorageTy e)).erase isParen)) = _
      rw [h, hlo, hhi]; rfl
  | pred, .inList l r, st, hm, he => by
      simp only [Expr.misplaced, Expr.empties, Nat.add_eq_zero_iff] at hm he
      have hl := erase_meant false l none hm.1 he.1
      have hr := erase_meant false r (expressionStorageTy l) hm.2 he.2
      rw [shape, Cst.erase, ← hl, ← hr]; rfl
  | pred, .anyOp op l r, st, hm, he => by
      simp only [Expr.misplaced, Expr.empties, Nat.add_eq_zero_iff] at hm he
      have hl := erase_meant false l (expressionStorageTy r) hm.1 he.1
      have hr := erase_meant false r none hm.2 he.2
      rw [shape, Cst.erase, ← hl, ← hr]; rfl
  | pred, .length e, st, hm, he => by
      have h := erase_meant false e none hm he
      rw [shape]
      show Cst.bracket .arrayLen [(meant table false e none).erase isParen] =
        .bracket .arrayLen [(shape table e none).erase isParen]
      rw [h]
  | pred, .startsWith e p, st, hm, he => by
      simp only [Expr.misplaced, Expr.empties, Nat.add_eq_zero_iff] at hm he
      have h := erase_meant false e none hm.1 he.1
      have hp := erase_meant false p (expressionStorageTy e) hm.2.2 he.2.2
      rw [shape]
      show Cst.bin .and (.bin .isNot ((meant table false e none).erase isParen)
          (.atom (.value .none)))
        (.bracket .startsWith [(meant table false e none).erase isParen,
          (meant table false p (expressionStorageTy e)).erase isParen]) = _
      rw [h, hp]; rfl
  | pred, .jsonExtract base path, st, _, _ => by cases base <;> rfl
  | pred, .reference column, st, hm, _ => by
      rw [shape, meant, denote]
      by_cases hb : column.ty = .bool
      · cases pred with
        | true => simp [hb, terms, Cst.erase]
        | false => exact absurd hm (by simp [Expr.misplaced, hb])
      · have hb' : (column.ty == .bool) = false := by simpa using hb
        simp only [hb, hb', Bool.and_false, Bool.false_eq_true, if_false]
        rfl
  | pred, .value v, st, _, _ => by rw [shape, meant, denote, valueShape_eq]
  | pred, .list es, st, hm, he => by
      have h := eraseAll_meant false es st hm he
      rw [shape]
      show Cst.bracket .array (eraseItems isParen (meantAll table false es st)) =
        .bracket .array (eraseItems isParen (shapeAll table es st))
      rw [h]
  | pred, .other debug, st, _, _ => rfl

theorem eraseAll_meant : ∀ (pred : Bool) (es : List Expr) (st : Option DbType),
    allMisplaced pred es = 0 → allEmpties es = 0 →
    eraseItems isParen (meantAll table pred es st) = eraseItems isParen (shapeAll table es st)
  | _, [], _, _, _ => rfl
  | pred, e :: es, st, hm, he => by
      simp only [allMisplaced, allEmpties, Nat.add_eq_zero_iff] at hm he
      have h := erase_meant pred e st hm.1 he.1
      have hs := eraseAll_meant pred es st hm.2 he.2
      rw [shapeAll, eraseItems, ← h, ← hs]; rfl

end

/-! ## Reading filters back -/

/-- The text parses as one expression, and whatever the operators mean, the expression
has the value the filter denotes once the parameters are substituted. -/
def ReadsBack (table : Table) (e : Expr) (toks : List Token) (binds : Binds) : Prop :=
  ∃ p, parse sqlGrammar toks = some p ∧
    ∀ (V : Type) (alg : Algebra Operand Op Bracket V),
      (p.map (resolve binds)).eval isParen alg = denote alg table true e none

/-- **The filters that keep their meaning.** What `render` accepts is read back as it was
meant exactly when the filter is well grouped. -/
theorem render_reads_iff {table : Table} {e : Expr} {binds binds' : Binds} {toks : List Token}
    (hc : e.onColumns = true) (hb : binds.Numbered)
    (h : render table binds e = .ok (toks, binds')) :
    ReadsBack table e toks binds' ↔ e.wellGrouped = true := by
  have hr := renderWithStorage_renders e hc hb h
  obtain ⟨c, hy, hm⟩ := hr.tree
  have hmap : c.map (resolve binds') = shape table e none :=
    hm binds' hr.numbered (List.prefix_refl _)
  have hfit : c.fits sqlGrammar 0 = true ↔ e.grouped = true := by
    rw [← fits_map (f := resolve binds'), hmap, shape_fits e none 0 (by omega)]
    simp
  -- two sizes tell the comparisons written too often from the atoms left out
  have hsize : (∀ wa wo, (meant table true e none).size wa wo =
        (c.map (resolve binds')).size wa wo) ↔ e.misplaced true = 0 ∧ e.empties = 0 := by
    rw [hmap]
    constructor
    · intro hs
      have hops := @size_shape _ table 0 1 true e none
      have hatoms := @size_shape _ table 1 0 true e none
      have h1 := hs 0 1
      have h2 := hs 1 0
      omega
    · intro hz wa wo
      have hw := @size_shape _ table wa wo true e none
      rw [hz.1, hz.2] at hw
      omega
  have hshape := fun hz : e.misplaced true = 0 ∧ e.empties = 0 =>
    @erase_meant _ table true e none hz.1 hz.2
  have hreads := reads_iff (f := resolve binds') isParen_takes (c := c)
    (t := meant table true e none) fun hs => by rw [hshape (hsize.mp hs), hmap]
  have hback : ReadsBack table e toks binds' ↔ ∃ p, parse sqlGrammar (c.yield sqlGrammar) = some p ∧
      ∀ (V : Type) (alg : Algebra Operand Op Bracket V),
        (p.map (resolve binds')).eval isParen alg = (meant table true e none).eval isParen alg := by
    simp only [ReadsBack, hy, eval_meant]
  rw [hback, hreads, hfit, Expr.wellGrouped, Bool.and_eq_true, beq_iff_eq]
  constructor
  · intro hg
    obtain ⟨hg, hs⟩ := hg
    refine ⟨hg, (hsize.mp fun wa wo => ?_).1⟩
    rw [← @size_erase _ _ _ wa wo isParen, hs, size_erase]
  · intro hg
    obtain ⟨hg, hz⟩ := hg
    exact ⟨hg, by rw [hshape ⟨hz, empties_of_grouped e hg⟩, hmap]⟩

end Meant

/-- A table with a flag. -/
def todos : Table where
  id := 0
  name := "todos"
  columns := [⟨⟨0, 0⟩, "id", .i64, .integer 8⟩, ⟨⟨0, 1⟩, "done", .bool, .boolean⟩]
  primaryKey := [⟨0, 0⟩]
  indices := []

/-- `done == true` is rendered as "done = true = $p0", which is no expression. -/
theorem flag_equality_unreadable :
    ¬ ∀ (e : Expr) (toks : List Token) (binds : Binds), e.onColumns = true →
      @render plain todos .empty e = .ok (toks, binds) → @ReadsBack plain todos e toks binds := by
  intro h
  have hok := h (.binaryOp .eq (.reference ⟨⟨0, 1⟩, "done", .bool, .boolean⟩) (.value (.bool true)))
    _ _ rfl rfl
  obtain ⟨p, hp, _⟩ := hok
  have hnone : parse sqlGrammar ([.atom (.ref (.field "done") []), .op .eq, .atom .true, .op .eq,
      .atom (.param "p0")] : List Token) = none := rfl
  exact absurd (hnone.symm.trans hp) (by simp)

/-- `!done && id - 1 > 2` keeps its meaning. -/
theorem flag_conjunction_reads :
    let e := Expr.and [.not (.reference ⟨⟨0, 1⟩, "done", .bool, .boolean⟩),
      .binaryOp .gt (.binaryOp .sub (.reference ⟨⟨0, 0⟩, "id", .i64, .integer 8⟩) (.value (.i64 1)))
        (.value (.i64 2))]
    ∃ toks binds, @render plain todos .empty e = .ok (toks, binds) ∧
      @ReadsBack plain todos e toks binds := by
  intro e
  let := plain
  exact ⟨_, _, rfl, (render_reads_iff rfl Binds.numbered_empty rfl).mpr rfl⟩

end ToastySurreal
