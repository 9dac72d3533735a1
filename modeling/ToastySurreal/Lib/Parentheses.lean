import Mathlib
import ToastySurreal.Lib.Precedence

/-!
# Parentheses are determined by the text

Erasing the parentheses of a tree forgets how it was written. Together with the
text nothing is forgotten: two trees with the same erasure and the same text have
their parentheses in the same places. The reason is the balance of brackets: the
text of a bracketed tree does not return to depth zero before its last token,
while a binary tree's text does so after its left operand.
-/

namespace Precedence

open Cst

variable {A O B C : Type} {g : Grammar O B C}

/-! ## Measuring a tree -/

section Size

variable (wa wo : Nat)

mutual

/-- The size of a tree when an atom weighs `wa` and a binary operator `wo`. -/
def Cst.size : Cst A O B → Nat
  | .atom _ => wa
  | .pre t => t.size
  | .bracket _ items => sizeItems items
  | .bin _ l r => l.size + r.size + wo

def sizeItems : List (Cst A O B) → Nat
  | [] => 0
  | t :: ts => t.size + sizeItems ts

end

def Tok.size : Tok A O B C → Nat
  | .atom _ => wa
  | .op _ => wo
  | .pre => 0
  | .opening _ => 0
  | .closing _ => 0
  | .comma => 0

/-- The size of a text. -/
def textSize (ks : List (Tok A O B C)) : Nat := (ks.map (Tok.size wa wo)).sum

end Size

variable {wa wo : Nat}

theorem textSize_append (ks ls : List (Tok A O B C)) :
    textSize wa wo (ks ++ ls) = textSize wa wo ks + textSize wa wo ls := by
  simp [textSize]

theorem textSize_cons (k : Tok A O B C) (ks : List (Tok A O B C)) :
    textSize wa wo (k :: ks) = Tok.size wa wo k + textSize wa wo ks := by
  simp [textSize]

mutual

/-- The text of a tree weighs what the tree weighs. -/
theorem textSize_yield : ∀ t : Cst A O B, textSize wa wo (t.yield g) = t.size wa wo
  | .atom _ => by simp [yield, textSize, Tok.size, Cst.size]
  | .pre t => by rw [yield, textSize_cons, textSize_yield t, Tok.size, Cst.size, Nat.zero_add]
  | .bracket b items => by
      rw [yield, textSize_cons, textSize_append, textSize_yieldItems items, Cst.size]
      simp [textSize, Tok.size]
  | .bin o l r => by
      rw [yield, textSize_append, textSize_cons, textSize_yield l, textSize_yield r, Cst.size,
        Tok.size]
      omega

theorem textSize_yieldItems : ∀ ts : List (Cst A O B),
    textSize wa wo (yieldItems g ts) = sizeItems wa wo ts
  | [] => by simp [yieldItems, textSize, sizeItems]
  | t :: ts => by
      rw [yieldItems, textSize_append, textSize_yield t, textSize_yieldTail ts, sizeItems]

theorem textSize_yieldTail : ∀ ts : List (Cst A O B),
    textSize wa wo (yieldTail g ts) = sizeItems wa wo ts
  | [] => by simp [yieldTail, textSize, sizeItems]
  | t :: ts => by
      rw [yieldTail, textSize_cons, textSize_append, textSize_yield t, textSize_yieldTail ts,
        sizeItems, Tok.size, Nat.zero_add]

end

/-! ## Balance -/

/-- How deep in brackets a text ends. -/
def depth : List (Tok A O B C) → Int
  | [] => 0
  | .opening _ :: ks => depth ks + 1
  | .closing _ :: ks => depth ks - 1
  | _ :: ks => depth ks

theorem depth_append : ∀ ks ls : List (Tok A O B C), depth (ks ++ ls) = depth ks + depth ls
  | [], ls => by simp [depth]
  | k :: ks, ls => by
      have ih := depth_append ks ls
      cases k <;> simp only [List.cons_append, depth, ih] <;> omega

/-- Every closed bracket was opened, and every opened one is closed. -/
def Balanced (ks : List (Tok A O B C)) : Prop :=
  depth ks = 0 ∧ ∀ q, q <+: ks → 0 ≤ depth q

theorem balanced_nil : Balanced ([] : List (Tok A O B C)) :=
  ⟨rfl, by intro q hq; rw [List.prefix_nil.mp hq]; simp [depth]⟩

theorem prefix_append_cases {α : Type} {q as bs : List α} (h : q <+: as ++ bs) :
    q <+: as ∨ ∃ q', q = as ++ q' ∧ q' <+: bs := by
  obtain ⟨rest, he⟩ := h
  rcases List.append_eq_append_iff.mp he with ⟨x, hx, _⟩ | ⟨x, hx, hr⟩
  · exact Or.inl ⟨x, hx.symm⟩
  · exact Or.inr ⟨x, hx, ⟨rest, hr.symm⟩⟩

theorem Balanced.append {ks ls : List (Tok A O B C)} (hk : Balanced ks) (hl : Balanced ls) :
    Balanced (ks ++ ls) := by
  refine ⟨by rw [depth_append, hk.1, hl.1]; rfl, ?_⟩
  intro q hq
  rcases prefix_append_cases hq with hq | ⟨q', rfl, hq'⟩
  · exact hk.2 q hq
  · rw [depth_append, hk.1]
    have := hl.2 q' hq'
    omega

theorem Balanced.cons {k : Tok A O B C} {ks : List (Tok A O B C)} (hk : depth [k] = 0)
    (h : Balanced ks) : Balanced (k :: ks) := by
  show Balanced ([k] ++ ks)
  refine Balanced.append ⟨hk, ?_⟩ h
  intro q hq
  rcases List.prefix_cons_iff.mp hq with rfl | ⟨t, rfl, ht⟩
  · simp [depth]
  · rw [List.prefix_nil.mp ht]; exact Int.le_of_eq hk.symm

/-- Inside its outer bracket a text stays at depth one or more. -/
theorem depth_inside {b : B} {c : C} {ks q : List (Tok A O B C)} (h : Balanced ks)
    (hq : q <+: ks ++ [.closing c]) (hne : q ≠ ks ++ [.closing c]) : 1 ≤
    depth (.opening b :: q) := by
  rcases prefix_append_cases hq with hq | ⟨q', rfl, hq'⟩
  · have := h.2 q hq
    simp only [depth]; omega
  · rcases List.prefix_cons_iff.mp hq' with rfl | ⟨t, rfl, ht⟩
    · simp [depth, h.1]
    · rw [List.prefix_nil.mp ht] at hne
      exact absurd rfl hne

theorem Balanced.bracket {b : B} {c : C} {ks : List (Tok A O B C)} (h : Balanced ks) :
    Balanced (.opening b :: (ks ++ [.closing c])) := by
  refine ⟨by simp [depth, depth_append, h.1], ?_⟩
  intro q hq
  rcases List.prefix_cons_iff.mp hq with rfl | ⟨q', rfl, hq'⟩
  · simp [depth]
  · by_cases hall : q' = ks ++ [.closing c]
    · simp [hall, depth, depth_append, h.1]
    · have := depth_inside (b := b) h hq' hall
      omega

mutual

theorem balanced_yield : ∀ t : Cst A O B, Balanced (t.yield g)
  | .atom a => Balanced.cons (by simp [depth]) balanced_nil
  | .pre t => by rw [yield]; exact Balanced.cons (by simp [depth]) (balanced_yield t)
  | .bracket b items => by rw [yield]; exact Balanced.bracket (balanced_yieldItems items)
  | .bin o l r => by
      rw [yield]
      exact (balanced_yield l).append (Balanced.cons (by simp [depth]) (balanced_yield r))

theorem balanced_yieldItems : ∀ ts : List (Cst A O B), Balanced (yieldItems g ts)
  | [] => balanced_nil
  | t :: ts => by rw [yieldItems]; exact (balanced_yield t).append (balanced_yieldTail ts)

theorem balanced_yieldTail : ∀ ts : List (Cst A O B), Balanced (yieldTail g ts)
  | [] => balanced_nil
  | t :: ts => by
      rw [yieldTail]
      exact Balanced.cons (by simp [depth]) ((balanced_yield t).append (balanced_yieldTail ts))

end

theorem yield_ne_nil : ∀ t : Cst A O B, t.yield g ≠ []
  | .atom _ => by simp [yield]
  | .pre _ => by simp [yield]
  | .bracket _ _ => by simp [yield]
  | .bin _ _ _ => by simp [yield]

/-- A binary tree and a bracketed one with no fewer operators than its left operand
has, plus one, cannot start a text alike. -/
theorem bin_ne_bracket {o : O} {l r : Cst A O B} {b : B} {items : List (Cst A O B)}
    {s s' : List (Tok A O B C)} (hops : l.size 0 1 < sizeItems 0 1 items)
    (h : Cst.yield g (.bin o l r) ++ s = Cst.yield g (.bracket b items) ++ s') : False := by
  have h' : l.yield g ++ (.op o :: (r.yield g ++ s)) = Cst.yield g (.bracket b items) ++ s' := by
    rw [← h, yield]; simp
  rcases List.append_eq_append_iff.mp h' with ⟨x, hx, _⟩ | ⟨x, hx, _⟩
  · -- the bracketed text reaches beyond the left operand, which ends at depth zero
    by_cases hall : l.yield g = Cst.yield g (.bracket b items)
    · have hcount := congrArg (textSize 0 1) hall
      rw [textSize_yield, textSize_yield, Cst.size] at hcount
      omega
    · have hpre : l.yield g <+: Cst.yield g (.bracket b items) := ⟨x, hx.symm⟩
      rw [yield] at hpre hall
      rcases List.prefix_cons_iff.mp hpre with hnil | ⟨q, hq, hqp⟩
      · exact yield_ne_nil l hnil
      · have hdeep := depth_inside (b := b) (balanced_yieldItems items) hqp
          (fun he => hall (by rw [hq, he]))
        rw [← hq, (balanced_yield l).1] at hdeep
        omega
  · have hcount := congrArg (textSize 0 1) hx
    rw [textSize_append, textSize_yield, textSize_yield, Cst.size] at hcount
    omega

/-! ## Erasing parentheses -/

section Erase

variable (paren : B → Bool)

def unparen (b : B) : List (Cst A O B) → Cst A O B
  | [t] => t
  | ts => .bracket b ts

mutual

/-- A tree without its parentheses. -/
def Cst.erase : Cst A O B → Cst A O B
  | .atom a => .atom a
  | .pre t => .pre t.erase
  | .bracket b items =>
      if paren b then unparen b (eraseItems items) else .bracket b (eraseItems items)
  | .bin o l r => .bin o l.erase r.erase

def eraseItems : List (Cst A O B) → List (Cst A O B)
  | [] => []
  | t :: ts => t.erase :: eraseItems ts

end

end Erase

variable {paren : B → Bool}

theorem size_unparen (b : B) (ts : List (Cst A O B)) :
    (unparen b ts).size wa wo = sizeItems wa wo ts := by
  unfold unparen
  split
  · simp [sizeItems]
  · rfl

mutual

theorem size_erase : ∀ t : Cst A O B, (t.erase paren).size wa wo = t.size wa wo
  | .atom _ => rfl
  | .pre t => size_erase t
  | .bracket b items => by
      rw [Cst.erase, Cst.size]
      split
      · rw [size_unparen, size_eraseItems items]
      · rw [Cst.size, size_eraseItems items]
  | .bin o l r => by rw [Cst.erase, Cst.size, Cst.size, size_erase l, size_erase r]

theorem size_eraseItems : ∀ ts : List (Cst A O B),
    sizeItems wa wo (eraseItems paren ts) = sizeItems wa wo ts
  | [] => rfl
  | t :: ts => by rw [eraseItems, sizeItems, sizeItems, size_erase t, size_eraseItems ts]

end

/-- Parentheses hold one item, so erasing a tree that fits leaves none at its root. -/
theorem erase_ne_paren (hparen : ∀ b n, paren b = true → g.takes b n = true → n = 1) :
    ∀ {t : Cst A O B} {n : Nat}, t.fits g n = true → ∀ {b : B}, paren b = true →
    ∀ ts, t.erase paren ≠ .bracket b ts
  | .atom a, _, _, _, _, _ => by simp [Cst.erase]
  | .pre t, _, _, _, _, _ => by simp [Cst.erase]
  | .bin o l r, _, _, _, _, _ => by simp [Cst.erase]
  | .bracket b' items, _, ht, b, hb, ts => by
      simp only [fits, Bool.and_eq_true] at ht
      rw [Cst.erase]
      split
      · rename_i hb'
        match items, hparen b' _ hb' ht.1 with
        | [u], _ =>
            simp only [fitsItems, Bool.and_eq_true] at ht
            exact erase_ne_paren hparen ht.2.1 hb ts
      · rename_i hb'
        intro he
        injection he with he _
        exact hb' (he ▸ hb)

/-- A binary tree and a bracketed one have different texts or different erasures. -/
theorem bin_bracket_absurd {o : O} {l r : Cst A O B} {b : B} {items : List (Cst A O B)}
    {s s' : List (Tok A O B C)}
    (he : Cst.erase paren (.bin o l r) = Cst.erase paren (.bracket b items))
    (h : Cst.yield g (.bin o l r) ++ s = Cst.yield g (.bracket b items) ++ s') : False := by
  have hops := congrArg (Cst.size 0 1) he
  rw [size_erase, size_erase, Cst.size, Cst.size] at hops
  exact bin_ne_bracket (by omega) h

mutual

/-- **Erasure and text determine a tree** that fits. -/
theorem eq_of_erase (hparen : ∀ b n, paren b = true → g.takes b n = true → n = 1) :
    ∀ {t u : Cst A O B} {n : Nat} {s s' : List (Tok A O B C)}, t.fits g n = true →
    t.erase paren = u.erase paren → t.yield g ++ s = u.yield g ++ s' → t = u ∧ s = s'
  | .atom a, u, n, s, s', _, he, h => by
      cases u with
      | atom a' =>
          simp only [yield, List.singleton_append, List.cons.injEq, Tok.atom.injEq] at h
          exact ⟨by rw [h.1], h.2⟩
      | pre u => exact absurd h (by simp [yield])
      | bracket b items => exact absurd h (by simp [yield])
      | bin o l r => exact absurd he (by simp [Cst.erase])
  | .pre t, u, n, s, s', ht, he, h => by
      simp only [fits, Bool.and_eq_true] at ht
      cases u with
      | atom a' => exact absurd h (by simp [yield])
      | pre u =>
          simp only [yield, List.cons_append, List.cons.injEq, true_and] at h
          obtain ⟨htu, hs⟩ := eq_of_erase hparen ht.2 (Cst.pre.inj he) h
          exact ⟨by rw [htu], hs⟩
      | bracket b items => exact absurd h (by simp [yield])
      | bin o l r => exact absurd he (by simp [Cst.erase])
  | .bin o l r, u, n, s, s', ht, he, h => by
      simp only [fits, Bool.and_eq_true] at ht
      cases u with
      | atom a' => exact absurd he (by simp [Cst.erase])
      | pre u => exact absurd he (by simp [Cst.erase])
      | bracket b items => exact absurd (bin_bracket_absurd he h) not_false
      | bin o' l' r' =>
          obtain ⟨ho, hl, hr⟩ := Cst.bin.inj he
          simp only [yield, List.append_assoc, List.cons_append] at h
          obtain ⟨hll, hrest⟩ := eq_of_erase hparen ht.1.2 hl h
          simp only [List.cons.injEq] at hrest
          obtain ⟨hrr, hs⟩ := eq_of_erase hparen ht.2 hr hrest.2
          exact ⟨by rw [ho, hll, hrr], hs⟩
  | .bracket b items, u, n, s, s', ht, he, h => by
      cases u with
      | atom a' => exact absurd h (by simp [yield])
      | pre u => exact absurd h (by simp [yield])
      | bin o l r => exact absurd (bin_bracket_absurd he.symm h.symm) not_false
      | bracket b' items' =>
          have hb : b = b' := by
            simp only [yield, List.cons_append, List.cons.injEq, Tok.opening.injEq] at h
            exact h.1
          subst hb
          simp only [yield, List.cons_append, List.cons.injEq, true_and, List.append_assoc,
            List.nil_append] at h
          simp only [fits, Bool.and_eq_true] at ht
          -- under a parenthesis both sides hold one tree; any other bracket shows in the erasure
          by_cases hp : paren b = true
          · match items, hparen b _ hp ht.1 with
            | [t], _ =>
                simp only [fitsItems, Bool.and_eq_true] at ht
                have het : t.erase paren = Cst.erase paren (.bracket b items') := by
                  rw [← he, Cst.erase, if_pos hp]; rfl
                match items' with
                | [u] =>
                    rw [Cst.erase, if_pos hp] at het
                    simp only [yieldItems, yieldTail, List.append_nil] at h
                    obtain ⟨htu, hs⟩ := eq_of_erase hparen ht.2.1 het h
                    simp only [List.cons.injEq, true_and] at hs
                    exact ⟨by rw [htu], hs⟩
                | [] =>
                    rw [Cst.erase, if_pos hp] at het
                    exact absurd het (erase_ne_paren hparen ht.2.1 hp _)
                | v :: w :: ws =>
                    rw [Cst.erase, if_pos hp] at het
                    exact absurd het (erase_ne_paren hparen ht.2.1 hp _)
          · rw [Cst.erase, Cst.erase, if_neg hp, if_neg hp] at he
            obtain ⟨hitems, hs⟩ := eq_of_eraseItems hparen ht.2 (Cst.bracket.inj he).2 h
            exact ⟨by rw [hitems], hs⟩

theorem eq_of_eraseItems (hparen : ∀ b n, paren b = true → g.takes b n = true → n = 1) :
    ∀ {ts us : List (Cst A O B)} {c : C} {s s' : List (Tok A O B C)}, fitsItems g ts = true →
    eraseItems paren ts = eraseItems paren us →
    yieldItems g ts ++ .closing c :: s = yieldItems g us ++ .closing c :: s' → ts = us ∧ s = s'
  | [], us, c, s, s', _, he, h => by
      cases us with
      | nil =>
          simp only [yieldItems, List.nil_append, List.cons.injEq, true_and] at h
          exact ⟨rfl, h⟩
      | cons u us => exact absurd he (by simp [eraseItems])
  | t :: ts, us, c, s, s', ht, he, h => by
      simp only [fitsItems, Bool.and_eq_true] at ht
      cases us with
      | nil => exact absurd he (by simp [eraseItems])
      | cons u us =>
          simp only [eraseItems, List.cons.injEq] at he
          simp only [yieldItems, List.append_assoc] at h
          obtain ⟨htu, hrest⟩ := eq_of_erase hparen ht.1 he.1 h
          obtain ⟨htus, hs⟩ := eq_of_eraseTail hparen ht.2 he.2 hrest
          exact ⟨by rw [htu, htus], hs⟩

theorem eq_of_eraseTail (hparen : ∀ b n, paren b = true → g.takes b n = true → n = 1) :
    ∀ {ts us : List (Cst A O B)} {c : C} {s s' : List (Tok A O B C)}, fitsItems g ts = true →
    eraseItems paren ts = eraseItems paren us →
    yieldTail g ts ++ .closing c :: s = yieldTail g us ++ .closing c :: s' → ts = us ∧ s = s'
  | [], us, c, s, s', _, he, h => by
      cases us with
      | nil =>
          simp only [yieldTail, List.nil_append, List.cons.injEq, true_and] at h
          exact ⟨rfl, h⟩
      | cons u us => exact absurd he (by simp [eraseItems])
  | t :: ts, us, c, s, s', ht, he, h => by
      simp only [fitsItems, Bool.and_eq_true] at ht
      cases us with
      | nil => exact absurd he (by simp [eraseItems])
      | cons u us =>
          simp only [eraseItems, List.cons.injEq] at he
          simp only [yieldTail, List.cons_append, List.append_assoc, List.cons.injEq, true_and] at h
          obtain ⟨htu, hrest⟩ := eq_of_erase hparen ht.1 he.1 h
          obtain ⟨htus, hs⟩ := eq_of_eraseTail hparen ht.2 he.2 hrest
          exact ⟨by rw [htu, htus], hs⟩

end

/-! ## Meaning -/

/-- What atoms, operators and brackets stand for. -/
structure Algebra (A O B V : Type) where
  atom : A → V
  pre : V → V
  op : O → V → V → V
  bracket : B → List V → V

variable {V : Type}

/-- Parentheses around one item stand for the item. -/
def group (alg : Algebra A O B V) (b : B) : List V → V
  | [v] => v
  | vs => alg.bracket b vs

section Eval

variable (paren) (alg : Algebra A O B V)

mutual

/-- The meaning of a tree. -/
def Cst.eval : Cst A O B → V
  | .atom a => alg.atom a
  | .pre t => alg.pre t.eval
  | .bracket b items =>
      if paren b then group alg b (evalItems items) else alg.bracket b (evalItems items)
  | .bin o l r => alg.op o l.eval r.eval

def evalItems : List (Cst A O B) → List V
  | [] => []
  | t :: ts => t.eval :: evalItems ts

end

end Eval

mutual

theorem eval_erase (alg : Algebra A O B V) : ∀ t : Cst A O B,
    (t.erase paren).eval paren alg = t.eval paren alg
  | .atom _ => rfl
  | .pre t => by rw [Cst.erase, Cst.eval, Cst.eval, eval_erase alg t]
  | .bracket b items => by
      have hitems := eval_eraseItems alg items
      rw [Cst.erase, Cst.eval]
      split
      · rename_i hb
        rw [← hitems]
        unfold unparen
        split
        · rename_i t ht
          rw [ht]; rfl
        · rw [Cst.eval, if_pos hb]
      · rename_i hb
        rw [Cst.eval, if_neg hb, hitems]
  | .bin o l r => by rw [Cst.erase, Cst.eval, Cst.eval, eval_erase alg l, eval_erase alg r]

theorem eval_eraseItems (alg : Algebra A O B V) : ∀ ts : List (Cst A O B),
    evalItems paren alg (eraseItems paren ts) = evalItems paren alg ts
  | [] => rfl
  | t :: ts => by rw [eraseItems, evalItems, evalItems, eval_erase alg t, eval_eraseItems alg ts]

end

/-- The trees themselves, as meanings. -/
def terms (paren : B → Bool) : Algebra A O B (Cst A O B) where
  atom := .atom
  pre := .pre
  op := .bin
  bracket b ts := if paren b then unparen b ts else .bracket b ts

mutual

theorem eval_terms : ∀ t : Cst A O B, t.eval paren (terms paren) = t.erase paren
  | .atom _ => rfl
  | .pre t => by rw [Cst.eval, Cst.erase, eval_terms t]; rfl
  | .bracket b items => by
      have hitems := eval_termsItems items
      rw [Cst.eval, Cst.erase, hitems]
      split
      · rename_i hb
        match eraseItems paren items with
        | [] => simp [group, terms, hb]
        | [t] => rfl
        | t :: u :: ts => simp [group, terms, hb]
      · rename_i hb
        simp only [terms, hb, Bool.false_eq_true, if_false]
  | .bin o l r => by rw [Cst.eval, Cst.erase, eval_terms l, eval_terms r]; rfl

theorem eval_termsItems : ∀ ts : List (Cst A O B),
    evalItems paren (terms paren) ts = eraseItems paren ts
  | [] => rfl
  | t :: ts => by rw [evalItems, eraseItems, eval_terms t, eval_termsItems ts]

end

/-! ## Renaming atoms -/

variable {A' : Type}

section Map

variable (f : A → A')

mutual

def Cst.map : Cst A O B → Cst A' O B
  | .atom a => .atom (f a)
  | .pre t => .pre t.map
  | .bracket b items => .bracket b (mapItems items)
  | .bin o l r => .bin o l.map r.map

def mapItems : List (Cst A O B) → List (Cst A' O B)
  | [] => []
  | t :: ts => t.map :: mapItems ts

end

def Tok.map : Tok A O B C → Tok A' O B C
  | .atom a => .atom (f a)
  | .op o => .op o
  | .pre => .pre
  | .opening b => .opening b
  | .closing c => .closing c
  | .comma => .comma

end Map

variable {f : A → A'}

theorem length_mapItems : ∀ ts : List (Cst A O B), (mapItems f ts).length = ts.length
  | [] => rfl
  | t :: ts => by rw [mapItems, List.length_cons, length_mapItems ts, List.length_cons]

mutual

theorem yield_map : ∀ t : Cst A O B, (t.map f).yield g = (t.yield g).map (Tok.map f)
  | .atom _ => rfl
  | .pre t => by rw [Cst.map, yield, yield, yield_map t]; rfl
  | .bracket b items => by
      rw [Cst.map, yield, yield, yield_mapItems items]
      simp [Tok.map]
  | .bin o l r => by
      rw [Cst.map, yield, yield, yield_map l, yield_map r]
      simp [Tok.map]

theorem yield_mapItems : ∀ ts : List (Cst A O B),
    yieldItems g (mapItems f ts) = (yieldItems g ts).map (Tok.map f)
  | [] => rfl
  | t :: ts => by
      rw [mapItems, yieldItems, yieldItems, yield_map t, yield_mapTail ts, List.map_append]

theorem yield_mapTail : ∀ ts : List (Cst A O B),
    yieldTail g (mapItems f ts) = (yieldTail g ts).map (Tok.map f)
  | [] => rfl
  | t :: ts => by
      rw [mapItems, yieldTail, yieldTail, yield_map t, yield_mapTail ts]
      simp [Tok.map]

end

theorem isUnary_map (t : Cst A O B) : (t.map f).isUnary = t.isUnary := by
  cases t <;> rfl

mutual

theorem fits_map : ∀ (t : Cst A O B) (n : Nat), (t.map f).fits g n = t.fits g n
  | .atom _, _ => rfl
  | .pre t, n => by rw [Cst.map, fits, fits, isUnary_map, fits_map t]
  | .bracket b items, n => by rw [Cst.map, fits, fits, length_mapItems, fits_mapItems items]
  | .bin o l r, n => by rw [Cst.map, fits, fits, fits_map l, fits_map r]

theorem fits_mapItems : ∀ ts : List (Cst A O B), fitsItems g (mapItems f ts) = fitsItems g ts
  | [] => rfl
  | t :: ts => by rw [mapItems, fitsItems, fitsItems, fits_map t, fits_mapItems ts]

end

/-! ## Reading a text back -/

variable [DecidableEq C]

/-- **When a text means what it was written for.** The text of `c`, with its atoms read
through `f`, parses to something that means `t` under every algebra, exactly when `c`
fits and has the shape of `t`. It is enough to know that trees of one size have one
shape. -/
theorem reads_iff (hparen : ∀ b n, paren b = true → g.takes b n = true → n = 1)
    {c : Cst A O B} {t : Cst A' O B}
    (hshape : (∀ wa wo, t.size wa wo = (c.map f).size wa wo) →
      t.erase paren = (c.map f).erase paren) :
    (∃ p, parse g (c.yield g) = some p ∧
      ∀ (V : Type) (alg : Algebra A' O B V), (p.map f).eval paren alg = t.eval paren alg) ↔
    c.fits g 0 = true ∧ t.erase paren = (c.map f).erase paren := by
  constructor
  · intro h
    obtain ⟨p, hp, hmean⟩ := h
    obtain ⟨hfit, hyield⟩ := parse_sound hp
    have htext : (p.map f).yield g = (c.map f).yield g := by rw [yield_map, yield_map, hyield]
    have herase : (p.map f).erase paren = t.erase paren := by
      rw [← eval_terms, ← eval_terms]
      exact hmean _ (terms paren)
    have hsame := hshape fun wa wo => by
      have hsize : ((p.map f).erase paren).size wa wo = (p.map f).size wa wo := size_erase _
      rw [← textSize_yield (g := g) (c.map f), ← htext, textSize_yield, ← hsize, herase, size_erase]
    have hpf : (p.map f).fits g 0 = true := by rw [fits_map, hfit]
    have hpc : p.map f = c.map f := by
      have htext' : (p.map f).yield g ++ [] = (c.map f).yield g ++ [] := by rw [htext]
      exact (eq_of_erase hparen hpf (herase.trans hsame) htext').1
    exact ⟨by rw [← fits_map (f := f), ← hpc, hpf], hsame⟩
  · intro h
    obtain ⟨hfit, hsame⟩ := h
    refine ⟨c, parse_yield hfit, fun V alg => ?_⟩
    rw [← eval_erase, ← hsame, eval_erase]

end Precedence
