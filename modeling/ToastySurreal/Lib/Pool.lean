import Mathlib.Logic.Function.Basic
import Mathlib.Logic.Relation
import ToastySurreal.Lib.Prog

/-!
# Programs side by side

A pool runs several programs on one shared state. One program at a time asks its next
question, in any order, and the log keeps who asked what and got which reply. Whatever
the order, `Steps.invariant` is the rule of rely and guarantee: a fact about the shared
state and one about each program last when a program's own questions keep both and
everybody else's keep its own.
-/

namespace Prog

/-- Programs on a shared state, and what they have asked so far. -/
structure Pool (ι S Q R E α : Type) where
  shared : S
  threads : ι → Prog Q R E α
  log : List (ι × Q × R)

namespace Pool

variable {ι S Q R E α : Type} [DecidableEq ι]

section Steps

variable (step : ι → S → Q → R → S → Prop)

/-- One program asks its question and goes on with the reply. -/
inductive Step : Pool ι S Q R E α → Pool ι S Q R E α → Prop where
  | ask {p : Pool ι S Q R E α} {i : ι} {q : Q} {k : R → Prog Q R E α} {r : R} {s : S}
      (ht : p.threads i = .ask q k) (hs : step i p.shared q r s) :
      Step p ⟨s, Function.update p.threads i (k r), p.log ++ [(i, q, r)]⟩

/-- The programs run on, in any order. -/
def Steps : Pool ι S Q R E α → Pool ι S Q R E α → Prop := Relation.ReflTransGen (Step step)

end Steps

variable {step : ι → S → Q → R → S → Prop} {p p' p'' : Pool ι S Q R E α}

theorem Steps.refl : Steps step p p := Relation.ReflTransGen.refl

theorem Steps.trans (h : Steps step p p') (h' : Steps step p' p'') : Steps step p p'' :=
  Relation.ReflTransGen.trans h h'

/-- **A program that runs alone** is a run of the pool. -/
theorem Steps.of_runs {i : ι} : ∀ {prog : Prog Q R E α} {p : Pool ι S Q R E α} {s : S}
    {out : Except E α}, p.threads i = prog → prog.Runs (step i) p.shared s out →
    ∃ log, Steps step p ⟨s, Function.update p.threads i (lift out), log⟩
  | .done _, p, _, _, ht, h | .fail _, p, _, _, ht, h => by
      obtain ⟨rfl, rfl⟩ := h
      refine ⟨p.log, ?_⟩
      rw [lift, ← ht, Function.update_eq_self]
      exact .refl
  | .ask q k, p, s, out, ht, h => by
      obtain ⟨r, s₁, hs, h⟩ := h
      have hstep := Step.ask ht hs
      obtain ⟨log, hrest⟩ := Steps.of_runs (p := ⟨s₁, Function.update p.threads i (k r),
        p.log ++ [(i, q, r)]⟩) (Function.update_self i _ _) h
      rw [Function.update_idem] at hrest
      exact ⟨log, Relation.ReflTransGen.head hstep hrest⟩

/-! ## Rely and guarantee -/

/-- `I` holds of the shared state, and `L` of each program on it. -/
structure Holds (I : S → List (ι × Q × R) → Prop)
    (L : ι → Prog Q R E α → S → List (ι × Q × R) → Prop) (p : Pool ι S Q R E α) : Prop where
  shared : I p.shared p.log
  threads : ∀ i, L i (p.threads i) p.shared p.log

variable {I : S → List (ι × Q × R) → Prop}
  {L : ι → Prog Q R E α → S → List (ι × Q × R) → Prop}

/-- **The rule of rely and guarantee.** -/
theorem Steps.invariant
    (own : ∀ {i q k r s s' log}, I s log → L i (.ask q k) s log → step i s q r s' →
      I s' (log ++ [(i, q, r)]) ∧ L i (k r) s' (log ++ [(i, q, r)]))
    (rely : ∀ {i j prog q r s s' log}, j ≠ i → L j prog s log → step i s q r s' →
      L j prog s' (log ++ [(i, q, r)]))
    (h : Steps step p p') (hp : Holds I L p) : Holds I L p' := by
  induction h with
  | refl => exact hp
  | tail _ hstep ih =>
      cases hstep with
      | @ask i q k r s ht hs =>
          have hi := ih.threads i
          rw [ht] at hi
          obtain ⟨hshared, hk⟩ := own ih.shared hi hs
          refine ⟨hshared, fun j => ?_⟩
          dsimp only
          by_cases hj : j = i
          · subst hj
            rw [Function.update_self]
            exact hk
          · rw [Function.update_of_ne hj]
            exact rely hj (ih.threads j) hs

/-- What is in the log stays there. -/
theorem Steps.log_grows (h : Steps step p p') : p.log <+: p'.log := by
  induction h with
  | refl => exact List.prefix_refl _
  | tail _ hstep ih =>
      cases hstep with
      | ask ht hs => exact ih.trans (List.prefix_append _ _)

end Pool

end Prog
