import Mathlib.Data.List.Basic

/-!
# Reading a list with a state

A scanner reads a list item by item, keeps a state and emits something now and then.
-/

namespace Scan

variable {σ ε β : Type}

section

variable (next : σ → ε → Option β × σ)

/-- The state after a list. -/
def after : σ → List ε → σ
  | s, [] => s
  | s, e :: es => after (next s e).2 es

/-- What is emitted on the way. -/
def emits : σ → List ε → List β
  | _, [] => []
  | s, e :: es => (next s e).1.toList ++ emits (next s e).2 es

end

variable {next : σ → ε → Option β × σ}

theorem after_append : ∀ (s : σ) (es es' : List ε),
    after next s (es ++ es') = after next (after next s es) es'
  | _, [], _ => rfl
  | _, _ :: es, es' => after_append _ es es'

theorem emits_append : ∀ (s : σ) (es es' : List ε),
    emits next s (es ++ es') = emits next s es ++ emits next (after next s es) es'
  | _, [], _ => rfl
  | s, e :: es, es' => by
      rw [List.cons_append, emits, emits, after, emits_append, List.append_assoc]

theorem after_snoc (s : σ) (es : List ε) (e : ε) :
    after next s (es ++ [e]) = (next (after next s es) e).2 := after_append s es [e]

theorem emits_snoc (s : σ) (es : List ε) (e : ε) :
    emits next s (es ++ [e]) = emits next s es ++ (next (after next s es) e).1.toList := by
  rw [emits_append, emits, emits, List.append_nil]

end Scan
