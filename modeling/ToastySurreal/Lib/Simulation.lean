import ToastySurreal.Lib.Traces

/-!
# Runs that simulate

What every step keeps, counts or appends, a run does, and a forward simulation follows each
step. A program that asks at most one question takes effect at once, when it is replied to.
-/

namespace Simulation

variable {S A L : Type}

section

variable (step : S → L → S → Prop)

/-- Steps in a row, with their labels. -/
def Run : S → List L → S → Prop
  | s, [], s' => s' = s
  | s, l :: ls, s' => ∃ s₁, step s l s₁ ∧ Run s₁ ls s'

end

variable {step : S → L → S → Prop} {astep : A → L → A → Prop}

theorem Run.append : ∀ {ls ls' : List L} {s s₁ s' : S}, Run step s ls s₁ → Run step s₁ ls' s' →
    Run step s (ls ++ ls') s'
  | [], _, _, _, _, rfl, h => h
  | _ :: _, _, _, _, _, ⟨s₂, hs, h⟩, h' => ⟨s₂, hs, h.append h'⟩

/-- Steps that satisfy more. -/
theorem Run.mono {step' : S → L → S → Prop} : ∀ {ls : List L} {s s' : S},
    (∀ l ∈ ls, ∀ s s', step s l s' → step' s l s') → Run step s ls s' → Run step' s ls s'
  | [], _, _, _, h => h
  | l :: _, _, _, hstep, ⟨s₁, hs, h⟩ => ⟨s₁, hstep l List.mem_cons_self _ _ hs,
      h.mono fun l' hl' => hstep l' (List.mem_cons_of_mem _ hl')⟩

/-- What every step keeps, a run keeps. -/
theorem Run.keeps {P : S → Prop} (hstep : ∀ s l s', P s → step s l s' → P s') {ls : List L}
    {s s' : S} (hP : P s) (h : Run step s ls s') : P s' := by
  induction ls generalizing s with
  | nil => exact h ▸ hP
  | cons l ls ih =>
      obtain ⟨s₁, hs, hrest⟩ := h
      exact ih (hstep s l s₁ hP hs) hrest

/-- A run counts the steps that count. -/
theorem Run.counts {f : S → Nat} {p : L → Bool}
    (hstep : ∀ s l s', step s l s' → f s' = f s + if p l then 1 else 0) {ls : List L} {s s' : S}
    (h : Run step s ls s') : f s' = f s + ls.countP p := by
  induction ls generalizing s with
  | nil => exact congrArg f h
  | cons l ls ih =>
      obtain ⟨s₁, hs, hrest⟩ := h
      rw [ih hrest, hstep s l s₁ hs, List.countP_cons, Nat.add_assoc,
        Nat.add_comm (List.countP p ls)]

/-- What every step appends to a log, a run appends. -/
theorem Run.appends {M : Type} {f : S → List M} {g : L → List M}
    (hstep : ∀ s l s', step s l s' → f s' = f s ++ g l) {ls : List L} {s s' : S}
    (h : Run step s ls s') : f s' = f s ++ ls.flatMap g := by
  induction ls generalizing s with
  | nil => simpa using congrArg f h
  | cons l ls ih =>
      obtain ⟨s₁, hs, hrest⟩ := h
      rw [ih hrest, hstep s l s₁ hs, List.flatMap_cons, List.append_assoc]

/-- Every step of a related state can be followed. -/
def Forward (step : S → L → S → Prop) (astep : A → L → A → Prop) (R : S → A → Prop) : Prop :=
  ∀ s a l s', R s a → step s l s' → ∃ a', astep a l a' ∧ R s' a'

end Simulation

namespace Prog

variable {Q R E α β S : Type}

/-! ## One question -/

/-- The program has ended. -/
def Ended (p : Prog Q R E α) : Prop := ∃ x, p = lift x

/-- The program asks nothing, or one question. -/
def AtMostOnce : Prog Q R E α → Prop
  | .done _ | .fail _ => True
  | .ask _ k => ∀ r, (k r).Ended

theorem Ended.lift (x : Except E α) : (Prog.lift x : Prog Q R E α).Ended := ⟨x, rfl⟩

theorem Ended.bind {p : Prog Q R E α} {f : α → Prog Q R E β} (hp : p.Ended)
    (hf : ∀ a, (f a).Ended) : (p >>= f).Ended := by
  obtain ⟨x, rfl⟩ := hp
  cases x with
  | error e => exact ⟨.error e, rfl⟩
  | ok a => exact hf a

theorem Ended.attempt {p : Prog Q R E α} (hp : p.Ended) : p.attempt.Ended := by
  obtain ⟨x, rfl⟩ := hp
  cases x <;> exact ⟨.ok _, rfl⟩

theorem Ended.atMostOnce {p : Prog Q R E α} (hp : p.Ended) : p.AtMostOnce := by
  obtain ⟨x, rfl⟩ := hp
  cases x <;> trivial

theorem AtMostOnce.attempt {p : Prog Q R E α} (hp : p.AtMostOnce) : p.attempt.AtMostOnce := by
  cases p with
  | done a => trivial
  | fail e => trivial
  | ask q k => exact fun r => (hp r).attempt

/-- What follows the question asks nothing. -/
theorem AtMostOnce.bind {p : Prog Q R E α} {f : α → Prog Q R E β} (hp : p.AtMostOnce)
    (hf : ∀ a, (f a).Ended) : (p >>= f).AtMostOnce := by
  cases p with
  | done a => exact (hf a).atMostOnce
  | fail e => trivial
  | ask q k => exact fun r => (hp r).bind hf

/-- The program asks one question at most, and where the reply is of a kind it fails with an error
of a kind. -/
def FailsOn (L : R → Prop) (T : E → Prop) : Prog Q R E α → Prop
  | .done _ | .fail _ => True
  | .ask _ k => ∀ r, (k r).Ended ∧ (L r → ∃ e, T e ∧ k r = .fail e)

section FailsOn

variable {L : R → Prop} {T : E → Prop}

theorem FailsOn.atMostOnce {p : Prog Q R E α} (hp : p.FailsOn L T) : p.AtMostOnce := by
  cases p with
  | done a => trivial
  | fail e => trivial
  | ask q k => exact fun r => (hp r).1

theorem Ended.failsOn {p : Prog Q R E α} (hp : p.Ended) : p.FailsOn L T := by
  obtain ⟨x, rfl⟩ := hp
  cases x <;> trivial

theorem FailsOn.bind {p : Prog Q R E α} {f : α → Prog Q R E β} (hp : p.FailsOn L T)
    (hf : ∀ a, (f a).Ended) : (p >>= f).FailsOn L T := by
  cases p with
  | done a => exact (hf a).failsOn
  | fail e => trivial
  | ask q k =>
      refine fun r => ⟨(hp r).1.bind hf, fun hr => ?_⟩
      obtain ⟨e, ht, he⟩ := (hp r).2 hr
      exact ⟨e, ht, by show k r >>= f = _; rw [he]; rfl⟩

/-- What follows a computation knows its result. -/
theorem FailsOn.lift_bind {x : Except E α} {f : α → Prog Q R E β}
    (hf : ∀ a, x = .ok a → (f a).FailsOn L T) : (Prog.lift x >>= f).FailsOn L T := by
  cases x with
  | error e => trivial
  | ok a => exact hf a rfl

end FailsOn

/-- **What a program of one question is told.** -/
theorem AtMostOnce.told {p p' : Prog Q R E α} {es : List (Q × R)} (hp : p.AtMostOnce)
    (h : p.Told es p') :
    (es = [] ∧ p' = p) ∨ ∃ q k r, p = .ask q k ∧ es = [(q, r)] ∧ p' = k r ∧ (k r).Ended := by
  cases es with
  | nil => exact .inl ⟨rfl, told_nil.mp h⟩
  | cons e es =>
      cases p with
      | done a => exact h.elim
      | fail err => exact h.elim
      | ask q k =>
          obtain ⟨q', r⟩ := e
          obtain ⟨rfl, hk⟩ := h
          obtain ⟨x, hx⟩ := hp r
          have hk' : (k r).Told es p' := hk
          rw [hx] at hk'
          obtain ⟨rfl, hp'⟩ := hk'.ended
          exact .inr ⟨_, k, r, rfl, rfl, hp'.trans hx.symm, x, hx⟩

end Prog
