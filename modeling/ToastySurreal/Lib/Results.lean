import Mathlib.Data.List.Forall2

/-!
# Computations that can fail

How a successful `Except` computation was put together, which errors one can end in, and what
two computations have in common when both succeed.
-/

namespace Results

variable {ε α β γ δ : Type}

theorem bind_eq_ok {x : Except ε α} {f : α → Except ε β} {b : β} (h : x >>= f = .ok b) :
    ∃ a, x = .ok a ∧ f a = .ok b := by
  cases x with
  | error e => exact absurd h (by simp [bind, Except.bind])
  | ok a => exact ⟨a, rfl, h⟩

theorem ok_bind {x : Except ε α} {f : α → Except ε β} {a : α} (h : x = .ok a) : x >>= f = f a := by
  rw [h]; rfl

theorem map_eq_ok {x : Except ε α} {f : α → β} {b : β} (h : x.map f = .ok b) :
    ∃ a, x = .ok a ∧ f a = b := by
  cases x with
  | error e => exact absurd h (by simp [Except.map])
  | ok a => injection h with h; exact ⟨a, rfl, h⟩

theorem bind_eq_error {x : Except ε α} {f : α → Except ε β} {e : ε} (h : x >>= f = .error e) :
    x = .error e ∨ ∃ a, x = .ok a ∧ f a = .error e := by
  cases x with
  | error e' => injection h with h; exact .inl (by rw [h])
  | ok a => exact .inr ⟨a, rfl, h⟩

/-- A computation fails if another does that succeeds wherever it would. -/
theorem exists_error {x y : Except ε α} {e : ε} (h : ∀ a, y = .ok a → x = .ok a)
    (hx : x = .error e) : ∃ e', y = .error e' := by
  cases y with
  | error e' => exact ⟨e', rfl⟩
  | ok a => rw [h a rfl] at hx; exact absurd hx (by simp)

/-! ## What can go wrong -/

/-- Every error of the computation is of a kind. -/
def Errs (P : ε → Prop) (x : Except ε α) : Prop := ∀ e, x = .error e → P e

section Errs

variable {P : ε → Prop}

theorem Errs.ok (a : α) : Errs P (.ok a : Except ε α) := fun _ h => absurd h (by simp)

theorem Errs.error {e : ε} (h : P e) : Errs P (.error e : Except ε α) := by
  intro e' he
  injection he with he
  rw [← he]
  exact h

theorem Errs.bind {x : Except ε α} {f : α → Except ε β} (hx : Errs P x)
    (hf : ∀ a, x = .ok a → Errs P (f a)) : Errs P (x >>= f) := by
  intro e h
  rcases bind_eq_error h with hx' | ⟨a, ha, hfa⟩
  · exact hx e hx'
  · exact hf a ha e hfa

end Errs

/-! ## Two computations -/

/-- If both succeed, their results are related. -/
def Agree (R : α → β → Prop) (x : Except ε α) (y : Except ε β) : Prop :=
  ∀ a b, x = .ok a → y = .ok b → R a b

variable {R : α → β → Prop} {T : γ → δ → Prop} {x : Except ε α} {y : Except ε β}

theorem Agree.ok {a : α} {b : β} (h : R a b) :
    Agree R (.ok a : Except ε α) (.ok b : Except ε β) := by
  intro _ _ hx hy
  injection hx with hx; injection hy with hy; subst hx hy
  exact h

theorem Agree.errorLeft (e : ε) : Agree R (.error e) y := fun _ _ h => absurd h (by simp)

theorem Agree.refl (x : Except ε α) : Agree Eq x x := by
  intro a b ha hb
  rw [ha] at hb; injection hb

/-- Nothing is said about the results. -/
theorem Agree.any : Agree (fun _ _ => True) x y := fun _ _ _ _ => trivial

/-- **Two sequences agree** if their first parts do and, from related results, the rest. -/
theorem Agree.bind {f : α → Except ε γ} {g : β → Except ε δ} (h : Agree R x y)
    (hf : ∀ a b, R a b → Agree T (f a) (g b)) : Agree T (x >>= f) (y >>= g) := by
  intro c d hx hy
  obtain ⟨a, hxa, hfa⟩ := bind_eq_ok hx
  obtain ⟨b, hyb, hgb⟩ := bind_eq_ok hy
  exact hf a b (h a b hxa hyb) c d hfa hgb

end Results
