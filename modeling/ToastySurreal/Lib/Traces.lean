import ToastySurreal.Lib.Pool

/-!
# What a program was told

A trace is the questions a program asked so far, each with its reply. `Told` says
what the program has become, and `feed` computes it from the replies. In a pool the
program of a thread is what its own entries of the log have made of it, so that what
one thread does is a fact about one program, whatever the others did in between.
-/

namespace Prog

variable {Q R E α β S : Type}

/-- The program asked these questions, got these replies and has come this far. -/
def Told : Prog Q R E α → List (Q × R) → Prog Q R E α → Prop
  | p, [], p' => p' = p
  | .ask q k, e :: es, p' => e.1 = q ∧ (k e.2).Told es p'
  | .done _, _ :: _, _ | .fail _, _ :: _, _ => False

/-- What these replies make of a program, and the replies left when it has ended. -/
def feed : Prog Q R E α → List R → Prog Q R E α × List R
  | .done a, rs => (.done a, rs)
  | .fail e, rs => (.fail e, rs)
  | .ask q k, [] => (.ask q k, [])
  | .ask _ k, r :: rs => (k r).feed rs

@[simp] theorem told_nil {p p' : Prog Q R E α} : p.Told [] p' ↔ p' = p := by
  cases p <;> exact Iff.rfl

/-- A program that has ended is told nothing more. -/
theorem Told.ended {x : Except E α} {es : List (Q × R)} {p' : Prog Q R E α}
    (h : (lift x : Prog Q R E α).Told es p') : es = [] ∧ p' = lift x := by
  cases es with
  | nil => exact ⟨rfl, told_nil.mp h⟩
  | cons e es => cases x <;> exact h.elim

theorem Told.append : ∀ {p p' p'' : Prog Q R E α} {es es' : List (Q × R)}, p.Told es p' →
    p'.Told es' p'' → p.Told (es ++ es') p''
  | p, p', p'', [], es', h, h' => by rw [told_nil.mp h] at h'; exact h'
  | .ask _ _, _, _, _ :: _, _, h, h' => ⟨h.1, h.2.append h'⟩
  | .done _, _, _, _ :: _, _, h, _ => h.elim
  | .fail _, _, _, _ :: _, _, h, _ => h.elim

/-- One more question. -/
theorem Told.snoc {p : Prog Q R E α} {es : List (Q × R)} {q : Q} {k : R → Prog Q R E α} (r : R)
    (h : p.Told es (.ask q k)) : p.Told (es ++ [(q, r)]) (k r) :=
  h.append ⟨rfl, told_nil.mpr rfl⟩

/-- Every question is one the program may ask. -/
theorem Told.asks {P : Q → Prop} : ∀ {p p' : Prog Q R E α} {es : List (Q × R)}, p.Asks P →
    p.Told es p' → (∀ e ∈ es, P e.1) ∧ p'.Asks P
  | p, p', [], hp, h => by rw [told_nil.mp h]; exact ⟨by simp, hp⟩
  | .ask q k, p', e :: es, hp, h => by
      obtain ⟨hes, hp'⟩ := h.2.asks (hp.2 e.2)
      refine ⟨fun e' he' => ?_, hp'⟩
      rcases List.mem_cons.mp he' with rfl | he'
      · exact h.1 ▸ hp.1
      · exact hes e' he'
  | .done _, _, _ :: _, _, h => h.elim
  | .fail _, _, _ :: _, _, h => h.elim

/-- **A sequence that was told something** is still in its first part, or has gone through it. -/
theorem Told.of_bind : ∀ {p : Prog Q R E α} {f : α → Prog Q R E β} {es : List (Q × R)}
    {p' : Prog Q R E β}, (p >>= f).Told es p' →
    (∃ q k, p.Told es (.ask q k) ∧ p' = (.ask q fun r => k r >>= f)) ∨
      (∃ e, p.Told es (.fail e) ∧ p' = .fail e) ∨
      ∃ a es₁ es₂, es = es₁ ++ es₂ ∧ p.Told es₁ (.done a) ∧ (f a).Told es₂ p'
  | .done a, f, es, p', h => .inr (.inr ⟨a, [], es, rfl, rfl, h⟩)
  | .fail e, f, es, p', h => by
      obtain ⟨rfl, rfl⟩ := Told.ended (show (lift (.error e) : Prog Q R E β).Told es p' from h)
      exact .inr (.inl ⟨e, rfl, rfl⟩)
  | .ask q k, f, [], p', h => .inl ⟨q, k, rfl, told_nil.mp h⟩
  | .ask q k, f, e :: es, p', h => by
      rcases (show (k e.2 >>= f).Told es p' from h.2).of_bind with
        ⟨q', k', hk, rfl⟩ | ⟨err, hk, rfl⟩ | ⟨a, es₁, es₂, rfl, hk, hf⟩
      · exact .inl ⟨q', k', ⟨h.1, hk⟩, rfl⟩
      · exact .inr (.inl ⟨err, ⟨h.1, hk⟩, rfl⟩)
      · exact .inr (.inr ⟨a, e :: es₁, es₂, rfl, ⟨h.1, hk⟩, hf⟩)

/-- A run to the end, as a trace. -/
theorem runs_noted_iff : ∀ {p : Prog Q R E α} {log log' : List (Q × R)} {out : Except E α},
    p.Runs Noted log log' out ↔ ∃ es, log' = log ++ es ∧ p.Told es (lift out)
  | .done a, log, log', out => by
      constructor
      · rintro ⟨rfl, rfl⟩
        exact ⟨[], by simp, rfl⟩
      · rintro ⟨es, rfl, h⟩
        obtain ⟨rfl, hout⟩ :=
          Told.ended (show (lift (.ok a) : Prog Q R E α).Told es (lift out) from h)
        cases out with
        | ok b => injection hout with hout; subst hout; exact ⟨by simp, rfl⟩
        | error e => exact absurd hout (by simp [lift])
  | .fail err, log, log', out => by
      constructor
      · rintro ⟨rfl, rfl⟩
        exact ⟨[], by simp, rfl⟩
      · rintro ⟨es, rfl, h⟩
        obtain ⟨rfl, hout⟩ :=
          Told.ended (show (lift (.error err) : Prog Q R E α).Told es (lift out) from h)
        cases out with
        | ok b => exact absurd hout (by simp [lift])
        | error e => injection hout with hout; subst hout; exact ⟨by simp, rfl⟩
  | .ask q k, log, log', out => by
      constructor
      · rintro ⟨r, _, rfl, h⟩
        obtain ⟨es, rfl, hk⟩ := runs_noted_iff.mp h
        exact ⟨(q, r) :: es, by simp, rfl, hk⟩
      · rintro ⟨es, rfl, h⟩
        cases es with
        | nil => cases out <;> exact absurd (told_nil.mp h) (by simp [lift])
        | cons e es =>
            obtain ⟨rfl, hk⟩ := h
            exact ⟨e.2, _, rfl, runs_noted_iff.mpr ⟨es, by simp, hk⟩⟩

/-- **What was told can be computed** from the replies alone. -/
theorem Told.feed : ∀ {p p' : Prog Q R E α} {es : List (Q × R)}, p.Told es p' → ∀ rs,
    p.feed (es.map Prod.snd ++ rs) = p'.feed rs
  | p, p', [], h, rs => by rw [told_nil.mp h]; rfl
  | .ask _ _, _, _ :: _, h, rs => h.2.feed rs
  | .done _, _, _ :: _, h, _ => h.elim
  | .fail _, _, _ :: _, h, _ => h.elim

/-! ## Traces in a pool -/

namespace Pool

variable {ι : Type} [DecidableEq ι]

/-- The entries of one thread. -/
def own (i : ι) (log : List (ι × Q × R)) : List (Q × R) :=
  log.filterMap fun entry => if entry.1 = i then some entry.2 else none

@[simp] theorem own_nil (i : ι) : own i ([] : List (ι × Q × R)) = [] := rfl

theorem own_self (i : ι) (log : List (ι × Q × R)) (q : Q) (r : R) :
    own i (log ++ [(i, q, r)]) = own i log ++ [(q, r)] := by simp [own]

theorem own_other {i j : ι} (h : j ≠ i) (log : List (ι × Q × R)) (q : Q) (r : R) :
    own j (log ++ [(i, q, r)]) = own j log := by simp [own, Ne.symm h]

variable {step : ι → S → Q → R → S → Prop} {p p' : Pool ι S Q R E α}

/-- **Each thread is where its own entries have brought it.** -/
theorem Steps.told (h : Steps step p p') (hp : p.log = []) (i : ι) :
    (p.threads i).Told (own i p'.log) (p'.threads i) := by
  have hall := Steps.invariant (I := fun _ _ => True)
    (L := fun j prog _ log => (p.threads j).Told (own j log) prog)
    (fun _ hi _ => ⟨trivial, by rw [own_self]; exact hi.snoc _⟩)
    (fun hj hl _ => by rw [own_other hj]; exact hl) h
    ⟨trivial, fun j => by rw [hp]; exact told_nil.mpr rfl⟩
  exact hall.threads i

end Pool

/-! ## Putting interleaved histories together -/

/-- **Each thread's part told anew**: where the marked items of every thread match a list
of its own, the whole matches one interleaving of these lists. -/
theorem exists_interleaving {ι X A B : Type} [DecidableEq ι] (mark : X → Option (ι × A))
    (M : A → B → Prop) : ∀ (xs : List X) (parts : ι → List B),
    (∀ i, List.Forall₂ M ((xs.filterMap mark).filterMap fun m => if m.1 = i then some m.2 else none)
      (parts i)) →
    ∃ ys : List (X × Option B), ys.map Prod.fst = xs ∧
      (∀ y ∈ ys, Option.Rel (fun m b => M m.2 b) (mark y.1) y.2) ∧
      ∀ i, (ys.filterMap fun y => (mark y.1).bind fun m => if m.1 = i then y.2 else none) = parts i
  | [], parts, h => ⟨[], rfl, by simp, fun i => (List.forall₂_nil_left_iff.mp (h i)).symm⟩
  | x :: xs, parts, h => by
      cases hx : mark x with
      | none =>
          obtain ⟨ys, rfl, hys, hparts⟩ := exists_interleaving mark M xs parts
            (fun i => by simpa [hx] using h i)
          refine ⟨(x, none) :: ys, rfl, fun y hy => ?_, fun i => by simpa [hx] using hparts i⟩
          rcases List.mem_cons.mp hy with rfl | hy
          · rw [hx]; exact .none
          · exact hys y hy
      | some m =>
          obtain ⟨j, a⟩ := m
          have hj := h j
          simp only [List.filterMap_cons, hx, if_true] at hj
          obtain ⟨b, bs, hab, hbs, hpart⟩ := List.forall₂_cons_left_iff.mp hj
          -- the thread's own list is one shorter, the others are as they were
          obtain ⟨ys, rfl, hys, hparts⟩ := exists_interleaving mark M xs
            (Function.update parts j bs) (fun i => by
              by_cases hij : i = j
              · subst hij; rw [Function.update_self]; exact hbs
              · rw [Function.update_of_ne hij]
                simpa [hx, Ne.symm hij] using h i)
          refine ⟨(x, some b) :: ys, rfl, fun y hy => ?_, fun i => ?_⟩
          · rcases List.mem_cons.mp hy with rfl | hy
            · rw [hx]; exact .some hab
            · exact hys y hy
          · have hi := hparts i
            by_cases hij : i = j
            · subst hij
              rw [Function.update_self] at hi
              simp [hx, hi, hpart]
            · rw [Function.update_of_ne hij] at hi
              simp [hx, Ne.symm hij, hi]

end Prog
