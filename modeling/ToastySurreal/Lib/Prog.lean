import ToastySurreal.Lib.Results

/-!
# Programs that ask

A program returns, fails, or asks its surroundings a question and goes on with the
reply. What a question does is not its business: a run is taken against any step
relation on any kind of state. Two rules carry the proofs about runs. `runs_bind`
takes a run apart where the program is put together, and `Runs.invariant` says
that what every admissible question preserves a whole run preserves.
-/

/-- Programs that ask `Q`, get replies `R`, fail with `E` and return `α`. -/
inductive Prog (Q R E α : Type) where
  | done (a : α)
  | fail (e : E)
  | ask (q : Q) (k : R → Prog Q R E α)

namespace Prog

variable {Q R E α β S : Type}

def bind : Prog Q R E α → (α → Prog Q R E β) → Prog Q R E β
  | .done a, f => f a
  | .fail e, _ => .fail e
  | .ask q k, f => .ask q fun r => (k r).bind f

instance : Monad (Prog Q R E) where
  pure := .done
  bind := bind

theorem bind_def (p : Prog Q R E α) (f : α → Prog Q R E β) : p >>= f = p.bind f := rfl

theorem bind_bind {γ : Type} : ∀ (p : Prog Q R E α) (f : α → Prog Q R E β) (g : β → Prog Q R E γ),
    (p >>= f) >>= g = p >>= fun a => f a >>= g
  | .done _, _, _ => rfl
  | .fail _, _, _ => rfl
  | .ask q k, f, g => congrArg (Prog.ask q) (funext fun r => bind_bind (k r) f g)

/-- A computation that asks nothing. -/
def lift : Except E α → Prog Q R E α
  | .ok a => .done a
  | .error e => .fail e

@[simp] theorem lift_ok_bind (a : α) (f : α → Prog Q R E β) : (lift (.ok a) >>= f) = f a := rfl

@[simp] theorem lift_error_bind (e : E) (f : α → Prog Q R E β) :
    (lift (.error e) >>= f) = .fail e :=
  rfl

/-- Ask one question. -/
def query (q : Q) : Prog Q R E R := .ask q .done

/-- Run a program and go on whichever way it ends. -/
def attempt : Prog Q R E α → Prog Q R E (Except E α)
  | .done a => .done (.ok a)
  | .fail e => .done (.error e)
  | .ask q k => .ask q fun r => (k r).attempt

/-! ## Runs -/

section Runs

variable (step : S → Q → R → S → Prop)

/-- A program can go from one state to another and end like this. -/
def Runs : Prog Q R E α → S → S → Except E α → Prop
  | .done a, s, s', out => s' = s ∧ out = .ok a
  | .fail e, s, s', out => s' = s ∧ out = .error e
  | .ask q k, s, s', out => ∃ r s₁, step s q r s₁ ∧ (k r).Runs s₁ s' out

end Runs

variable {step : S → Q → R → S → Prop}

/-- **A run of a sequence** fails in its first part, or runs through it into the second. -/
theorem runs_bind : ∀ {p : Prog Q R E α} {f : α → Prog Q R E β} {s s' : S} {out : Except E β},
    (p >>= f).Runs step s s' out ↔
      (∃ e, p.Runs step s s' (.error e) ∧ out = .error e) ∨
        ∃ a s₁, p.Runs step s s₁ (.ok a) ∧ (f a).Runs step s₁ s' out
  | .done a, f, s, s', out => by
      rw [bind_def, bind]
      constructor
      · intro h; exact .inr ⟨a, s, ⟨rfl, rfl⟩, h⟩
      · intro h
        rcases h with ⟨e, h, _⟩ | ⟨b, s₁, h, hf⟩
        · exact absurd h.2 (by simp)
        · obtain ⟨rfl, hb⟩ := h
          injection hb with hb; subst hb
          exact hf
  | .fail e, f, s, s', out => by
      rw [bind_def, bind]
      constructor
      · intro h; exact .inl ⟨e, ⟨h.1, rfl⟩, h.2⟩
      · intro h
        rcases h with ⟨e', h, rfl⟩ | ⟨b, s₁, h, _⟩
        · injection h.2 with he; subst he
          exact ⟨h.1, rfl⟩
        · exact absurd h.2 (by simp)
  | .ask q k, f, s, s', out => by
      show (∃ r s₁, step s q r s₁ ∧ ((k r) >>= f).Runs step s₁ s' out) ↔ _
      constructor
      · intro h
        obtain ⟨r, s₁, hs, h⟩ := h
        rcases runs_bind.mp h with ⟨e, hp, he⟩ | ⟨a, s₂, hp, hf⟩
        · exact .inl ⟨e, ⟨r, s₁, hs, hp⟩, he⟩
        · exact .inr ⟨a, s₂, ⟨r, s₁, hs, hp⟩, hf⟩
      · intro h
        rcases h with ⟨e, ⟨r, s₁, hs, h⟩, rfl⟩ | ⟨a, s₂, ⟨r, s₁, hs, h⟩, hf⟩
        · exact ⟨r, s₁, hs, runs_bind.mpr (.inl ⟨e, h, rfl⟩)⟩
        · exact ⟨r, s₁, hs, runs_bind.mpr (.inr ⟨a, s₂, h, hf⟩)⟩

/-- A sequence that returns went through its first part. -/
theorem runs_bind_ok {p : Prog Q R E α} {f : α → Prog Q R E β} {s s' : S} {b : β} :
    (p >>= f).Runs step s s' (.ok b) ↔
      ∃ a s₁, p.Runs step s s₁ (.ok a) ∧ (f a).Runs step s₁ s' (.ok b) := by
  rw [runs_bind]
  constructor
  · intro h
    rcases h with ⟨e, _, he⟩ | h
    · exact absurd he (by simp)
    · exact h
  · exact .inr

@[simp] theorem runs_done {a : α} {s s' : S} {out : Except E α} :
    (Prog.done a : Prog Q R E α).Runs step s s' out ↔ s' = s ∧ out = .ok a := Iff.rfl

@[simp] theorem runs_pure {a : α} {s s' : S} {out : Except E α} :
    (pure a : Prog Q R E α).Runs step s s' out ↔ s' = s ∧ out = .ok a := Iff.rfl

@[simp] theorem runs_fail {e : E} {s s' : S} {out : Except E α} :
    (Prog.fail e : Prog Q R E α).Runs step s s' out ↔ s' = s ∧ out = .error e := Iff.rfl

@[simp] theorem runs_lift {x : Except E α} {s s' : S} {out : Except E α} :
    (lift x : Prog Q R E α).Runs step s s' out ↔ s' = s ∧ out = x := by
  cases x <;> exact Iff.rfl

/-- A sequence that starts with a computation. -/
theorem runs_lift_bind {x : Except E α} {f : α → Prog Q R E β} {s s' : S} {out : Except E β} :
    (lift x >>= f).Runs step s s' out ↔
      (∃ e, x = .error e ∧ s' = s ∧ out = .error e) ∨ ∃ a, x = .ok a ∧
      (f a).Runs step s s' out := by
  cases x with
  | ok a => simp
  | error e => simp

theorem runs_lift_bind_ok {x : Except E α} {f : α → Prog Q R E β} {s s' : S} {b : β} :
    (lift x >>= f).Runs step s s' (.ok b) ↔ ∃ a, x = .ok a ∧ (f a).Runs step s s' (.ok b) := by
  rw [runs_lift_bind]
  simp

theorem runs_attempt : ∀ {p : Prog Q R E α} {s s' : S} {out : Except E (Except E α)},
    p.attempt.Runs step s s' out ↔ ∃ r, p.Runs step s s' r ∧ out = .ok r
  | .done a, s, s', out => by simp [attempt, Runs, and_assoc]
  | .fail e, s, s', out => by simp [attempt, Runs, and_assoc]
  | .ask q k, s, s', out => by
      show (∃ r s₁, step s q r s₁ ∧ (k r).attempt.Runs step s₁ s' out) ↔ _
      simp only [runs_attempt]
      constructor
      · intro h
        obtain ⟨r, s₁, hs, o, h, ho⟩ := h
        exact ⟨o, ⟨r, s₁, hs, h⟩, ho⟩
      · intro h
        obtain ⟨o, ⟨r, s₁, hs, h⟩, ho⟩ := h
        exact ⟨r, s₁, hs, o, h, ho⟩

/-! ## What is asked -/

/-- Every question of a program is admissible, whatever the replies. -/
def Asks (P : Q → Prop) : Prog Q R E α → Prop
  | .done _ | .fail _ => True
  | .ask q k => P q ∧ ∀ r, (k r).Asks P

theorem Asks.bind {P : Q → Prop} : ∀ {p : Prog Q R E α} {f : α → Prog Q R E β}, p.Asks P →
    (∀ a, (f a).Asks P) → (p >>= f).Asks P
  | .done a, _, _, hf => hf a
  | .fail _, _, _, _ => trivial
  | .ask _ _, _, hp, hf => ⟨hp.1, fun r => Asks.bind (hp.2 r) hf⟩

theorem Asks.mono {P P' : Q → Prop} (hP : ∀ q, P q → P' q) :
    ∀ {p : Prog Q R E α}, p.Asks P → p.Asks P'
  | .done _, _ => trivial
  | .fail _, _ => trivial
  | .ask q _, hp => ⟨hP q hp.1, fun r => Asks.mono hP (hp.2 r)⟩

theorem Asks.lift {P : Q → Prop} (x : Except E α) : (lift x : Prog Q R E α).Asks P := by
  cases x <;> trivial

/-- What follows a computation knows its result. -/
theorem Asks.lift_bind {P : Q → Prop} {x : Except E α} {f : α → Prog Q R E β}
    (h : ∀ a, x = .ok a → (f a).Asks P) : (Prog.lift x >>= f).Asks P := by
  cases x with
  | error e => trivial
  | ok a => exact h a rfl

theorem Asks.attempt {P : Q → Prop} : ∀ {p : Prog Q R E α}, p.Asks P → p.attempt.Asks P
  | .done _, _ => trivial
  | .fail _, _ => trivial
  | .ask _ _, hp => ⟨hp.1, fun r => Asks.attempt (hp.2 r)⟩

/-- The program fails before its first question. -/
def Refuses (p : Prog Q R E α) : Prop := ∃ e, p = .fail e

/-- It does if what follows a computation does, whatever the result. -/
theorem Refuses.lift_bind {x : Except E α} {f : α → Prog Q R E β}
    (h : ∀ a, x = .ok a → (f a).Refuses) : (Prog.lift x >>= f).Refuses := by
  cases x with
  | error e => exact ⟨e, rfl⟩
  | ok a => exact h a rfl

/-- **The invariant rule**: a run keeps what its questions keep. -/
theorem Runs.invariant {P : Q → Prop} {I : S → Prop}
    (hstep : ∀ s q r s', P q → I s → step s q r s' → I s') : ∀ {p : Prog Q R E α} {s s' : S}
    {out : Except E α}, p.Asks P → I s → p.Runs step s s' out → I s'
  | .done _, _, _, _, _, hi, h => h.1 ▸ hi
  | .fail _, _, _, _, _, hi, h => h.1 ▸ hi
  | .ask q _, s, _, _, hp, hi, h => by
      obtain ⟨r, s₁, hs, h⟩ := h
      exact Runs.invariant hstep (hp.2 r) (hstep s q r s₁ hp.1 hi hs) h

/-- **The view rule**: a run is seen as a run, where every step is seen as a step. -/
theorem Runs.view {T : Type} {step' : T → Q → R → T → Prop} {P : Q → Prop} {f : S → T}
    (hstep : ∀ s q r s', P q → step s q r s' → step' (f s) q r (f s')) : ∀ {p : Prog Q R E α}
    {s s' : S} {out : Except E α}, p.Asks P → p.Runs step s s' out → p.Runs step' (f s) (f s') out
  | .done _, _, _, _, _, h => ⟨congrArg f h.1, h.2⟩
  | .fail _, _, _, _, _, h => ⟨congrArg f h.1, h.2⟩
  | .ask q _, s, _, _, hp, h => by
      obtain ⟨r, s₁, hs, h⟩ := h
      exact ⟨r, f s₁, hstep s q r s₁ hp.1 hs, Runs.view hstep (hp.2 r) h⟩

/-! ## How a program ends -/

/-- Where the replies are of a kind, the program ends in one of the ways it may. -/
def Yields (L : R → Prop) (T : Except E α → Prop) : Prog Q R E α → Prop
  | .done a => T (.ok a)
  | .fail e => T (.error e)
  | .ask _ k => ∀ r, L r → (k r).Yields L T

section Yields

open Results

variable {L : R → Prop} {T : Except E α → Prop} {T' : Except E β → Prop} {P : E → Prop}

/-- What follows knows how the first part ended; an error of that is one of the sequence. -/
theorem Yields.bind : ∀ {p : Prog Q R E α} {f : α → Prog Q R E β}, p.Yields L T →
    (∀ a, T (.ok a) → (f a).Yields L T') → (∀ e, T (.error e) → T' (.error e)) →
    (p >>= f).Yields L T'
  | .done a, _, hp, hf, _ => hf a hp
  | .fail e, _, hp, _, herr => herr e hp
  | .ask _ _, _, hp, hf, herr => fun r hr => Yields.bind (hp r hr) hf herr

theorem Yields.lift {x : Except E α} (h : T x) : (Prog.lift x : Prog Q R E α).Yields L T := by
  cases x with
  | error e => exact h
  | ok a => exact h

/-- What follows a computation knows its result. -/
theorem Yields.lift_bind {x : Except E α} {f : α → Prog Q R E β} (hx : Errs P x)
    (hf : ∀ a, x = .ok a → (f a).Yields L (Errs P)) : (Prog.lift x >>= f).Yields L (Errs P) := by
  cases x with
  | error e => exact .error (hx e rfl)
  | ok a => exact hf a rfl

theorem Yields.attempt : ∀ {p : Prog Q R E α}, p.Yields L T →
    p.attempt.Yields L fun out => ∃ result, out = .ok result ∧ T result
  | .done _, hp => ⟨_, rfl, hp⟩
  | .fail _, hp => ⟨_, rfl, hp⟩
  | .ask _ _, hp => fun r hr => Yields.attempt (hp r hr)

end Yields

/-! ## Two programs -/

section InStep

open Results

variable {P : Q → Q → Prop} {γ δ : Type}

/-- As long as neither fails, two programs ask related questions and end together,
whatever they are told. -/
def InStep (P : Q → Q → Prop) : Prog Q R E α → Prog Q R E β → Prop
  | .fail _, _ => True
  | .done _, .ask _ _ => False
  | .done _, _ => True
  | .ask _ _, .done _ => False
  | .ask _ _, .fail _ => True
  | .ask q k, .ask q' k' => P q q' ∧ ∀ r r', (k r).InStep P (k' r')

theorem InStep.failRight (e : E) : ∀ p : Prog Q R E α, p.InStep P (.fail e : Prog Q R E β)
  | .done _ => trivial
  | .fail _ => trivial
  | .ask _ _ => trivial

/-- **Two sequences are in step** if their first parts are and, from any results, the rest. -/
theorem InStep.bind : ∀ {p : Prog Q R E α} {p' : Prog Q R E β} {f : α → Prog Q R E γ}
    {f' : β → Prog Q R E δ}, p.InStep P p' → (∀ a b, (f a).InStep P (f' b)) →
    (p >>= f).InStep P (p' >>= f')
  | .fail _, _, _, _, _, _ => trivial
  | .done a, .done b, _, _, _, hf => hf a b
  | .done _, .fail e, _, _, _, _ => .failRight e _
  | .ask _ _, .fail e, _, _, _, _ => .failRight e _
  | .ask _ _, .ask _ _, _, _, h, hf => ⟨h.1, fun r r' => InStep.bind (h.2 r r') hf⟩

/-- Programs that ask nothing are in step. -/
theorem InStep.silent : ∀ {p : Prog Q R E α} {p' : Prog Q R E β}, p.Asks (fun _ => False) →
    p'.Asks (fun _ => False) → p.InStep P p'
  | .fail _, _, _, _ => trivial
  | .done _, .done _, _, _ => trivial
  | .done _, .fail _, _, _ => trivial
  | .done _, .ask _ _, _, h => h.1.elim
  | .ask _ _, _, h, _ => h.1.elim

/-- What follows two computations knows what their results have in common. -/
theorem InStep.lift_bind {T : α → β → Prop} {x : Except E α} {y : Except E β}
    {f : α → Prog Q R E γ} {f' : β → Prog Q R E δ} (h : Agree T x y)
    (hf : ∀ a b, T a b → (f a).InStep P (f' b)) :
    (Prog.lift x >>= f).InStep P (Prog.lift y >>= f') := by
  cases x with
  | error e => trivial
  | ok a =>
      cases y with
      | error e => exact .failRight e _
      | ok b => exact hf a b (h a b rfl rfl)

/-- A run that notes its questions and what it was told. -/
def Noted (log : List (Q × R)) (q : Q) (r : R) (log' : List (Q × R)) : Prop :=
  log' = log ++ [(q, r)]

theorem noted_extends : ∀ {p : Prog Q R E α} {log log' : List (Q × R)} {out : Except E α},
    p.Runs Noted log log' out → ∃ sent, log' = log ++ sent
  | .done _, _, _, _, h => ⟨[], by simp [h.1]⟩
  | .fail _, _, _, _, h => ⟨[], by simp [h.1]⟩
  | .ask q k, log, _, _, h => by
      obtain ⟨r, _, rfl, h⟩ := h
      obtain ⟨sent, rfl⟩ := noted_extends h
      exact ⟨(q, r) :: sent, by simp⟩

/-- **Programs in step leave logs in step**: related wherever both have an entry, and of
one length if neither run failed. -/
theorem InStep.logs : ∀ {p : Prog Q R E α} {p' : Prog Q R E β} {log log' end₁ end₂ : List (Q × R)}
    {out : Except E α} {out' : Except E β}, p.InStep P p' → p.Runs Noted log end₁ out →
    p'.Runs Noted log' end₂ out' → ∃ sent sent', end₁ = log ++ sent ∧ end₂ = log' ++ sent' ∧
      (∀ c ∈ sent.zip sent', P c.1.1 c.2.1) ∧
      ∀ a b, out = .ok a → out' = .ok b → sent.length = sent'.length
  | .fail _, _, _, _, _, _, _, _, _, ⟨rfl, rfl⟩, h' => by
      obtain ⟨sent', rfl⟩ := noted_extends h'
      exact ⟨[], sent', by simp, rfl, by simp, by simp⟩
  | .done _, .fail _, _, _, _, _, _, _, _, ⟨rfl, _⟩, ⟨rfl, rfl⟩ =>
      ⟨[], [], by simp, by simp, by simp, by simp⟩
  | .done _, .done _, _, _, _, _, _, _, _, ⟨rfl, _⟩, ⟨rfl, _⟩ =>
      ⟨[], [], by simp, by simp, by simp, by simp⟩
  | .ask _ _, .fail _, _, _, _, _, _, _, _, h, ⟨rfl, rfl⟩ => by
      obtain ⟨sent, rfl⟩ := noted_extends h
      exact ⟨sent, [], rfl, by simp, by simp, by simp⟩
  | .ask q _, .ask q' _, _, _, _, _, _, _, hp, ⟨r, _, rfl, h⟩, ⟨r', _, rfl, h'⟩ => by
      obtain ⟨sent, sent', rfl, rfl, hall, hlen⟩ := (hp.2 r r').logs h h'
      refine ⟨(q, r) :: sent, (q', r') :: sent', by
        simp, by simp, fun c hc => ?_, fun a b ha hb => ?_⟩
      · rcases List.mem_cons.mp hc with rfl | hc
        · exact hp.1
        · exact hall c hc
      · simpa using hlen a b ha hb

end InStep

/-- **A run ends as it may**, if all that it was told is of the kind. -/
theorem Yields.of_noted {L : R → Prop} {T : Except E α → Prop} : ∀ {p : Prog Q R E α}
    {log log' : List (Q × R)} {out : Except E α}, p.Yields L T → p.Runs Noted log log' out →
    (∀ c ∈ log', L c.2) → T out
  | .done _, _, _, _, hp, h, _ => h.2 ▸ hp
  | .fail _, _, _, _, hp, h, _ => h.2 ▸ hp
  | .ask q _, log, log', _, hp, h, hlog => by
      obtain ⟨r, _, rfl, h⟩ := h
      obtain ⟨sent, hsent⟩ := noted_extends h
      refine (hp r (hlog (q, r) ?_)).of_noted h hlog
      rw [hsent]
      exact List.mem_append_left _ (List.mem_append_right _ List.mem_cons_self)

end Prog
