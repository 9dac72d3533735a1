import ToastySurreal.Lib.Lists
import ToastySurreal.Lib.Simulation

/-!
# Histories with snapshots

Some events of a history act on what is there. Others were worked out on a snapshot, which
is what was there at some earlier point, and are merged into what is there by then. A
history keeps what was there after each event. A history can be seen through a projection
(`Projects.history`), one system of such rules can follow another (`Follows.history`), and
where merging comes to acting a history is a run (`History.serial`).
-/

namespace Snapshots

open Simulation Lists

variable {S X W S' X' W' : Type}

/-- How an event acts, how it is worked out on a snapshot, and how that is merged in. -/
structure Rules (S X W : Type) where
  act : S → X → S → Prop
  work : S → X → W → Prop
  merge : W → S → S → Prop

/-- What is there after these events. -/
def now (s₀ : S) (xs : List (X × S)) : S := (xs.getLast?.map Prod.snd).getD s₀

@[simp] theorem now_nil (s₀ : S) : now s₀ ([] : List (X × S)) = s₀ := rfl

@[simp] theorem now_snoc (s₀ : S) (xs : List (X × S)) (x : X) (s : S) :
    now s₀ (xs ++ [(x, s)]) = s := by
  simp [now]

/-- Events, each with what was there after it. -/
inductive History (m : Rules S X W) (s₀ : S) : List (X × S) → Prop where
  | nil : History m s₀ []
  | act {xs : List (X × S)} {x : X} {s : S} (h : History m s₀ xs) (hact : m.act (now s₀ xs) x s) :
      History m s₀ (xs ++ [(x, s)])
  | merge {xs before : List (X × S)} {x : X} {w : W} {s : S} (h : History m s₀ xs)
      (hb : before <+: xs) (hwork : m.work (now s₀ before) x w) (hmerge : m.merge w (now s₀ xs) s) :
      History m s₀ (xs ++ [(x, s)])

variable {m : Rules S X W} {m' : Rules S' X' W'} {s₀ : S} {s₀' : S'} {xs : List (X × S)}

/-- **Where merging comes to acting**, a history is a run of its events. -/
theorem History.serial {step : S → X → S → Prop} (hact : ∀ s x s', m.act s x s' → step s x s')
    (hmerge : ∀ s x w t t', m.work s x w → m.merge w t t' → step t x t') (h : History m s₀ xs) :
    Run step s₀ (xs.map Prod.fst) (now s₀ xs) := by
  have hsnoc : ∀ {xs : List (X × S)} {x : X} {s : S}, Run step s₀ (xs.map Prod.fst) (now s₀ xs) →
      step (now s₀ xs) x s → Run step s₀ ((xs ++ [(x, s)]).map Prod.fst)
      (now s₀ (xs ++ [(x, s)])) := by
    intro xs x s hrun hstep
    rw [List.map_append, now_snoc]
    exact hrun.append ⟨s, hstep, rfl⟩
  induction h with
  | nil => rfl
  | act _ hstep ih => exact hsnoc ih (hact _ _ _ hstep)
  | merge _ _ hwork hstep ih => exact hsnoc ih (hmerge _ _ _ _ _ hwork hstep)

/-! ## Projections -/

/-- Rules seen through `f`, where the events that `g` leaves out change nothing. Only events of a
kind matter. -/
structure Projects (m : Rules S X W) (m' : Rules S' X' W') (P : X → Prop) (f : S → S')
    (g : X → Option X') : Prop where
  act : ∀ {s x s' y}, P x → g x = some y → m.act s x s' → m'.act (f s) y (f s')
  act_none : ∀ {s x s'}, P x → g x = none → m.act s x s' → f s' = f s
  merge : ∀ {s x w y}, P x → g x = some y → m.work s x w →
    ∃ u, m'.work (f s) y u ∧ ∀ t t', m.merge w t t' → m'.merge u (f t) (f t')
  merge_none : ∀ {s x w t t'}, P x → g x = none → m.work s x w → m.merge w t t' → f t' = f t

variable {f : S → S'} {g : X → Option X'} {P : X → Prop}

/-- The events that are kept, each with what is seen after it. -/
def projected (f : S → S') (g : X → Option X') (xs : List (X × S)) : List (X' × S') :=
  xs.filterMap fun x => (g x.1).map fun y => (y, f x.2)

theorem projected_append (xs ys : List (X × S)) :
    projected f g (xs ++ ys) = projected f g xs ++ projected f g ys := List.filterMap_append

theorem projected_some {x : X} {y : X'} (h : g x = some y) (s : S) :
    projected f g [(x, s)] = [(y, f s)] := by
  simp [projected, h]

theorem projected_none {x : X} (h : g x = none) (s : S) : projected f g [(x, s)] = [] := by
  simp [projected, h]

/-- **A history can be projected**: events that change nothing that is seen are left out. -/
theorem Projects.history (hp : Projects m m' P f g) (h : History m s₀ xs) (hxs : ∀ x ∈ xs, P x.1) :
    History m' (f s₀) (projected f g xs) ∧
      ∀ before, before <+: xs → now (f s₀) (projected f g before) = f (now s₀ before) := by
  -- the event at the end is kept, or what is seen stays
  have hsnoc : ∀ {xs : List (X × S)} {x : X} {s : S}, (g x = none → f s = f (now s₀ xs)) →
      (∀ before, before <+: xs → now (f s₀) (projected f g before) = f (now s₀ before)) →
      ∀ before, before <+: xs ++ [(x, s)] → now (f s₀) (projected f g before) =
      f (now s₀ before) := by
    intro xs x s hsilent ih before hb
    rcases List.prefix_concat_iff.mp hb with rfl | hb
    · rw [projected_append, now_snoc]
      cases hg : g x with
      | some y => rw [projected_some hg, now_snoc]
      | none => rw [projected_none hg, List.append_nil, ih xs (List.prefix_refl _), hsilent hg]
    · exact ih before hb
  induction h with
  | nil =>
      refine ⟨.nil, fun before hb => ?_⟩
      rw [List.prefix_nil.mp hb]
      rfl
  | @act xs x s _ hstep ih =>
      have ih := ih fun x hx => hxs x (List.mem_append_left _ hx)
      have hx := hxs (x, s) (List.mem_append_right _ (List.mem_singleton.mpr rfl))
      have hnow := ih.2 xs (List.prefix_refl _)
      refine ⟨?_, hsnoc (fun hg => hp.act_none hx hg hstep) ih.2⟩
      rw [projected_append]
      cases hg : g x with
      | some y =>
          rw [projected_some hg]
          exact .act ih.1 (by rw [hnow]; exact hp.act hx hg hstep)
      | none =>
          rw [projected_none hg, List.append_nil]
          exact ih.1
  | @merge xs before x w s _ hb hwork hstep ih =>
      have ih := ih fun x hx => hxs x (List.mem_append_left _ hx)
      have hx := hxs (x, s) (List.mem_append_right _ (List.mem_singleton.mpr rfl))
      have hnow := ih.2 xs (List.prefix_refl _)
      refine ⟨?_, hsnoc (fun hg => hp.merge_none hx hg hwork hstep) ih.2⟩
      rw [projected_append]
      cases hg : g x with
      | some y =>
          obtain ⟨u, hu, hmerge⟩ := hp.merge hx hg hwork
          rw [projected_some hg]
          refine .merge (w := u) ih.1 (hb.filterMap _) ?_ (by rw [hnow]; exact hmerge _ _ hstep)
          rw [show now (f s₀) (List.filterMap _ before) = _ from ih.2 before hb]
          exact hu
      | none =>
          rw [projected_none hg, List.append_nil]
          exact ih.1

/-! ## Following -/

/-- Rules whose steps can be followed: `R` relates what is there, `E` the events and `T` what
is worked out. -/
structure Follows (m : Rules S X W) (m' : Rules S' X' W') (R : S → S' → Prop) (E : X → X' → Prop)
    (T : W → W' → Prop) : Prop where
  act : ∀ {s x s' a y}, R s a → E x y → m.act s x s' → ∃ a', m'.act a y a' ∧ R s' a'
  work : ∀ {s x w a y}, R s a → E x y → m.work s x w → ∃ u, m'.work a y u ∧ T w u
  merge : ∀ {s w s' a u}, R s a → T w u → m.merge w s s' → ∃ a', m'.merge u a a' ∧ R s' a'

variable {R : S → S' → Prop} {E : X → X' → Prop} {T : W → W' → Prop} {ys : List (X' × S')}

/-- Related histories are related at the end. -/
theorem now_related (h₀ : R s₀ s₀') (h : List.Forall₂ (fun x y => E x.1 y.1 ∧ R x.2 y.2) xs ys) :
    R (now s₀ xs) (now s₀' ys) := by
  have hlast := List.rel_reverse h
  unfold now
  rw [List.getLast?_eq_head?_reverse, List.getLast?_eq_head?_reverse]
  generalize xs.reverse = xs' at hlast
  generalize ys.reverse = ys' at hlast
  cases hlast with
  | nil => exact h₀
  | cons h _ => exact h.2

/-- And so they are at every earlier point. -/
theorem prefix_related {before : List (X × S)}
    (h : List.Forall₂ (fun x y => E x.1 y.1 ∧ R x.2 y.2) xs ys) (hb : before <+: xs) :
    ∃ before', before' <+: ys ∧ List.Forall₂ (fun x y => E x.1 y.1 ∧ R x.2 y.2) before before' := by
  refine ⟨ys.take before.length, List.take_prefix _ _, ?_⟩
  rw [List.prefix_iff_eq_take.mp hb, List.length_take_of_le hb.length_le]
  exact List.forall₂_take _ h

/-- **A history is followed**, event by event. -/
theorem Follows.history (hf : Follows m m' R E T) (h₀ : R s₀ s₀') (h : History m s₀ xs)
    {es : List X'} (hes : List.Forall₂ (fun x e => E x.1 e) xs es) :
    ∃ ys, ys.map Prod.fst = es ∧ History m' s₀' ys ∧
      List.Forall₂ (fun x y => E x.1 y.1 ∧ R x.2 y.2) xs ys := by
  induction h generalizing es with
  | nil =>
      cases hes
      exact ⟨[], rfl, .nil, .nil⟩
  | @act xs x s _ hact ih =>
      obtain ⟨es, e, rfl, hes, he⟩ := forall₂_snoc hes
      obtain ⟨ys, rfl, hys, hrel⟩ := ih hes
      obtain ⟨a, ha, hr⟩ := hf.act (now_related h₀ hrel) he hact
      exact ⟨ys ++ [(e, a)], by simp, .act hys ha, List.rel_append hrel (.cons ⟨he, hr⟩ .nil)⟩
  | @merge xs before x w s _ hb hwork hmerge ih =>
      obtain ⟨es, e, rfl, hes, he⟩ := forall₂_snoc hes
      obtain ⟨ys, rfl, hys, hrel⟩ := ih hes
      obtain ⟨before', hb', hrel'⟩ := prefix_related hrel hb
      obtain ⟨u, hu, ht⟩ := hf.work (now_related h₀ hrel') he hwork
      obtain ⟨a, ha, hr⟩ := hf.merge (now_related h₀ hrel) ht hmerge
      exact ⟨ys ++ [(e, a)], by
        simp, .merge hys hb' hu ha, List.rel_append hrel (.cons ⟨he, hr⟩ .nil)⟩

end Snapshots
