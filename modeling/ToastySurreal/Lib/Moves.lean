import Mathlib.Data.List.Nodup
import Mathlib.Data.List.Pairwise
import Mathlib.Logic.Function.Basic

/-!
# Moving cells one after another

A plan for rearranging a store of named cells is a list of moves. A move empties
its source and, unless it is a plain removal, writes what the source held to a
destination; an empty source writes nothing. The moves run one at a time over
the same store, so a later move reads what an earlier one wrote.

What such a plan is meant to do is a *simultaneous* rearrangement: every
destination ends with what its source held at the start. This file says exactly
when the two agree. A plan is `Forward` when no move writes to a cell that a
later move still has to empty. `run_forward` computes what a forward plan leaves
in every cell, and `run_single` shows that any other plan loses a value.
-/

namespace Moves

variable {κ ν : Type} [DecidableEq κ]

/-- Empty `src`; keep what it held in `dst`, or nowhere. -/
structure Move (κ : Type) where
  src : κ
  dst : Option κ
  deriving DecidableEq, Repr

open Classical in
/-- One move. `z` is what an empty cell holds. -/
noncomputable def Move.step (z : ν) (f : κ → ν) (m : Move κ) : κ → ν :=
  match m.dst with
  | none => Function.update f m.src z
  | some d => Function.update (if f m.src = z then f else Function.update f d (f m.src)) m.src z

/-- The whole plan, in order. -/
noncomputable def run (z : ν) (ms : List (Move κ)) (f : κ → ν) : κ → ν :=
  ms.foldl (Move.step z) f

@[simp] theorem run_nil (z : ν) (f : κ → ν) : run z ([] : List (Move κ)) f = f := rfl

@[simp] theorem run_cons (z : ν) (m : Move κ) (ms : List (Move κ)) (f : κ → ν) :
    run z (m :: ms) f = run z ms (m.step z f) := rfl

theorem run_append (z : ν) (ms ns : List (Move κ)) (f : κ → ν) :
    run z (ms ++ ns) f = run z ns (run z ms f) := List.foldl_append ..

/-! ## One move -/

@[simp] theorem step_src (z : ν) (f : κ → ν) (m : Move κ) : m.step z f m.src = z := by
  cases hd : m.dst <;> simp [Move.step, hd]

/-- A destination takes the source's value, and keeps its own when the source is empty. -/
theorem step_dst {z : ν} {f : κ → ν} {m : Move κ} {d : κ} (hd : m.dst = some d)
    (hne : d ≠ m.src) : (f m.src ≠ z → m.step z f d = f m.src) ∧
      (f m.src = z → m.step z f d = f d) := by
  unfold Move.step
  rw [hd]
  dsimp only
  constructor
  · intro h; rw [if_neg h, Function.update_of_ne hne, Function.update_self]
  · intro h; rw [if_pos h, Function.update_of_ne hne]

/-- Every other cell is left alone. -/
theorem step_frame {z : ν} {f : κ → ν} {m : Move κ} {c : κ} (hs : c ≠ m.src)
    (hd : m.dst ≠ some c) : m.step z f c = f c := by
  cases hdst : m.dst with
  | none => simp [Move.step, hdst, hs]
  | some d =>
      have hcd : c ≠ d := fun h => hd (h ▸ hdst)
      simp only [Move.step, hdst, Function.update_of_ne hs]
      split
      · rfl
      · exact Function.update_of_ne hcd _ _

/-! ## Plans -/

/-- No move writes to a cell that a later move still has to empty. -/
def Forward (ms : List (Move κ)) : Prop :=
  ms.Pairwise (fun a b => a.dst ≠ some b.src)

instance (ms : List (Move κ)) : Decidable (Forward ms) :=
  inferInstanceAs (Decidable (List.Pairwise _ _))

/-- A plan for distinct cells: sources are distinct, destinations are distinct,
and nothing is moved onto itself. -/
structure Plan (ms : List (Move κ)) : Prop where
  /-- A cell is emptied at most once. -/
  src_nodup : ms.Pairwise (fun a b => a.src ≠ b.src)
  /-- A cell is filled at most once. -/
  dst_nodup : ms.Pairwise (fun a b => ∀ d, a.dst = some d → b.dst ≠ some d)
  /-- No move is onto its own source. -/
  ne_self : ∀ m ∈ ms, m.dst ≠ some m.src

omit [DecidableEq κ] in
theorem Plan.tail {m : Move κ} {ms : List (Move κ)} (h : Plan (m :: ms)) : Plan ms :=
  ⟨(List.pairwise_cons.mp h.src_nodup).2, (List.pairwise_cons.mp h.dst_nodup).2,
    fun n hn => h.ne_self n (List.mem_cons_of_mem _ hn)⟩

/-- A cell no move mentions keeps what it holds. -/
theorem run_frame {z : ν} {c : κ} : ∀ {ms : List (Move κ)} {f : κ → ν},
    (∀ m ∈ ms, m.src ≠ c) → (∀ m ∈ ms, m.dst ≠ some c) → run z ms f c = f c
  | [], _, _, _ => rfl
  | m :: ms, f, hs, hd => by
      have h1 := run_frame (z := z) (f := m.step z f)
        (fun n hn => hs n (List.mem_cons_of_mem _ hn))
        (fun n hn => hd n (List.mem_cons_of_mem _ hn))
      rw [run_cons, h1]
      exact step_frame (Ne.symm (hs m (List.mem_cons_self ..))) (hd m (List.mem_cons_self ..))

/-- A cell that is emptied and never filled ends empty. -/
theorem run_src {z : ν} {c : κ} : ∀ {ms : List (Move κ)} {f : κ → ν},
    (∃ m ∈ ms, m.src = c) → (∀ m ∈ ms, m.dst ≠ some c) → run z ms f c = z
  | [], _, hs, _ => by obtain ⟨m, hm, _⟩ := hs; exact absurd hm (List.not_mem_nil)
  | m :: ms, f, hs, hd => by
      have hd' : ∀ n ∈ ms, n.dst ≠ some c := fun n hn => hd n (List.mem_cons_of_mem _ hn)
      by_cases hlater : ∃ n ∈ ms, n.src = c
      · rw [run_cons]; exact run_src hlater hd'
      · have hnone : ∀ n ∈ ms, n.src ≠ c := fun n hn he => hlater ⟨n, hn, he⟩
        obtain ⟨n, hn, hnc⟩ := hs
        rcases List.mem_cons.mp hn with rfl | hn
        · rw [run_cons, run_frame hnone hd', ← hnc, step_src]
        · exact absurd hnc (hnone n hn)

/-- **A forward plan fills each destination with what its source held at the
start.** An empty source leaves the destination as it was, or empty if the
destination is itself a source. -/
theorem run_forward {z : ν} : ∀ {ms : List (Move κ)} {f : κ → ν}, Plan ms → Forward ms →
    ∀ {m : Move κ} {d : κ}, m ∈ ms → m.dst = some d →
      (f m.src ≠ z → run z ms f d = f m.src) ∧
      (f m.src = z → ((∃ n ∈ ms, n.src = d) → run z ms f d = z) ∧
        ((∀ n ∈ ms, n.src ≠ d) → run z ms f d = f d))
  | [], _, _, _, m, d, hm, _ => absurd hm List.not_mem_nil
  | m₀ :: ms, f, hp, hfw, m, d, hm, hd => by
      have hfw' := List.pairwise_cons.mp hfw
      have hsrc := List.pairwise_cons.mp hp.src_nodup
      have hdst := List.pairwise_cons.mp hp.dst_nodup
      rw [run_cons]
      rcases List.mem_cons.mp hm with rfl | hm
      · -- the first move fills `d`, and nothing after it touches `d` again
        have hne : d ≠ m.src := fun h => hp.ne_self m (List.mem_cons_self ..) (h ▸ hd)
        have hs : ∀ n ∈ ms, n.src ≠ d := fun n hn he => hfw'.1 n hn (he ▸ hd)
        have hfr : run z ms (m.step z f) d = m.step z f d :=
          run_frame hs (fun n hn => hdst.1 n hn d hd)
        have hstep := step_dst (f := f) (z := z) hd hne
        rw [hfr]
        refine ⟨hstep.1, fun hz => ⟨?_, fun _ => hstep.2 hz⟩⟩
        rintro ⟨n, hn, hnd⟩
        rcases List.mem_cons.mp hn with rfl | hn
        · exact absurd hnd.symm hne
        · exact absurd hnd (hs n hn)
      · -- a later move fills `d`: the first one leaves that move's source alone
        have hsne : m.src ≠ m₀.src := fun h => hsrc.1 m hm h.symm
        have hsame : m₀.step z f m.src = f m.src := step_frame hsne (hfw'.1 m hm)
        have hd0 : m₀.dst ≠ some d := fun h => hdst.1 m hm d h hd
        obtain ⟨ih1, ih2⟩ := run_forward (f := m₀.step z f) hp.tail hfw'.2 hm hd
        rw [hsame] at ih1 ih2
        refine ⟨ih1, fun hz => ⟨?_, ?_⟩⟩
        · rintro ⟨n, hn, hnd⟩
          by_cases hlater : ∃ n ∈ ms, n.src = d
          · exact (ih2 hz).1 hlater
          · have hall : ∀ n ∈ ms, n.src ≠ d := fun n hn he => hlater ⟨n, hn, he⟩
            rcases List.mem_cons.mp hn with rfl | hn
            · rw [(ih2 hz).2 hall, ← hnd, step_src]
            · exact absurd hnd (hall n hn)
        · intro hall
          rw [(ih2 hz).2 (fun n hn => hall n (List.mem_cons_of_mem _ hn))]
          exact step_frame (Ne.symm (hall m₀ (List.mem_cons_self ..))) hd0

/-! ## A plan that is not forward loses a value -/

/-- Moves whose sources are empty change nothing. -/
theorem run_empty_sources {z : ν} : ∀ {ms : List (Move κ)} {f : κ → ν},
    (∀ m ∈ ms, f m.src = z) → run z ms f = f
  | [], _, _ => rfl
  | m :: ms, f, h => by
      have hz := h m (List.mem_cons_self ..)
      have hstep : m.step z f = f := by
        have hsame : Function.update f m.src z = f := by
          rw [← hz]; exact Function.update_eq_self _ _
        cases hd : m.dst <;> simp [Move.step, hd, hz, hsame]
      rw [run_cons, hstep]
      exact run_empty_sources (fun n hn => h n (List.mem_cons_of_mem _ hn))

/-- **If some move writes to the source of a later one, the value is lost.** In a
store that holds only that move's source, its destination ends empty. -/
theorem run_single {z : ν} {f : κ → ν} {pre mid post : List (Move κ)} {a b : Move κ}
    (hp : Plan (pre ++ a :: (mid ++ b :: post))) (hab : a.dst = some b.src)
    (hf : ∀ c, c ≠ a.src → f c = z) :
    run z (pre ++ a :: (mid ++ b :: post)) f b.src = z := by
  have hsrc := List.pairwise_append.mp hp.src_nodup
  have hdst := List.pairwise_append.mp hp.dst_nodup
  -- before `a`, every source is empty
  have hpre : run z pre f = f := run_empty_sources (fun m hm =>
    hf m.src (hsrc.2.2 m hm a (List.mem_cons_self ..)))
  have hdst' := List.pairwise_cons.mp hdst.2.1
  rw [run_append, hpre, run_cons]
  -- from `a` on, `b.src` is emptied and never filled again
  exact run_src ⟨b, by simp, rfl⟩ (fun m hm => hdst'.1 m hm b.src hab)

/-- A plan that is not forward has such a pair. -/
theorem exists_of_not_forward {ms : List (Move κ)} (h : ¬ Forward ms) :
    ∃ pre a mid b post, ms = pre ++ a :: (mid ++ b :: post) ∧ a.dst = some b.src := by
  induction ms with
  | nil => exact absurd List.Pairwise.nil h
  | cons m ms ih =>
      by_cases htail : Forward ms
      · have hhead : ¬ ∀ b ∈ ms, m.dst ≠ some b.src :=
          fun hall => h (List.pairwise_cons.mpr ⟨hall, htail⟩)
        simp only [not_forall, not_not] at hhead
        obtain ⟨b, hb, heq⟩ := hhead
        obtain ⟨mid, post, rfl⟩ := List.append_of_mem hb
        exact ⟨[], m, mid, b, post, rfl, heq⟩
      · obtain ⟨pre, a, mid, b, post, rfl, heq⟩ := ih htail
        exact ⟨m :: pre, a, mid, b, post, rfl, heq⟩

end Moves
