import Mathlib.Data.List.Perm.Basic
import Mathlib.Data.List.Pairwise
import Mathlib.Order.Basic

/-!
# Reading a list page by page

A page is the `n` least items by key; the next page is read from the items whose keys
come after the last key of the page. Items are told apart by their keys only, so a
group of items with equal keys that reaches over the end of a page loses what is beyond
it. `pages_complete_iff` says that nothing else can go wrong.

The sort is a parameter of which only the order of keys is known: it may arrange items
with equal keys differently each time.
-/

namespace Keyset

variable {α κ : Type}

/-- Reading by a key. -/
structure Reading (α κ : Type) where
  le : κ → κ → Bool
  total : ∀ a b, le a b = true ∨ le b a = true
  trans : ∀ a b c, le a b = true → le b c = true → le a c = true
  key : α → κ
  sort : List α → List α
  perm : ∀ xs, (sort xs).Perm xs
  sorted : ∀ xs, (sort xs).Pairwise fun a b => le (key a) (key b) = true

namespace Reading

variable (R : Reading α κ)

/-- The items that come after a key. -/
def after (k : κ) (xs : List α) : List α := xs.filter fun x => !R.le (R.key x) k

/-- Reading to the end, page by page. -/
inductive Pages (n : Nat) : List α → List (List α) → Prop where
  | last {xs : List α} (h : xs.length < n) : Pages n xs [(R.sort xs).take n]
  | more {xs : List α} {x : α} {ps : List (List α)} (h : n ≤ xs.length)
      (hx : ((R.sort xs).take n).getLast? = some x) (rest : Pages n (R.after (R.key x) xs) ps) :
      Pages n xs ((R.sort xs).take n :: ps)

/-- How many items come before a key. -/
def before (k : κ) (xs : List α) : Nat := xs.countP fun y => !R.le k (R.key y)

/-- How many items come up to a key. -/
def upto (k : κ) (xs : List α) : Nat := xs.countP fun y => R.le (R.key y) k

/-- No group of items with equal keys reaches over the end of a page. -/
def NoTieAcross (n : Nat) (xs : List α) : Prop :=
  ∀ x ∈ xs, ∀ i, ¬ (R.before (R.key x) xs < i * n ∧ i * n < R.upto (R.key x) xs)

variable {R} {n : Nat} {xs : List α}

theorem le_refl (k : κ) : R.le k k = true := by
  rcases R.total k k with h | h <;> exact h

theorem le_of_not {a b : κ} (h : R.le a b = false) : R.le b a = true := by
  rcases R.total a b with h' | h'
  · rw [h] at h'; exact absurd h' (by simp)
  · exact h'

/-- What is not after a key is up to it. -/
theorem length_after (k : κ) (xs : List α) : (R.after k xs).length + R.upto k xs = xs.length := by
  have h := List.length_eq_countP_add_countP (fun y => R.le (R.key y) k) (l := xs)
  rw [after, ← List.countP_eq_length_filter, upto, h]
  simp only [Bool.not_eq_true, Bool.decide_eq_false]
  omega

/-- Going on after a later key skips what an earlier one skips. -/
theorem after_after {k k' : κ} (h : R.le k k' = true) (xs : List α) :
    R.after k' (R.after k xs) = R.after k' xs := by
  rw [after, after, after, List.filter_filter]
  refine List.filter_congr fun x _ => ?_
  by_cases hx : R.le (R.key x) k' = true
  · simp [hx]
  · have hxk : R.le (R.key x) k = false := by
      by_contra hc
      exact hx (R.trans _ _ _ (by simpa using hc) h)
    simp [hx, hxk]

/-! ## A full page -/

/-- The last item of a full page, with what stands before and after it. -/
theorem split_last {x : α} (h : n ≤ xs.length)
    (hx : ((R.sort xs).take n).getLast? = some x) : ∃ front rest,
      R.sort xs = front ++ x :: rest ∧ front.length + 1 = n := by
  have hlen : (R.sort xs).length = xs.length := (R.perm xs).length_eq
  obtain ⟨front, hfront⟩ := List.getLast?_eq_some_iff.mp hx
  refine ⟨front, (R.sort xs).drop n, ?_, ?_⟩
  · have htake := List.take_append_drop n (R.sort xs)
    rw [hfront] at htake
    refine htake.symm.trans ?_
    simp
  · have htake := congrArg List.length hfront
    rw [List.length_take, List.length_append, List.length_singleton, hlen] at htake
    omega

/-- Fewer than a page's items come before its last key, and at least a page's come up to it. -/
theorem last_key_counts {x : α} (h : n ≤ xs.length)
    (hx : ((R.sort xs).take n).getLast? = some x) :
    x ∈ xs ∧ R.before (R.key x) xs < n ∧ n ≤ R.upto (R.key x) xs := by
  obtain ⟨front, rest, hsplit, hlen⟩ := split_last h hx
  have hsorted := R.sorted xs
  rw [hsplit, List.pairwise_append, List.pairwise_cons] at hsorted
  obtain ⟨_, ⟨hrest, _⟩, hfront⟩ := hsorted
  have hperm := R.perm xs
  refine ⟨hperm.subset (by rw [hsplit]; simp), ?_, ?_⟩
  · have hnone : (x :: rest).countP (fun y => !R.le (R.key x) (R.key y)) = 0 := by
      rw [List.countP_eq_zero]
      intro y hy
      rcases List.mem_cons.mp hy with rfl | hy
      · simp [le_refl]
      · simp [hrest y hy]
    have hle := List.countP_le_length (p := fun y => !R.le (R.key x) (R.key y)) (l := front)
    rw [before, ← hperm.countP_eq, hsplit, List.countP_append, hnone]
    omega
  · have hall : (front ++ [x]).countP (fun y => R.le (R.key y) (R.key x)) = n := by
      rw [List.countP_eq_length.mpr]
      · rw [List.length_append, List.length_singleton]; exact hlen
      · intro y hy
        rcases List.mem_append.mp hy with hy | hy
        · exact hfront y hy x List.mem_cons_self
        · rw [List.mem_singleton.mp hy]; exact le_refl _
    have hcons : front ++ x :: rest = (front ++ [x]) ++ rest := by simp
    rw [upto, ← hperm.countP_eq, hsplit, hcons, List.countP_append, hall]
    omega

/-- The next page is read from fewer items. -/
theorem after_lt {x : α} (h : n ≤ xs.length)
    (hx : ((R.sort xs).take n).getLast? = some x) : (R.after (R.key x) xs).length < xs.length := by
  have hcounts := last_key_counts h hx
  have hafter := length_after (R := R) (R.key x) xs
  omega

/-- **Reading ends.** -/
theorem exists_pages (hn : 0 < n) (xs : List α) : ∃ ps, R.Pages n xs ps := by
  induction hlen : xs.length using Nat.strongRecOn generalizing xs with
  | ind len ih =>
      subst hlen
      by_cases h : xs.length < n
      · exact ⟨_, .last h⟩
      · have hne : (R.sort xs).take n ≠ [] := by
          intro hnil
          have hlen := congrArg List.length hnil
          rw [List.length_take, (R.perm xs).length_eq, List.length_nil] at hlen
          omega
        obtain ⟨x, hx⟩ := Option.ne_none_iff_exists'.mp fun hnone =>
          hne (List.getLast?_eq_none_iff.mp hnone)
        obtain ⟨ps, hps⟩ := ih _ (after_lt (by omega) hx) _ rfl
        exact ⟨_, .more (by omega) hx hps⟩

/-- A page and what is after it were all there. -/
theorem page_subperm {x : α} (hx : ((R.sort xs).take n).getLast? = some x) :
    ((R.sort xs).take n ++ R.after (R.key x) xs).Subperm xs := by
  have hperm := R.perm xs
  -- what comes after the last key is beyond the page
  have hbeyond : R.after (R.key x) (R.sort xs) = R.after (R.key x) ((R.sort xs).drop n) := by
    conv_lhs => rw [← List.take_append_drop n (R.sort xs)]
    rw [after, List.filter_append]
    have hnone : ((R.sort xs).take n).filter (fun y => !R.le (R.key y) (R.key x)) = [] := by
      rw [List.filter_eq_nil_iff]
      intro y hy
      obtain ⟨front, hfront⟩ := List.getLast?_eq_some_iff.mp hx
      have hsorted := (R.sorted xs).sublist (List.take_sublist n _)
      rw [hfront] at hy hsorted
      rcases List.mem_append.mp hy with hy | hy
      · simp [(List.pairwise_append.mp hsorted).2.2 y hy x (List.mem_singleton.mpr rfl)]
      · simp [List.mem_singleton.mp hy, le_refl]
    rw [hnone, List.nil_append]
    rfl
  have hafter : (R.after (R.key x) xs).Perm (R.after (R.key x) (R.sort xs)) := (hperm.filter _).symm
  rw [hbeyond] at hafter
  have hsub : ((R.sort xs).take n ++ R.after (R.key x) ((R.sort xs).drop n)).Subperm
      (R.sort xs) := by
    conv_rhs => rw [← List.take_append_drop n (R.sort xs)]
    exact (List.Sublist.append (List.Sublist.refl _) List.filter_sublist).subperm
  exact ((List.Perm.append_left _ hafter).subperm.trans hsub).trans hperm.subperm

/-- **No item is read twice**, and none that is not there. -/
theorem pages_subperm {ps : List (List α)} (h : R.Pages n xs ps) : ps.flatten.Subperm xs := by
  induction h with
  | last h =>
      rw [List.flatten_cons, List.flatten_nil, List.append_nil]
      exact ((List.take_sublist _ _).subperm).trans (R.perm _).subperm
  | more h hx rest ih =>
      rw [List.flatten_cons]
      exact ((List.subperm_append_left _).mpr ih).trans (page_subperm hx)

/-! ## Completeness -/

/-- Past a full page the counts go down by the items it has. -/
theorem counts_after {x y : α} (hm : R.upto (R.key x) xs = n)
    (hy : R.le (R.key y) (R.key x) = false) :
    R.before (R.key y) xs = n + R.before (R.key y) (R.after (R.key x) xs) ∧
      R.upto (R.key y) xs = n + R.upto (R.key y) (R.after (R.key x) xs) := by
  have hxy := le_of_not hy
  have hsplit : ∀ p : α → Bool, (∀ z, R.le (R.key z) (R.key x) = true → p z = true) →
      xs.countP p = n + (R.after (R.key x) xs).countP p := by
    intro p hp
    have hparts : ∀ zs : List α, zs.countP p = zs.countP (fun z => R.le (R.key z) (R.key x)) +
        (zs.filter fun z => !R.le (R.key z) (R.key x)).countP p := by
      intro zs
      induction zs with
      | nil => rfl
      | cons z zs ih =>
          by_cases hz : R.le (R.key z) (R.key x) = true
          · simp only [List.countP_cons, hp z hz, hz, if_true, List.filter_cons, Bool.not_true,
              Bool.false_eq_true, if_false, ih]
            omega
          · simp only [List.countP_cons, hz, Bool.false_eq_true, if_false, List.filter_cons,
              Bool.not_false, if_true, ih]
            omega
    rw [hparts xs]
    exact congrArg (· + _) hm
  constructor
  · refine hsplit _ fun z hz => ?_
    by_contra hc
    have hyz : R.le (R.key y) (R.key z) = true := by simpa using hc
    rw [R.trans _ _ _ hyz hz] at hy
    exact absurd hy (by simp)
  · exact hsplit _ fun z hz => R.trans _ _ _ hz hxy

/-- A full page keeps ties together exactly when its last key's items all fit, and the
rest keeps ties together. -/
theorem noTieAcross_iff {x : α} (h : n ≤ xs.length)
    (hx : ((R.sort xs).take n).getLast? = some x) :
    R.NoTieAcross n xs ↔
      R.upto (R.key x) xs = n ∧ R.NoTieAcross n (R.after (R.key x) xs) := by
  obtain ⟨hmem, hbefore, hupto⟩ := last_key_counts h hx
  constructor
  · intro hties
    have hm : R.upto (R.key x) xs = n := by
      have hone := hties x hmem 1
      omega
    refine ⟨hm, fun y hy i hi => ?_⟩
    obtain ⟨hyx, hlater⟩ := List.mem_filter.mp hy
    have hlater : R.le (R.key y) (R.key x) = false := by simpa using hlater
    obtain ⟨hb, hu⟩ := counts_after hm hlater
    refine hties y hyx (i + 1) ?_
    rw [hb, hu, Nat.add_mul, Nat.one_mul]
    omega
  · intro hrest y hy i hi
    obtain ⟨hm, hties⟩ := hrest
    by_cases hyx : R.le (R.key y) (R.key x) = true
    · -- up to the last key only the first page ends
      have hle : R.upto (R.key y) xs ≤ R.upto (R.key x) xs := by
        refine List.countP_mono_left fun z _ hz => ?_
        exact R.trans _ _ _ hz hyx
      cases i with
      | zero => omega
      | succ i =>
          rw [Nat.add_mul] at hi
          omega
    · have hlater : R.le (R.key y) (R.key x) = false := by simpa using hyx
      obtain ⟨hb, hu⟩ := counts_after hm hlater
      rw [hb, hu] at hi
      cases i with
      | zero => omega
      | succ i =>
          refine hties y (List.mem_filter.mpr ⟨hy, by simp [hlater]⟩) i ?_
          rw [Nat.add_mul, Nat.one_mul] at hi
          omega

/-- **Reading is complete** exactly when no group of equal keys reaches over the end of a
page. -/
theorem pages_complete_iff {ps : List (List α)} (h : R.Pages n xs ps) :
    ps.flatten.length = xs.length ↔ R.NoTieAcross n xs := by
  induction h with
  | @last xs h =>
      rw [List.flatten_cons, List.flatten_nil, List.append_nil, List.length_take,
        (R.perm xs).length_eq]
      refine iff_of_true (by omega) fun x _ i hi => ?_
      have hupto := List.countP_le_length (p := fun y => R.le (R.key y) (R.key x)) (l := xs)
      have hlt : R.upto (R.key x) xs < n := Nat.lt_of_le_of_lt hupto h
      cases i with
      | zero => omega
      | succ i =>
          rw [Nat.add_mul] at hi
          omega
  | @more xs x ps h hx rest ih =>
      have hsub := (pages_subperm rest).length_le
      have hafter := length_after (R := R) (R.key x) xs
      obtain ⟨_, _, hupto⟩ := last_key_counts h hx
      rw [noTieAcross_iff h hx, ← ih, List.flatten_cons, List.length_append, List.length_take,
        (R.perm xs).length_eq, Nat.min_eq_left h]
      omega

/-- The pages together are in order. -/
theorem pages_sorted {ps : List (List α)} (h : R.Pages n xs ps) :
    ps.flatten.Pairwise fun a b => R.le (R.key a) (R.key b) = true := by
  induction h with
  | last h =>
      rw [List.flatten_cons, List.flatten_nil, List.append_nil]
      exact (R.sorted _).sublist (List.take_sublist _ _)
  | @more xs x ps h hx rest ih =>
      rw [List.flatten_cons, List.pairwise_append]
      have hpage := (R.sorted xs).sublist (List.take_sublist n _)
      refine ⟨hpage, ih, fun a ha b hb => ?_⟩
      -- the page's last key lies between the two
      obtain ⟨front, hfront⟩ := List.getLast?_eq_some_iff.mp hx
      have hax : R.le (R.key a) (R.key x) = true := by
        rw [hfront] at ha hpage
        rcases List.mem_append.mp ha with ha | ha
        · exact (List.pairwise_append.mp hpage).2.2 a ha x (List.mem_singleton.mpr rfl)
        · rw [List.mem_singleton.mp ha]; exact le_refl _
      have hlater := (List.mem_filter.mp ((pages_subperm rest).subset hb)).2
      exact R.trans _ _ _ hax (le_of_not (by simpa using hlater))

/-- Complete pages hold every item once. -/
theorem pages_perm {ps : List (List α)} (h : R.Pages n xs ps) (hties : R.NoTieAcross n xs) :
    ps.flatten.Perm xs :=
  (pages_subperm h).perm_of_length_le (Nat.le_of_eq ((pages_complete_iff h).mpr hties).symm)

/-- Keys that are all different leave no ties. -/
theorem noTieAcross_of_injective (hd : xs.Nodup) (hinj : ∀ x ∈ xs, ∀ y ∈ xs,
    R.le (R.key x) (R.key y) = true → R.le (R.key y) (R.key x) = true → x = y) :
    R.NoTieAcross n xs := by
  intro x hx i hi
  have hothers : ∀ zs : List α, (∀ z ∈ zs, z ∈ xs) → x ∉ zs →
      R.upto (R.key x) zs ≤ R.before (R.key x) zs := by
    intro zs hzs hno
    refine List.countP_mono_left fun z hz hle => ?_
    by_contra hc
    have hxz : R.le (R.key x) (R.key z) = true := by simpa using hc
    exact hno (hinj z (hzs z hz) x hx hle hxz ▸ hz)
  obtain ⟨front, rest, hsplit⟩ := List.append_of_mem hx
  have hnd := hd
  rw [hsplit, List.nodup_append, List.nodup_cons] at hnd
  have hfront := hothers front (fun z hz => by rw [hsplit]; simp [hz])
    fun hmem => hnd.2.2 x hmem x List.mem_cons_self rfl
  have hrest := hothers rest (fun z hz => by rw [hsplit]; simp [hz]) hnd.2.1.1
  have hupto : R.upto (R.key x) xs ≤ R.upto (R.key x) front + R.upto (R.key x) rest + 1 := by
    rw [hsplit, upto, List.countP_append, List.countP_cons]
    unfold upto
    split <;> omega
  have hbefore : R.before (R.key x) front + R.before (R.key x) rest ≤ R.before (R.key x) xs := by
    rw [hsplit]
    unfold before
    rw [List.countP_append, List.countP_cons]
    omega
  omega

/-! ## From the other end -/

/-- Reading downwards. -/
def reverse (R : Reading α κ) : Reading α κ where
  le a b := R.le b a
  total a b := R.total b a
  trans _ _ _ hab hbc := R.trans _ _ _ hbc hab
  key := R.key
  sort xs := (R.sort xs).reverse
  perm xs := (List.reverse_perm _).trans (R.perm xs)
  sorted xs := List.pairwise_reverse.mpr (R.sorted xs)

/-! ## While the list changes -/

section Changing

variable (R n)

/-- What is left to read: everything, or what comes after a key. -/
def left : Option κ → List α → List α
  | none, xs => xs
  | some k, xs => R.after k xs

/-- The page that is read next. -/
def page (start : Option κ) (xs : List α) : List α := (R.sort (R.left start xs)).take n

/-- Where to go on after a page; a page that is not full is the last one. -/
def next (p : List α) : Option κ := if p.length < n then none else p.getLast?.map R.key

/-- Reading page by page while the list changes: every page is read from what the list is
by then, from a key on and up to a key, or to the end. -/
inductive Follows : Option κ → List (List α) → List (List α) → Option κ → Prop where
  | one {start : Option κ} {xs : List α} :
      Follows start [xs] [R.page n start xs] (R.next n (R.page n start xs))
  | more {start stop : Option κ} {k : κ} {xs : List α} {xss ps : List (List α)}
      (hk : R.next n (R.page n start xs) = some k) (rest : Follows (some k) xss ps stop) :
      Follows start (xs :: xss) (R.page n start xs :: ps) stop

end Changing

section Changing

variable {start stop : Option κ} {xss ps : List (List α)}

end Changing

end Reading

end Keyset
