import Mathlib.Data.List.Forall2
import Mathlib.Data.List.Infix
import Mathlib.Data.List.Perm.Subperm

/-!
# Lists matched item by item

What `List.Forall₂` says about the items of the two lists, and how to read a list
whose items all come from somewhere as the image of a list. Then where a part can
occur in a list that is put together from known and unknown pieces: `infix_split`
and `infix_append` confine it to the pieces.
-/

namespace Lists

variable {α β : Type}

theorem forall₂_mem_left {R : α → β → Prop} : ∀ {as : List α} {bs : List β},
    List.Forall₂ R as bs → ∀ {a : α}, a ∈ as → ∃ b ∈ bs, R a b
  | _, _, .nil, a, ha => absurd ha List.not_mem_nil
  | _, _, .cons hab h, a, ha => by
      rcases List.mem_cons.mp ha with rfl | ha
      · exact ⟨_, List.mem_cons_self .., hab⟩
      · obtain ⟨b, hb, hr⟩ := forall₂_mem_left h ha
        exact ⟨b, List.mem_cons_of_mem _ hb, hr⟩

theorem forall₂_mem_right {R : α → β → Prop} {as : List α} {bs : List β}
    (h : List.Forall₂ R as bs) {b : β} (hb : b ∈ bs) : ∃ a ∈ as, R a b :=
  forall₂_mem_left (R := flip R) h.flip hb

/-- Two relations with one partner. -/
theorem forall₂_both {R S : α → β → Prop} : ∀ {as : List α} {bs : List β},
    List.Forall₂ R as bs → List.Forall₂ S as bs → ∀ {a : α}, a ∈ as → ∃ b, R a b ∧ S a b
  | _, _, .nil, _, a, ha => absurd ha List.not_mem_nil
  | _, _, .cons hr h, .cons hs h', a, ha => by
      rcases List.mem_cons.mp ha with rfl | ha
      · exact ⟨_, hr, hs⟩
      · exact forall₂_both h h' ha

/-- Weakening the relation, knowing where the items come from. -/
theorem forall₂_imp_mem {R S : α → β → Prop} : ∀ {as : List α} {bs : List β},
    List.Forall₂ R as bs → (∀ a ∈ as, ∀ b ∈ bs, R a b → S a b) → List.Forall₂ S as bs
  | _, _, .nil, _ => .nil
  | _, _, .cons hab h, hall => by
      refine .cons (hall _ (List.mem_cons_self ..) _ (List.mem_cons_self ..) hab) ?_
      exact forall₂_imp_mem h fun a ha b hb =>
        hall a (List.mem_cons_of_mem _ ha) b (List.mem_cons_of_mem _ hb)

/-- The partners of a list with one item more. -/
theorem forall₂_snoc {R : α → β → Prop} {as : List α} {a : α} {bs : List β}
    (h : List.Forall₂ R (as ++ [a]) bs) : ∃ bs' b, bs = bs' ++ [b] ∧ List.Forall₂ R as bs' ∧
    R a b := by
  induction as generalizing bs with
  | nil =>
      obtain ⟨b, rest, hab, hrest, rfl⟩ := List.forall₂_cons_left_iff.mp h
      cases hrest
      exact ⟨[], b, rfl, .nil, hab⟩
  | cons c as ih =>
      obtain ⟨d, rest, hcd, hrest, rfl⟩ := List.forall₂_cons_left_iff.mp h
      obtain ⟨bs', b, rfl, has, hab⟩ := ih hrest
      exact ⟨d :: bs', b, rfl, .cons hcd has, hab⟩

/-- Partners with one image have one list of images. -/
theorem map_eq_of_forall₂ {γ : Type} {R : α → β → Prop} {f : α → γ} {g : β → γ} :
    ∀ {as : List α} {bs : List β},
    List.Forall₂ R as bs → (∀ a ∈ as, ∀ b, R a b → g b = f a) → bs.map g = as.map f
  | _, _, .nil, _ => rfl
  | _, _, .cons hab h, hall => by
      rw [List.map_cons, List.map_cons, hall _ (List.mem_cons_self ..) _ hab,
        map_eq_of_forall₂ h fun a ha => hall a (List.mem_cons_of_mem _ ha)]

/-- And so it is where some have none. -/
theorem filterMap_eq_of_forall₂ {γ : Type} {R : α → β → Prop} {f : α → Option γ} {g : β → Option γ}
    {as : List α} {bs : List β} (h : List.Forall₂ R as bs)
    (hall : ∀ a ∈ as, ∀ b, R a b → g b = f a) : bs.filterMap g = as.filterMap f := by
  have hmap := congrArg (List.filterMap id) (map_eq_of_forall₂ h hall)
  rwa [List.filterMap_map, List.filterMap_map, Function.id_comp, Function.id_comp] at hmap

/-- A list of images is the image of a list. -/
theorem exists_map_of_forall_mem {f : α → β} {P : α → Prop} : ∀ {bs : List β},
    (∀ b ∈ bs, ∃ a, P a ∧ b = f a) → ∃ as : List α, bs = as.map f ∧ ∀ a ∈ as, P a
  | [], _ => ⟨[], rfl, by simp⟩
  | b :: bs, h => by
      obtain ⟨a, ha, rfl⟩ := h b (List.mem_cons_self ..)
      obtain ⟨as, rfl, has⟩ := exists_map_of_forall_mem fun c hc => h c (List.mem_cons_of_mem _ hc)
      exact ⟨a :: as, rfl, by simpa using ⟨ha, has⟩⟩

/-- Partners for every item make a list of partners. -/
theorem exists_forall₂ {R : α → β → Prop} : ∀ {as : List α}, (∀ a ∈ as, ∃ b, R a b) →
    ∃ bs, List.Forall₂ R as bs
  | [], _ => ⟨[], .nil⟩
  | a :: as, h => by
      obtain ⟨b, hb⟩ := h a (List.mem_cons_self ..)
      obtain ⟨bs, hbs⟩ := exists_forall₂ fun c hc => h c (List.mem_cons_of_mem _ hc)
      exact ⟨b :: bs, .cons hb hbs⟩

/-! ## Occurrences -/

/-- **A part without the separator** occurs on one side of it. -/
theorem infix_split {p : List α} {c : α} (hc : c ∉ p) : ∀ {xs ys : List α},
    p <:+: xs ++ c :: ys ↔ p <:+: xs ∨ p <:+: ys
  | [], ys => by
      rw [List.nil_append, List.infix_cons_iff]
      constructor
      · intro h
        rcases h with ⟨t, h⟩ | h
        · cases p with
          | nil => exact .inl List.infix_rfl
          | cons a p =>
              injection h with hac _
              exact absurd (hac ▸ List.mem_cons_self ..) hc
        · exact .inr h
      · intro h
        rcases h with h | h
        · rw [List.infix_nil.mp h]
          exact .inr (List.nil_infix ..)
        · exact .inr h
  | x :: xs, ys => by
      rw [List.cons_append, List.infix_cons_iff, infix_split hc, List.infix_cons_iff, or_assoc]
      refine or_congr_left' fun _ =>
        ⟨fun h => ?_, fun h => h.trans (List.prefix_append (x :: xs) _)⟩
      -- an occurrence at the front that reached the separator would hold it
      have hxs : x :: xs <+: x :: (xs ++ c :: ys) := List.prefix_append (x :: xs) _
      rcases List.prefix_or_prefix_of_prefix h hxs with h' | h'
      · exact h'
      · obtain ⟨t, rfl⟩ := h'
        obtain ⟨u, h⟩ := h
        rw [List.append_assoc, List.cons_append, List.cons.injEq] at h
        have h := List.append_cancel_left h.2
        cases t with
        | nil => rw [List.append_nil]
        | cons a t =>
            injection h with hac _
            exact absurd (by simp [hac]) hc

/-- **A part that fits nowhere into a known piece**, not even with its front, occurs behind it. -/
theorem infix_append {p : List α} : ∀ {f v : List α},
    (∀ t ∈ f.tails, t ≠ [] → ¬ t <+: p ∧ ¬ p <+: t) → (p <:+: f ++ v ↔ p <:+: v)
  | [], _, _ => Iff.rfl
  | x :: f, v, hf => by
      have hrest : p <:+: f ++ v ↔ p <:+: v := infix_append fun t ht =>
        hf t ((List.mem_tails _ _).mpr (((List.mem_tails _ _).mp ht).trans (List.suffix_cons ..)))
      rw [List.cons_append, List.infix_cons_iff, hrest]
      refine or_iff_right fun h => ?_
      obtain ⟨hno, hno'⟩ := hf (x :: f) ((List.mem_tails _ _).mpr List.suffix_rfl) (by simp)
      rcases List.prefix_or_prefix_of_prefix h (List.prefix_append (x :: f) v) with h' | h'
      · exact hno' h'
      · exact hno h'

/-- Choosing by a name that the parts share is choosing the parts. -/
theorem filter_flatMap_name {γ : Type} [DecidableEq γ] {f : α → List β} {name : α → γ}
    {nameOf : β → γ} (k : γ) : ∀ {l : List α}, (∀ a ∈ l, ∀ b ∈ f a, nameOf b = name a) →
    (l.flatMap f).filter (fun b => nameOf b = k) = (l.filter fun a => name a = k).flatMap f
  | [], _ => rfl
  | a :: l, h => by
      have hrest := filter_flatMap_name k fun a' ha' => h a' (List.mem_cons_of_mem _ ha')
      have ha := h a List.mem_cons_self
      rw [List.flatMap_cons, List.filter_append, hrest]
      by_cases hk : name a = k
      · rw [List.filter_cons_of_pos (by simpa using hk), List.flatMap_cons,
          List.filter_eq_self.mpr fun b hb => by simpa [ha b hb] using hk]
      · rw [List.filter_cons_of_neg (by simpa using hk),
          List.filter_eq_nil_iff.mpr fun b hb => by simpa [ha b hb] using hk]
        rfl

theorem filter_eq_singleton {p : α → Bool} {l : List α} {a : α} (hn : l.Nodup) (ha : a ∈ l)
    (hp : p a = true) (h : ∀ b ∈ l, p b = true → b = a) : l.filter p = [a] := by
  refine List.perm_singleton.mp ((List.perm_ext_iff_of_nodup (hn.filter _) (List.nodup_cons.mpr
    ⟨List.not_mem_nil, List.nodup_nil⟩)).mpr fun b => ?_)
  rw [List.mem_filter, List.mem_singleton]
  constructor
  · exact fun hb => h b hb.1 hb.2
  · rintro rfl
    exact ⟨ha, hp⟩

/-- A prefix that has all of the first part of a list and not the item after it. -/
theorem eq_of_prefix_of_mem {l as bs : List α} {a : α} (h : l <+: as ++ a :: bs)
    (hsub : ∀ x ∈ as, x ∈ l) (hn : as.Nodup) (ha : a ∉ l) : l = as := by
  rcases List.prefix_or_prefix_of_prefix h (List.prefix_append as (a :: bs)) with hl | hl
  · exact hl.eq_of_length_le (hn.subperm hsub).length_le
  · obtain ⟨t, rfl⟩ := hl
    have ht : t <+: a :: bs := (List.prefix_append_right_inj as).mp h
    cases t with
    | nil => exact List.append_nil as
    | cons b t =>
        obtain ⟨rfl, -⟩ := List.cons_prefix_cons.mp ht
        exact absurd (List.mem_append_right as List.mem_cons_self) ha

end Lists
