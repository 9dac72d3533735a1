import Mathlib.Data.List.Nodup
import Mathlib.Data.List.Pairwise

/-!
# Finite maps as lists of bindings

The objects the driver handles are ordered maps with distinct keys. Nothing it
does depends on the order, so a map is a list of bindings, read by its first
match. The three operations below keep the keys distinct, and each one is
described completely by what `lookup` reads afterwards.
-/

namespace AssocMap

variable {κ ν : Type} [DecidableEq κ]

/-- The value bound to a key. -/
def lookup (k : κ) : List (κ × ν) → Option ν
  | [] => none
  | (k', v) :: m => if k' = k then some v else lookup k m

/-- Bind a key, replacing an earlier binding in place. -/
def insert (k : κ) (v : ν) : List (κ × ν) → List (κ × ν)
  | [] => [(k, v)]
  | (k', v') :: m => if k' = k then (k, v) :: m else (k', v') :: insert k v m

/-- Drop every binding of a key. -/
def erase (k : κ) (m : List (κ × ν)) : List (κ × ν) :=
  m.filter (fun b => b.1 ≠ k)

@[simp] theorem lookup_nil (k : κ) : lookup k ([] : List (κ × ν)) = none := rfl

@[simp] theorem lookup_insert_self (k : κ) (v : ν) (m : List (κ × ν)) :
    lookup k (insert k v m) = some v := by
  induction m with
  | nil => simp [insert, lookup]
  | cons b m ih =>
      obtain ⟨k', v'⟩ := b
      by_cases h : k' = k <;> simp [insert, lookup, h, ih]

@[simp] theorem lookup_insert_ne {j k : κ} (h : j ≠ k) (v : ν) (m : List (κ × ν)) :
    lookup j (insert k v m) = lookup j m := by
  induction m with
  | nil => simp [insert, lookup, Ne.symm h]
  | cons b m ih =>
      obtain ⟨k', v'⟩ := b
      by_cases hk : k' = k
      · subst hk; simp [insert, lookup, Ne.symm h]
      · simp [insert, lookup, hk, ih]

@[simp] theorem lookup_erase_self (k : κ) (m : List (κ × ν)) : lookup k (erase k m) = none := by
  induction m with
  | nil => rfl
  | cons b m ih =>
      obtain ⟨k', v'⟩ := b
      by_cases hk : k' = k
      · subst hk; simpa [erase] using ih
      · simpa [erase, hk, lookup] using ih

@[simp] theorem lookup_erase_ne {j k : κ} (h : j ≠ k) (m : List (κ × ν)) :
    lookup j (erase k m) = lookup j m := by
  induction m with
  | nil => rfl
  | cons b m ih =>
      obtain ⟨k', v'⟩ := b
      by_cases hk : k' = k
      · subst hk
        simpa [erase, lookup, Ne.symm h] using ih
      · by_cases hj : k' = j
        · subst hj; simp [erase, hk, lookup]
        · simpa [erase, hk, lookup, hj] using ih

theorem lookup_append (k : κ) (m n : List (κ × ν)) :
    lookup k (m ++ n) = (lookup k m).or (lookup k n) := by
  induction m with
  | nil => simp
  | cons b m ih =>
      obtain ⟨k', v'⟩ := b
      by_cases hk : k' = k <;> simp [lookup, hk, ih]

/-- A key that is bound nowhere reads as absent. -/
theorem lookup_eq_none {k : κ} {m : List (κ × ν)} :
    lookup k m = none ↔ k ∉ m.map Prod.fst := by
  induction m with
  | nil => simp
  | cons b m ih =>
      obtain ⟨k', v'⟩ := b
      by_cases hk : k' = k
      · simp [lookup, hk]
      · simp [lookup, hk, ih, Ne.symm hk]

theorem mem_of_lookup {k : κ} {v : ν} {m : List (κ × ν)} (h : lookup k m = some v) :
    (k, v) ∈ m := by
  induction m with
  | nil => simp at h
  | cons b m ih =>
      obtain ⟨k', v'⟩ := b
      by_cases hk : k' = k
      · simp only [lookup, hk, if_true, Option.some.injEq] at h
        simp [hk, h]
      · simp only [lookup, hk, if_false] at h
        exact List.mem_cons_of_mem _ (ih h)

/-- With distinct keys, every binding is the one `lookup` reads. -/
theorem lookup_of_mem {k : κ} {v : ν} {m : List (κ × ν)}
    (hnd : (m.map Prod.fst).Nodup) (h : (k, v) ∈ m) : lookup k m = some v := by
  induction m with
  | nil => simp at h
  | cons b m ih =>
      obtain ⟨k', v'⟩ := b
      rw [List.map_cons, List.nodup_cons] at hnd
      rcases List.mem_cons.mp h with heq | hmem
      · obtain ⟨rfl, rfl⟩ := Prod.mk.inj heq
        simp [lookup]
      · have hne : k' ≠ k := by
          rintro rfl
          exact hnd.1 (List.mem_map.mpr ⟨_, hmem, rfl⟩)
        simp only [lookup, if_neg hne]
        exact ih hnd.2 hmem

/-- What is bound after an insert is the new binding or an old one. -/
theorem mem_insert {k : κ} {v : ν} {b : κ × ν} :
    ∀ {m : List (κ × ν)}, b ∈ insert k v m → b = (k, v) ∨ b ∈ m
  | [], h => .inl (List.mem_singleton.mp h)
  | (k', v') :: m, h => by
      rw [insert] at h
      split at h
      · exact (List.mem_cons.mp h).imp_right fun h => List.mem_cons_of_mem _ h
      · rcases List.mem_cons.mp h with rfl | h
        · exact .inr List.mem_cons_self
        · exact (mem_insert h).imp_right fun h => List.mem_cons_of_mem _ h

/-- A new key is bound at the end. -/
theorem insert_of_not_mem {k : κ} {v : ν} {m : List (κ × ν)} (h : k ∉ m.map Prod.fst) :
    insert k v m = m ++ [(k, v)] := by
  induction m with
  | nil => rfl
  | cons b m ih =>
      obtain ⟨k', v'⟩ := b
      simp only [List.map_cons, List.mem_cons, not_or] at h
      rw [insert, if_neg (Ne.symm h.1), ih h.2]
      rfl

theorem mem_keys_insert {j k : κ} {v : ν} {m : List (κ × ν)} :
    j ∈ (insert k v m).map Prod.fst ↔ j = k ∨ j ∈ m.map Prod.fst := by
  induction m with
  | nil => simp [insert]
  | cons b m ih =>
      obtain ⟨k', v'⟩ := b
      by_cases hk : k' = k
      · subst hk; simp [insert]
      · simp only [insert, if_neg hk, List.map_cons, List.mem_cons, ih]
        tauto

/-- Binding a key keeps the keys distinct. -/
theorem nodup_insert {k : κ} {v : ν} {m : List (κ × ν)} (h : (m.map Prod.fst).Nodup) :
    ((insert k v m).map Prod.fst).Nodup := by
  induction m with
  | nil => simp [insert]
  | cons b m ih =>
      obtain ⟨k', v'⟩ := b
      rw [List.map_cons, List.nodup_cons] at h
      by_cases hk : k' = k
      · subst hk; simpa [insert] using h
      · simp only [insert, if_neg hk, List.map_cons, List.nodup_cons, mem_keys_insert]
        exact ⟨fun hm => hm.elim hk h.1, ih h.2⟩

/-- The bindings of some of the keys. -/
def part (p : κ → Bool) (m : List (κ × ν)) : List (κ × ν) := m.filter fun b => p b.1

section Part

variable {p : κ → Bool} {k : κ}

omit [DecidableEq κ] in
theorem part_cons_of_pos {k : κ} (hk : p k = true) (v : ν) (m : List (κ × ν)) :
    part p ((k, v) :: m) = (k, v) :: part p m := List.filter_cons_of_pos hk

omit [DecidableEq κ] in
theorem part_cons_of_neg {k : κ} (hk : ¬ p k = true) (v : ν) (m : List (κ × ν)) :
    part p ((k, v) :: m) = part p m := List.filter_cons_of_neg hk

omit [DecidableEq κ] in
theorem part_part (q : κ → Bool) (m : List (κ × ν)) :
    part q (part p m) = part (fun k => p k && q k) m := by
  rw [part, part, part, List.filter_filter]
  exact List.filter_congr fun b _ => Bool.and_comm _ _

omit [DecidableEq κ] in
theorem part_true (m : List (κ × ν)) : part (fun _ => true) m = m :=
  List.filter_eq_self.mpr fun _ _ => rfl

/-- Nothing is bound that is left out. -/
theorem lookup_part_of_neg (hk : ¬ p k = true) (m : List (κ × ν)) : lookup k (part p m) = none := by
  rw [lookup_eq_none]
  intro hmem
  obtain ⟨b, hb, rfl⟩ := List.mem_map.mp hmem
  exact hk (List.mem_filter.mp hb).2

theorem lookup_part (hk : p k = true) (m : List (κ × ν)) : lookup k (part p m) = lookup k m := by
  induction m with
  | nil => rfl
  | cons b m ih =>
      obtain ⟨k', v'⟩ := b
      by_cases hb : k' = k
      · subst hb
        rw [part_cons_of_pos hk, lookup, lookup, if_pos rfl, if_pos rfl]
      · by_cases hp : p k' = true
        · rw [part_cons_of_pos hp, lookup, lookup, if_neg hb, if_neg hb, ih]
        · rw [part_cons_of_neg hp, lookup, if_neg hb, ih]

theorem part_insert (hk : p k = true) (v : ν) (m : List (κ × ν)) :
    part p (insert k v m) = insert k v (part p m) := by
  induction m with
  | nil => exact part_cons_of_pos hk v []
  | cons b m ih =>
      obtain ⟨k', v'⟩ := b
      by_cases hb : k' = k
      · subst hb
        rw [insert, if_pos rfl, part_cons_of_pos hk, part_cons_of_pos hk, insert, if_pos rfl]
      · by_cases hp : p k' = true
        · rw [insert, if_neg hb, part_cons_of_pos hp, part_cons_of_pos hp, insert, if_neg hb, ih]
        · rw [insert, if_neg hb, part_cons_of_neg hp, part_cons_of_neg hp, ih]

/-- Binding another key leaves the part as it is. -/
theorem part_insert_of_neg (hk : ¬ p k = true) (v : ν) (m : List (κ × ν)) :
    part p (insert k v m) = part p m := by
  induction m with
  | nil => exact part_cons_of_neg hk v []
  | cons b m ih =>
      obtain ⟨k', v'⟩ := b
      by_cases hb : k' = k
      · subst hb
        rw [insert, if_pos rfl, part_cons_of_neg hk, part_cons_of_neg hk]
      · by_cases hp : p k' = true
        · rw [insert, if_neg hb, part_cons_of_pos hp, part_cons_of_pos hp, ih]
        · rw [insert, if_neg hb, part_cons_of_neg hp, part_cons_of_neg hp, ih]

theorem part_erase (m : List (κ × ν)) : part p (erase k m) = erase k (part p m) := by
  rw [part, part, erase, erase, List.filter_filter, List.filter_filter]
  exact List.filter_congr fun b _ => Bool.and_comm ..

/-- So does dropping one. -/
theorem part_erase_of_neg (hk : ¬ p k = true) (m : List (κ × ν)) :
    part p (erase k m) = part p m := by
  rw [part, part, erase, List.filter_filter]
  refine List.filter_congr fun b _ => ?_
  by_cases hb : b.1 = k
  · rw [hb, Bool.eq_false_iff.mpr hk, Bool.false_and]
  · rw [decide_eq_true hb, Bool.and_true]

end Part

end AssocMap
