import ToastySurreal.Lib.AssocMap
import Mathlib.Logic.Function.Basic

/-!
# Catalogs

A catalog says what is defined under a name. Removing a name that is not defined
is an error, and so is defining one that is: a script of removals and definitions
either runs through or stops. `rebuild` is the one way such a script turns a
catalog into another: every entry the two do not share is removed or defined
once, and every entry they share is left alone or replaced by itself.
-/

namespace Catalog

variable {κ ν : Type} [DecidableEq κ]

def remove (k : κ) (c : κ → Option ν) : Option (κ → Option ν) :=
  if (c k).isSome then some (Function.update c k none) else none

def define (k : κ) (v : ν) (c : κ → Option ν) : Option (κ → Option ν) :=
  if (c k).isSome then none else some (Function.update c k (some v))

def removeAll : List κ → (κ → Option ν) → Option (κ → Option ν)
  | [], c => some c
  | k :: ks, c => (remove k c).bind (removeAll ks)

def defineAll : List (κ × ν) → (κ → Option ν) → Option (κ → Option ν)
  | [], c => some c
  | e :: es, c => (define e.1 e.2 c).bind (defineAll es)

/-- The catalog with exactly these entries. -/
def ofList (es : List (κ × ν)) : κ → Option ν := fun k => AssocMap.lookup k es

theorem ofList_eq_some {es : List (κ × ν)} (hn : (es.map Prod.fst).Nodup) {k : κ} {v : ν} :
    ofList es k = some v ↔ (k, v) ∈ es :=
  ⟨AssocMap.mem_of_lookup, AssocMap.lookup_of_mem hn⟩

/-- Names that are defined, each once, can all be removed. -/
theorem removeAll_eq : ∀ {ks : List κ} {c : κ → Option ν}, ks.Nodup → (∀ k ∈ ks, (c k).isSome) →
    removeAll ks c = some fun k => if k ∈ ks then none else c k
  | [], c, _, _ => by simp [removeAll]
  | j :: ks, c, hn, hd => by
      obtain ⟨hj, hks⟩ := List.nodup_cons.mp hn
      have hrest : ∀ k ∈ ks, (Function.update c j none k).isSome := by
        intro k hk
        have hne : k ≠ j := fun he => hj (he ▸ hk)
        rw [Function.update_of_ne hne]
        exact hd k (List.mem_cons_of_mem _ hk)
      rw [removeAll, remove, if_pos (hd j (List.mem_cons_self ..)), Option.bind_some,
        removeAll_eq hks hrest]
      congr 1
      funext k
      by_cases hkj : k = j
      · subst hkj; simp
      · simp [hkj]

/-- Names that are not defined, each once, can all be defined. -/
theorem defineAll_eq : ∀ {es : List (κ × ν)} {c : κ → Option ν}, (es.map Prod.fst).Nodup →
    (∀ e ∈ es, c e.1 = none) →
    defineAll es c = some fun k => (AssocMap.lookup k es).or (c k)
  | [], c, _, _ => by simp [defineAll]
  | (j, v) :: es, c, hn, hd => by
      obtain ⟨hj, hes⟩ := List.nodup_cons.mp hn
      have hrest : ∀ e ∈ es, Function.update c j (some v) e.1 = none := by
        intro e he
        have hne : e.1 ≠ j := fun heq => hj (List.mem_map.mpr ⟨e, he, heq⟩)
        rw [Function.update_of_ne hne]
        exact hd e (List.mem_cons_of_mem _ he)
      have hc : c j = none := hd _ (List.mem_cons_self ..)
      rw [defineAll, define, hc, Option.isSome_none, if_neg (by simp), Option.bind_some,
        defineAll_eq hes hrest]
      congr 1
      funext k
      by_cases hkj : k = j
      · subst hkj
        have hnone : AssocMap.lookup k es = none := AssocMap.lookup_eq_none.mpr hj
        simp [AssocMap.lookup, hnone]
      · simp [AssocMap.lookup, Ne.symm hkj, hkj]

/-- The definitions of a catalog build it from nothing. -/
theorem defineAll_ofList {es : List (κ × ν)} (hn : (es.map Prod.fst).Nodup) :
    defineAll es (fun _ => none) = some (ofList es) := by
  rw [defineAll_eq hn (fun _ _ => rfl)]
  congr 1
  funext k
  simp [ofList]

/-- **Rebuilding.** Remove some names of `previous`, define some entries of `next`.
If the entries left standing are the entries of `next` that are not defined anew,
the script runs through and ends in the catalog of `next`. -/
theorem rebuild {previous next defined : List (κ × ν)} {removed : List κ}
    (hp : (previous.map Prod.fst).Nodup) (hn : (next.map Prod.fst).Nodup)
    (hr : removed.Nodup) (hrm : ∀ k ∈ removed, k ∈ previous.map Prod.fst)
    (hd : (defined.map Prod.fst).Nodup) (hdm : ∀ e ∈ defined, e ∈ next)
    (hkeep : ∀ k v, ((k, v) ∈ previous ∧ k ∉ removed) ↔ ((k, v) ∈ next ∧ (k, v) ∉ defined)) :
    (removeAll removed (ofList previous)).bind (defineAll defined) = some (ofList next) := by
  have hstart : ∀ k ∈ removed, (ofList previous k).isSome := by
    intro k hk
    obtain ⟨e, he, rfl⟩ := List.mem_map.mp (hrm k hk)
    rw [(ofList_eq_some hp).mpr he]; rfl
  have hfree : ∀ e ∈ defined, (if e.1 ∈ removed then none else ofList previous e.1) = none := by
    intro e he
    split
    · rfl
    · rename_i hk
      refine Option.eq_none_iff_forall_not_mem.mpr fun v hv => ?_
      -- the entry still standing under the name would be one of `next`, so the same
      obtain ⟨hmem, hno⟩ := (hkeep e.1 v).mp ⟨(ofList_eq_some hp).mp hv, hk⟩
      have hsame : e = (e.1, v) := List.inj_on_of_nodup_map hn (hdm e he) hmem rfl
      exact hno (hsame ▸ he)
  rw [removeAll_eq hr hstart, Option.bind_some, defineAll_eq hd hfree]
  congr 1
  funext k
  refine Option.ext fun v => ?_
  rw [ofList_eq_some hn]
  constructor
  · intro h
    rcases Option.or_eq_some_iff.mp h with h | ⟨_, h⟩
    · exact hdm _ (AssocMap.mem_of_lookup h)
    · split at h
      · exact absurd h (by simp)
      · rename_i hk
        exact ((hkeep k v).mp ⟨(ofList_eq_some hp).mp h, hk⟩).1
  · intro h
    by_cases hdef : (k, v) ∈ defined
    · rw [AssocMap.lookup_of_mem hd hdef]; rfl
    · obtain ⟨hmem, hk⟩ := (hkeep k v).mpr ⟨h, hdef⟩
      have hnone : AssocMap.lookup k defined = none := by
        refine AssocMap.lookup_eq_none.mpr fun hin => ?_
        obtain ⟨e, he, hek⟩ := List.mem_map.mp hin
        have hsame : e = (k, v) := List.inj_on_of_nodup_map hn (hdm e he) h hek
        exact hdef (hsame ▸ he)
      rw [hnone, if_neg hk, Option.none_or, (ofList_eq_some hp).mpr hmem]

/-! ## Name by name -/

section Changes

variable {σ : Type} (name : σ → κ) (act : σ → Option ν → Option (Option ν))

/-- A change of the entry under one name, or its refusal. -/
def change (s : σ) (c : κ → Option ν) : Option (κ → Option ν) :=
  (act s (c (name s))).map (Function.update c (name s))

def changeAll : List σ → (κ → Option ν) → Option (κ → Option ν)
  | [], c => some c
  | s :: ss, c => (change name act s c).bind (changeAll ss)

/-- The changes of one entry. -/
def actAll : List σ → Option ν → Option (Option ν)
  | [], e => some e
  | s :: ss, e => (act s e).bind (actAll ss)

/-- **A script runs through exactly if it does name by name**, and to the same entries. -/
theorem changeAll_iff {ss : List σ} {c c' : κ → Option ν} : changeAll name act ss c = some c' ↔
    ∀ k, actAll act (ss.filter fun s => name s = k) (c k) = some (c' k) := by
  induction ss generalizing c with
  | nil => simp [changeAll, actAll, funext_iff]
  | cons s ss ih =>
      constructor
      · intro h k
        obtain ⟨c₁, hs, hss⟩ := Option.bind_eq_some_iff.mp h
        obtain ⟨e, he, rfl⟩ := Option.map_eq_some_iff.mp hs
        have hk := ih.mp hss k
        by_cases hname : name s = k
        · subst hname
          rw [Function.update_self] at hk
          rw [List.filter_cons_of_pos (by simp), actAll, he, Option.bind_some, hk]
        · rw [Function.update_of_ne (Ne.symm hname)] at hk
          rw [List.filter_cons_of_neg (by simpa using hname), hk]
      · intro h
        have hself := h (name s)
        rw [List.filter_cons_of_pos (by simp), actAll] at hself
        obtain ⟨e, he, hrest⟩ := Option.bind_eq_some_iff.mp hself
        rw [changeAll, change, he, Option.map_some, Option.bind_some]
        refine ih.mpr fun k => ?_
        by_cases hname : k = name s
        · rw [hname, Function.update_self, hrest]
        · rw [Function.update_of_ne hname, ← h k,
            List.filter_cons_of_neg (by simpa using Ne.symm hname)]

end Changes

end Catalog
