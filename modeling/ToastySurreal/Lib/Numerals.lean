import Mathlib.Data.List.Basic

/-!
# Decimal numerals

A number has many numerals and one that is written for it. A run of digits is the one
that is written just if it does not start with a zero that could be left out.
-/

namespace Numerals

/-- A run of digits. -/
structure Numeral (cs : List Char) : Prop where
  nonempty : cs ≠ []
  digits : ∀ c ∈ cs, c.isDigit = true

/-- The number of a run of digits. -/
def value (cs : List Char) : Nat := Nat.ofDigitChars 10 cs 0

/-- The digits that are written for a number. -/
def digits (n : Nat) : List Char := Nat.toDigits 10 n

theorem numeral_digits (n : Nat) : Numeral (digits n) where
  nonempty := Nat.toDigits_ne_nil
  digits _ hc := Nat.isDigit_of_mem_toDigits (by omega) (by omega) hc

theorem value_digits (n : Nat) : value (digits n) = n := Nat.ofDigitChars_ten_toDigits

theorem digitChar_of_isDigit {c : Char} (h : c.isDigit = true) :
    c.toNat - 48 < 10 ∧ Nat.digitChar (c.toNat - 48) = c := by
  have hrange : 48 ≤ c.toNat ∧ c.toNat ≤ 57 := by
    simpa [Char.isDigit, UInt32.le_iff_toNat_le] using h
  refine ⟨by omega, ?_⟩
  apply Char.toNat_inj.mp
  rw [Nat.toNat_digitChar_of_lt_ten (by omega)]
  omega

/-- Digits behind a number that is not zero are digits of it. -/
theorem digits_append : ∀ {cs : List Char} {n : Nat}, 0 < n → (∀ c ∈ cs, c.isDigit = true) →
    digits n ++ cs = digits (Nat.ofDigitChars 10 cs n)
  | [], n, _, _ => by simp
  | c :: cs, n, hn, h => by
      have hc := digitChar_of_isDigit (h c List.mem_cons_self)
      have hpos : 0 < 10 * n + (c.toNat - 48) := by omega
      have ih := digits_append hpos fun d hd => h d (List.mem_cons_of_mem c hd)
      have hone : digits n ++ [c] = digits (10 * n + (c.toNat - 48)) := by
        rw [digits, digits, ← Nat.toDigits_append_toDigits (by omega) hn hc.1,
          Nat.toDigits_of_lt_base hc.1, hc.2]
      rw [Nat.ofDigitChars_cons, ← List.singleton_append, ← List.append_assoc, hone]
      exact ih

theorem digits_zero : digits 0 = ['0'] := Nat.toDigits_zero 10

/-- Only the digits of zero start with one. -/
theorem eq_zero_of_head : ∀ {n : Nat} {cs : List Char}, digits n = '0' :: cs → n = 0 := by
  intro n
  induction n using Nat.strongRecOn with
  | ind n ih =>
    intro cs h
    by_cases hlt : n < 10
    · rw [digits, Nat.toDigits_of_lt_base hlt] at h
      injection h with h _
      have hnum := congrArg Char.toNat h
      rw [Nat.toNat_digitChar_of_lt_ten hlt] at hnum
      have hzero : ('0' : Char).toNat = 48 := rfl
      omega
    · have hbase : 10 ≤ n := by omega
      rw [digits, Nat.toDigits_of_base_le (by omega) hbase] at h
      have hfront := numeral_digits (n / 10)
      rw [digits] at hfront
      cases hd : Nat.toDigits 10 (n / 10) with
      | nil => exact absurd hd hfront.nonempty
      | cons d ds =>
          rw [hd, List.cons_append] at h
          injection h with h _
          subst h
          have hz := ih (n / 10) (by omega) hd
          omega

/-- **A numeral is the one that is written** just if no zero in front can be left out. -/
theorem digits_value_iff {cs : List Char} (h : Numeral cs) :
    digits (value cs) = cs ↔ ∀ ds, cs = '0' :: ds → ds = [] := by
  cases cs with
  | nil => exact absurd rfl h.nonempty
  | cons c cs =>
      have hc := digitChar_of_isDigit (h.digits c List.mem_cons_self)
      have hcs : ∀ d ∈ cs, d.isDigit = true := fun d hd => h.digits d (List.mem_cons_of_mem c hd)
      by_cases hz : c = '0'
      · subst hz
        constructor
        · intro he ds hds
          injection hds with _ hds; subst hds
          rw [eq_zero_of_head he, digits_zero] at he
          injection he with _ he
          exact he.symm
        · intro hall
          rw [hall cs rfl]
          exact digits_zero
      · have hpos : 0 < c.toNat - 48 := by
          have hlow : c.toNat - 48 ≠ 0 := by
            intro he
            have hchar := hc.2
            rw [he] at hchar
            exact hz hchar.symm
          omega
        have hfirst : digits (c.toNat - 48) = [c] := by
          rw [digits, Nat.toDigits_of_lt_base hc.1, hc.2]
        have hall : digits (value (c :: cs)) = c :: cs := by
          rw [value, Nat.ofDigitChars_cons, Nat.mul_zero, Nat.zero_add]
          exact (digits_append hpos hcs).symm.trans (by rw [hfirst]; rfl)
        exact iff_of_true hall fun ds hds => absurd (List.cons.inj hds).1 hz

theorem value_zero_cons (cs : List Char) : value ('0' :: cs) = value cs := by
  rw [value, Nat.ofDigitChars_cons]
  rfl

end Numerals
