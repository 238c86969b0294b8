/-
Decimal notation is read back as the number it was made from.

`ofDigits_digits`: the digits of a number denote it. `ofDigits_fixed`: so do the digits before and behind the point of
fixed notation, as a whole number of units of the last place.
-/
import CallSurface.Proofs.ByteClass

namespace CallSurface

theorem tenPow_succ (n : ℕ) : tenPow (n + 1) = 10 * tenPow n :=
  Nat.pow_succ'

theorem tenPow_pos (n : ℕ) : 0 < tenPow n :=
  Nat.pow_pos (by decide)

namespace Decimal

theorem toNat_digitByte {d : ℕ} (h : d < 10) : (digitByte d).toNat = 48 + d := by
  rw [digitByte, UInt8.toNat_ofNat']
  omega

theorem digitValue_digitByte {d : ℕ} (h : d < 10) : digitValue (digitByte d) = d := by
  rw [digitValue, toNat_digitByte h]
  omega

theorem isDigit_digitByte {d : ℕ} (h : d < 10) : isDigit (digitByte d) = true := by
  rw [isDigit_iff, toNat_digitByte h]
  omega

@[simp] theorem ofDigits_nil : ofDigits [] = 0 :=
  rfl

theorem ofDigits_append_singleton (ds : Bytes) (b : UInt8) :
    ofDigits (ds ++ [b]) = 10 * ofDigits ds + digitValue b := by
  simp [ofDigits]

/-! ## Digits of a number -/

theorem digits_of_lt {n : ℕ} (h : n < 10) : digits n = [digitByte n] := by
  rw [digits, if_pos h]

theorem digits_of_le {n : ℕ} (h : 10 ≤ n) : digits n = digits (n / 10) ++ [digitByte (n % 10)] := by
  rw [digits, if_neg (by omega)]

theorem digits_ne_nil (n : ℕ) : digits n ≠ [] := by
  rw [digits]
  split_ifs <;> simp

theorem all_isDigit_digits (n : ℕ) : (digits n).all isDigit = true := by
  induction n using Nat.strong_induction_on with
  | _ n ih =>
    by_cases h : n < 10
    · rw [digits_of_lt h]
      simpa using isDigit_digitByte h
    · rw [digits_of_le (by omega), List.all_append, ih (n / 10) (by omega)]
      simpa using isDigit_digitByte (Nat.mod_lt n (by decide))

theorem ofDigits_digits (n : ℕ) : ofDigits (digits n) = n := by
  induction n using Nat.strong_induction_on with
  | _ n ih =>
    by_cases h : n < 10
    · rw [digits_of_lt h]
      exact (ofDigits_append_singleton [] _).trans (by simp [digitValue_digitByte h])
    · rw [digits_of_le (by omega), ofDigits_append_singleton, ih (n / 10) (by omega),
        digitValue_digitByte (Nat.mod_lt n (by decide))]
      omega

/-- only zero is written with a zero in front -/
theorem eq_zero_of_head?_digits {n : ℕ} (h : (digits n).head? = some 48) : n = 0 := by
  induction n using Nat.strong_induction_on with
  | _ n ih =>
    by_cases hn : n < 10
    · rw [digits_of_lt hn, List.head?_cons, Option.some_inj] at h
      have hbyte := toNat_digitByte hn
      rw [h] at hbyte
      exact (Nat.add_left_cancel hbyte).symm
    · -- the first digit of the number is that of its tenth, which is not zero
      rw [digits_of_le (by omega), List.head?_append_of_ne_nil _ (digits_ne_nil _)] at h
      have htenth := ih (n / 10) (by omega) h
      omega

/-! ## Fixed notation -/

theorem length_lastDigits (places n : ℕ) : (lastDigits places n).length = places := by
  induction places generalizing n with
  | zero => rfl
  | succ places ih => rw [lastDigits, List.length_append, ih]; rfl

theorem all_isDigit_lastDigits (places n : ℕ) : (lastDigits places n).all isDigit = true := by
  induction places generalizing n with
  | zero => rfl
  | succ places ih =>
    rw [lastDigits, List.all_append, ih]
    simpa using isDigit_digitByte (Nat.mod_lt n (by decide))

theorem ofDigits_append_lastDigits (ds : Bytes) (places n : ℕ) :
    ofDigits (ds ++ lastDigits places n) = ofDigits ds * tenPow places + n % tenPow places := by
  induction places generalizing n with
  | zero => simp [lastDigits, tenPow, Nat.mod_one]
  | succ places ih =>
    have hmod := Nat.mod_mul (x := n) (a := 10) (b := tenPow places)
    rw [lastDigits, ← List.append_assoc, ofDigits_append_singleton, ih, tenPow_succ,
      digitValue_digitByte (Nat.mod_lt n (by decide)), hmod]
    ring

/-- the digits of fixed notation, without the point, denote the number of units -/
theorem ofDigits_fixed (places n : ℕ) : ofDigits (digits (n / tenPow places) ++ lastDigits places n) = n := by
  rw [ofDigits_append_lastDigits, ofDigits_digits]
  exact Nat.div_add_mod' n (tenPow places)

end Decimal

end CallSurface
