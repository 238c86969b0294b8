/-
Bit patterns of floats, taken apart and put together.

A pattern made of a sign and a code has this sign and this code, every pattern is made of its own, and the codes of the
special values fit below the sign bit.
-/
import CallSurface.Proofs.Nearest

namespace CallSurface.FloatKind

variable (k : FloatKind)

theorem twoPow_bits : 2 ^ k.bits = 2 * k.signBit := by
  cases k <;> decide

theorem infinityCode_lt_signBit : k.infinityCode < k.signBit := by
  cases k <;> decide

theorem nanCode_lt_signBit : k.infinityCode + twoPow (k.fractionBits - 1) < k.signBit := by
  cases k <;> decide

variable {k} (neg : Bool) {c : ℕ}

theorem toNat_ofCode (hc : c < k.signBit) : (k.ofCode neg c).toNat = (if neg then k.signBit else 0) + c := by
  rw [ofCode, BitVec.toNat_ofNat, k.twoPow_bits]
  apply Nat.mod_eq_of_lt
  split_ifs <;> omega

theorem code_ofCode (hc : c < k.signBit) : k.code (k.ofCode neg c) = c := by
  rw [code, toNat_ofCode neg hc]
  cases neg with
  | false => simpa using Nat.mod_eq_of_lt hc
  | true => simpa using Nat.mod_eq_of_lt hc

theorem negative_ofCode (hc : c < k.signBit) : k.negative (k.ofCode neg c) = neg := by
  have hsign : 2 ^ (k.bits - 1) = k.signBit := rfl
  rw [negative, BitVec.msb_eq_decide, toNat_ofCode neg hc, hsign]
  cases neg with
  | false => simpa using hc
  | true => simp

/-- a pattern is made of its own sign and code -/
theorem ofCode_code (x : BitVec k.bits) : k.ofCode (k.negative x) (k.code x) = x := by
  have hcode : k.code x < k.signBit := Nat.mod_lt _ (twoPow_pos _)
  have hlt : x.toNat < 2 * k.signBit := k.twoPow_bits ▸ x.isLt
  have hsign : 2 ^ (k.bits - 1) = k.signBit := rfl
  apply BitVec.eq_of_toNat_eq
  rw [toNat_ofCode _ hcode, negative, BitVec.msb_eq_decide, hsign, code]
  by_cases hneg : k.signBit ≤ x.toNat
  · have hmod : x.toNat % k.signBit = x.toNat - k.signBit := by
      rw [Nat.mod_eq_sub_mod hneg, Nat.mod_eq_of_lt (by omega)]
    simp [hneg, hmod]
  · simp [hneg, Nat.mod_eq_of_lt (Nat.not_le.1 hneg)]

end CallSurface.FloatKind
