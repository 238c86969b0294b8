/-
Integers of a kind, as residues and as a range.

A kind has exactly one value for every residue modulo `2 ^ bits`, and its values are the integers from `minValue` to
`maxValue`.
- `wrap_eq_wrap_iff`, `value_wrap_modEq`: `wrap` keeps the residue and forgets everything else.
- `value_wrap_of_modEq`, `value_wrap`: of all integers with one residue, the value is the one inside the range.
- `shiftCount_eq`: a shift goes as far as the residue of its count modulo the width.
- `embeds_iff`: every value of one kind is a value of another exactly if the one range lies inside the other.
-/
import CallSurface.Cast
import Mathlib.Data.Int.ModEq
import Mathlib.Tactic

namespace CallSurface.IntKind

variable (k : IntKind)

/-! ## Range -/

theorem value_bounds (x : BitVec k.bits) : k.minValue ≤ k.value x ∧ k.value x ≤ k.maxValue := by
  by_cases hs : k.signed = true
  · have hlow := x.le_toInt
    have hhigh := x.toInt_le
    simp only [value, minValue, maxValue, hs, if_true, twoPow]
    exact ⟨by exact_mod_cast hlow, by exact_mod_cast hhigh⟩
  · have hlt := x.isLt
    simp only [value, minValue, maxValue, hs, Bool.false_eq_true, if_false, twoPow]
    have hcast : ((x.toNat : Nat) : Int) < ((2 ^ k.bits : Nat) : Int) := by exact_mod_cast hlt
    exact ⟨Int.natCast_nonneg _, Int.le_sub_one_of_lt hcast⟩

/-- the range has room for every residue once -/
theorem maxValue_eq : k.maxValue = k.minValue + 2 ^ k.bits - 1 := by
  cases k <;> decide

theorem minValue_nonpos : k.minValue ≤ 0 := by
  cases k <;> decide

theorem maxValue_pos : 0 < k.maxValue := by
  cases k <;> decide

/-! ## Residues -/

theorem wrap_value (x : BitVec k.bits) : k.wrap (k.value x) = x := by
  unfold wrap value
  split_ifs
  · exact BitVec.ofInt_toInt
  · simp

variable {k}

theorem value_injective : Function.Injective k.value := by
  intro x y h
  rw [← k.wrap_value x, ← k.wrap_value y, h]

/-- two integers have the same bits exactly if they have the same residue -/
theorem wrap_eq_wrap_iff {m n : ℤ} : k.wrap m = k.wrap n ↔ m ≡ n [ZMOD 2 ^ k.bits] := by
  have hpos : (0 : ℤ) < 2 ^ k.bits := by positivity
  have hm := Int.emod_nonneg m hpos.ne'
  have hn := Int.emod_nonneg n hpos.ne'
  unfold wrap Int.ModEq
  rw [← BitVec.toNat_inj, BitVec.toNat_ofInt, BitVec.toNat_ofInt]
  push_cast
  omega

variable (k)

theorem value_wrap_modEq (n : ℤ) : k.value (k.wrap n) ≡ n [ZMOD 2 ^ k.bits] :=
  wrap_eq_wrap_iff.1 (k.wrap_value _)

variable {k}

/-- of all integers with this residue, the value is the one inside the range -/
theorem value_wrap_of_modEq {m n : ℤ} (h : n ≡ m [ZMOD 2 ^ k.bits]) (hmin : k.minValue ≤ m) (hmax : m ≤ k.maxValue) :
    k.value (k.wrap n) = m := by
  have hbounds := k.value_bounds (k.wrap n)
  have hdvd : 2 ^ k.bits ∣ m - k.value (k.wrap n) := ((k.value_wrap_modEq n).trans h).dvd
  have hrange := k.maxValue_eq
  -- both lie in one range, so they are less than a whole period apart
  have hzero : m - k.value (k.wrap n) = 0 := by
    apply Int.eq_zero_of_abs_lt_dvd hdvd
    rw [abs_lt]
    constructor <;> omega
  omega

theorem value_wrap {n : ℤ} (hmin : k.minValue ≤ n) (hmax : n ≤ k.maxValue) : k.value (k.wrap n) = n :=
  value_wrap_of_modEq rfl hmin hmax

/-! ## Counts of shifts -/

/-- widths are powers of two, and a count of 32 bits has room for them -/
theorem exists_bits_eq (k : IntKind) : ∃ i ≤ 32, k.bits = 2 ^ i := by
  cases k with
  | i32 | ui32 => exact ⟨5, by decide, rfl⟩
  | i64 | ui64 | usize => exact ⟨6, by decide, rfl⟩
  | char => exact ⟨3, by decide, rfl⟩

/-- cutting a count to 32 bits does not show: the bits that are kept number the bits of a value -/
theorem shiftCount_eq (c : BitVec k.bits) : k.shiftCount c = c.toNat % k.bits := by
  obtain ⟨i, hi, hbits⟩ := k.exists_bits_eq
  have hmask : ∀ n, (n % 2 ^ 32) &&& (k.bits - 1) = n % k.bits := by
    intro n
    rw [hbits, Nat.and_two_pow_sub_one_eq_mod, Nat.mod_mod_of_dvd n (pow_dvd_pow 2 hi)]
  rw [shiftCount, BitVec.toNat_setWidth, hmask]

/-! ## Kinds whose values are values of another kind -/

variable {a b : IntKind}

/-- an integer that the kind holds is cast like the integer itself -/
theorem toInt_wrap {n : ℤ} (hmin : a.minValue ≤ n) (hmax : n ≤ a.maxValue) : a.toInt b (a.wrap n) = b.wrap n := by
  rw [toInt, value_wrap hmin hmax]

/-- every value of the kind is a value of the other -/
def Embeds (a b : IntKind) : Prop :=
  ∀ x : BitVec a.bits, ∃ y : BitVec b.bits, b.value y = a.value x

theorem embeds_iff : a.Embeds b ↔ b.minValue ≤ a.minValue ∧ a.maxValue ≤ b.maxValue := by
  constructor
  · intro h
    have hmin := a.minValue_nonpos
    have hmax := a.maxValue_pos
    obtain ⟨y, hy⟩ := h (a.wrap a.minValue)
    obtain ⟨z, hz⟩ := h (a.wrap a.maxValue)
    rw [value_wrap le_rfl (by omega)] at hy
    rw [value_wrap (by omega) le_rfl] at hz
    exact ⟨hy ▸ (b.value_bounds y).1, hz ▸ (b.value_bounds z).2⟩
  · rintro ⟨hmin, hmax⟩ x
    have hx := a.value_bounds x
    exact ⟨b.wrap (a.value x), value_wrap (hmin.trans hx.1) (hx.2.trans hmax)⟩

instance : Decidable (a.Embeds b) :=
  decidable_of_iff _ embeds_iff.symm

/-- a cast into such a kind keeps the value -/
theorem Embeds.value_toInt (h : a.Embeds b) (x : BitVec a.bits) : b.value (a.toInt b x) = a.value x := by
  obtain ⟨y, hy⟩ := h x
  rw [toInt, ← hy, wrap_value]

end CallSurface.IntKind
