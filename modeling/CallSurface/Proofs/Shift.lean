/-
Shifts as multiplication and floor division.

A shift goes as far as the residue of its count modulo the width. The width divides the period of a kind, so this is the
residue of the count's value whatever its sign (`shiftCount_eq_emod`).
- `lshift_eq_wrap`: a shift to the left multiplies by a power of two and keeps the residue.
- `value_rshift`: a shift to the right is the floor of the quotient, where signed kinds move the sign in from above and
  the others zeros.

Main result: `shifts_scale_by_powers_of_two`.
-/
import CallSurface.Proofs.IntegerCast

namespace CallSurface

namespace IntKind

variable {k : IntKind}

/-! ## How far -/

theorem value_modEq_toNat (x : BitVec k.bits) : k.value x ≡ x.toNat [ZMOD 2 ^ k.bits] := by
  apply wrap_eq_wrap_iff.1
  rw [wrap_value, wrap, BitVec.ofInt_natCast, BitVec.ofNat_toNat, BitVec.setWidth_eq]

/-- **The residue of a count**, be it negative or beyond 32 bits. -/
theorem shiftCount_eq_emod (c : BitVec k.bits) : (k.shiftCount c : ℤ) = k.value c % k.bits := by
  have hperiod : (k.bits : ℤ) ∣ 2 ^ k.bits := by cases k <;> decide
  rw [shiftCount_eq, Int.natCast_mod]
  exact ((value_modEq_toNat c).of_dvd hperiod).symm

/-! ## To the left -/

theorem wrap_mul (m n : ℤ) : k.wrap (m * n) = k.wrap m * k.wrap n :=
  BitVec.ofInt_mul m n

theorem wrap_two_pow (n : ℕ) : k.wrap (2 ^ n) = BitVec.twoPow k.bits n := by
  apply BitVec.eq_of_toNat_eq
  rw [BitVec.toNat_twoPow, wrap]
  exact_mod_cast BitVec.toNat_ofNat (2 ^ n) k.bits

theorem lshift_eq_wrap (x c : BitVec k.bits) : k.lshift x c = k.wrap (k.value x * 2 ^ k.shiftCount c) := by
  rw [lshift, BitVec.shiftLeft_eq_mul_twoPow, wrap_mul, wrap_value, wrap_two_pow]

theorem lshift_eq_mul (x c : BitVec k.bits) : k.lshift x c = x * k.lshift 1 c := by
  rw [lshift, lshift, BitVec.shiftLeft_eq_mul_twoPow, BitVec.twoPow_eq]
  rfl

/-! ## To the right -/

theorem value_rshift (x c : BitVec k.bits) : k.value (k.rshift x c) = ⌊(k.value x : ℚ) / 2 ^ k.shiftCount c⌋ := by
  have hdiv : k.value (k.rshift x c) = k.value x / (2 ^ k.shiftCount c : ℕ) := by
    unfold value rshift
    split_ifs
    · rw [BitVec.toInt_sshiftRight, Int.shiftRight_eq_div_pow]
    · rw [BitVec.toNat_ushiftRight, Nat.shiftRight_eq_div_pow, Int.natCast_div]
  rw [hdiv, ← Rat.floor_intCast_div_natCast, Nat.cast_pow, Nat.cast_ofNat]

end IntKind

/-- **Shifts for every count.** Let `n` be the residue of the count modulo the width. A shift to the left answers with
the one value of the kind that is congruent to `x * 2 ^ n`, a shift to the right with the floor of `x / 2 ^ n`. And a
shift of `x` to the left is the product of `x` and the shifted one. -/
theorem shifts_scale_by_powers_of_two (k : IntKind) (hk : (Kind.int k).isInteger = true) (x c : BitVec k.bits) :
    let n := (k.value c % k.bits).toNat
    (∃ r, Operator.lshift.apply (.int k) [.int k x, .int k c] = some (.ok (.int k r)) ∧
      ∀ s : BitVec k.bits, k.value s ≡ k.value x * 2 ^ n [ZMOD 2 ^ k.bits] ↔ s = r) ∧
    (∃ r, Operator.rshift.apply (.int k) [.int k x, .int k c] = some (.ok (.int k r)) ∧
      k.value r = ⌊(k.value x : ℚ) / 2 ^ n⌋) ∧
    ∃ p, Operator.lshift.apply (.int k) [.int k 1, .int k c] = some (.ok p) ∧
      Operator.mul.apply (.int k) [.int k x, p] = Operator.lshift.apply (.int k) [.int k x, .int k c] := by
  intro n
  have hn : n = k.shiftCount c := by
    rw [← Int.natCast_inj, IntKind.shiftCount_eq_emod]
    exact Int.toNat_of_nonneg (Int.emod_nonneg _ (by cases k <;> decide))
  have hleft : ∀ y : BitVec k.bits,
      Operator.lshift.apply (.int k) [.int k y, .int k c] = some (.ok (.int k (k.lshift y c))) :=
    fun y => Operator.apply_ints (Operator.isLinked_of_isInteger hk rfl) y c
  have hright : Operator.rshift.apply (.int k) [.int k x, .int k c] = some (.ok (.int k (k.rshift x c))) :=
    Operator.apply_ints (Operator.isLinked_of_isInteger hk rfl) x c
  have hmul : Operator.mul.apply (.int k) [.int k x, .int k (k.lshift 1 c)] = some (.ok (.int k (x * k.lshift 1 c))) :=
    Operator.apply_ints (Operator.isLinked_of_isInteger hk rfl) x (k.lshift 1 c)
  refine ⟨⟨_, hleft x, ?_⟩, ⟨_, hright, ?_⟩, _, hleft 1, ?_⟩
  · intro s
    rw [hn, IntKind.lshift_eq_wrap, ← IntKind.wrap_eq_wrap_iff, IntKind.wrap_value]
  · rw [hn, IntKind.value_rshift]
  · rw [hmul, hleft, ← IntKind.lshift_eq_mul]

/-- a negative count moves the least bit to the top, and a count beyond 32 bits moves a negative value down -/
theorem shifts_scale_by_powers_of_two_wide_count :
    let far : BitVec 64 := 0x100000041
    (Kind.int .i32).isInteger = true ∧ (Kind.int .i64).isInteger = true ∧
    (∃ r, Operator.lshift.apply (.int .i32) [.int .i32 1, .int .i32 (-1)] = some (.ok (.int .i32 r)) ∧
      ∀ s : BitVec 32, IntKind.i32.value s ≡ 1 * 2 ^ 31 [ZMOD 2 ^ 32] ↔ s = r) ∧
    ∃ r, Operator.rshift.apply (.int .i64) [.int .i64 (-7), .int .i64 far] = some (.ok (.int .i64 r)) ∧
      IntKind.i64.value r = ⌊(IntKind.i64.value (-7) : ℚ) / 2 ^ 1⌋ := by
  intro far
  have hfar : (IntKind.i64.value far % IntKind.i64.bits).toNat = 1 := by decide
  obtain ⟨hleft, -, -⟩ := shifts_scale_by_powers_of_two .i32 rfl 1 (-1)
  obtain ⟨-, hright, -⟩ := shifts_scale_by_powers_of_two .i64 rfl (-7) far
  rw [hfar] at hright
  exact ⟨rfl, rfl, hleft, hright⟩

end CallSurface
