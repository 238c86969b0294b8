/-
The remainder of two floats is exact.

However many bits the quotient has, the remainder of two magnitudes is the magnitude of a code (`exists_codeSteps_mod`):
if the dividend is not below the divisor, both are multiples of the unit of the divisor's exponent, so the remainder is
one too, and its significand is smaller than the divisor's. Rounding such a remainder changes nothing.

Signs are left to division of integers: the remainder of signed magnitudes has the sign of the dividend (`tmod_signed`),
and over rationals it is the dividend less the truncated quotient times the divisor (`toRat_sub_truncate_mul`).

Main result: `float_remainder_is_exact`.
-/
import CallSurface.Proofs.OrderedCast
import CallSurface.Proofs.Truncation

namespace CallSurface

/-- a remainder has the sign of the dividend, whatever the sign of the divisor -/
theorem tmod_signed (p q : Bool) (m n : ℕ) : (signed p m).tmod (signed q n) = signed p (m % n) := by
  have hnat : (m : ℤ).tmod n = ((m % n : ℕ) : ℤ) := (Int.ofNat_tmod m n).symm
  cases p <;> cases q <;> simp only [signed, Bool.false_eq_true, if_true, if_false, Int.neg_tmod, Int.tmod_neg, hnat]

namespace FloatKind

/-! ## Magnitudes -/

/-- **The remainder of two magnitudes is a magnitude.** -/
theorem exists_codeSteps_mod (k : FloatKind) (c d : ℕ) : ∃ r, k.codeSteps r = k.codeSteps c % k.codeSteps d := by
  rcases k.code_cases d with hd | ⟨q, f, hf, rfl⟩
  · -- below the first exponent codes count steps
    rw [k.codeSteps_of_lt hd]
    rcases Nat.eq_zero_or_pos d with rfl | hpos
    · exact ⟨c, (Nat.mod_zero _).symm⟩
    · exact ⟨k.codeSteps c % d, k.codeSteps_of_lt ((Nat.mod_lt _ hpos).trans hd)⟩
  · rw [k.codeSteps_normal q hf]
    rcases k.codeSteps_multiple_or_lt q c with ⟨j, hj⟩ | hlow
    · have hshort : j % (k.codesPerExponent + f) ≤ 2 * k.codesPerExponent := by
        have hlt := Nat.mod_lt j (Nat.add_pos_left k.codesPerExponent_pos f)
        omega
      obtain ⟨r, hr⟩ := k.exists_codeSteps_eq hshort q
      exact ⟨r, by rw [hr, hj, Nat.mul_mod_mul_right]⟩
    · have hbelow : k.codeSteps c < (k.codesPerExponent + f) * twoPow q :=
        hlow.trans_le (Nat.mul_le_mul_right _ (Nat.le_add_right _ _))
      exact ⟨c, (Nat.mod_eq_of_lt hbelow).symm⟩

variable {k : FloatKind} {x y : BitVec k.bits}

/-- between finite operands the remainder is not rounded -/
theorem exists_mod_eq_ofCode (hx : k.isFinite x = true) (hy : k.isFinite y = true) (hzero : k.isZero y = false) :
    ∃ c < k.infinityCode, k.codeSteps c = k.steps x % k.steps y ∧ k.mod x y = k.ofCode (k.negative x) c := by
  obtain ⟨hxn, hxi⟩ := (k.isFinite_eq_true_iff x).1 hx
  obtain ⟨hyn, hyi⟩ := (k.isFinite_eq_true_iff y).1 hy
  obtain ⟨c, hsteps⟩ := k.exists_codeSteps_mod (k.code x) (k.code y)
  have hbelow : k.codeSteps c < k.codeSteps (k.code y) := by
    rw [hsteps]
    exact Nat.mod_lt _ (k.steps_pos hzero)
  have hc : c < k.infinityCode := (k.codeSteps_strictMono.lt_iff_lt.1 hbelow).trans (of_decide_eq_true hy)
  have hcode : k.nearestCode (k.steps x % k.steps y) 1 = c :=
    nearestCode_of_exact Nat.one_pos hc ((Nat.mul_one _).trans hsteps)
  refine ⟨c, hc, hsteps, ?_⟩
  rw [mod, hxn, hxi, hyn, hyi, hzero, nearest, hcode]
  rfl

/-! ## Exact values -/

/-- the steps that are left are the value that is left -/
theorem toRat_sub_truncate_mul (x y : BitVec k.bits) :
    k.toRat x - truncate (k.toRat x / k.toRat y) * k.toRat y =
      signed (k.negative x) (k.steps x % k.steps y) / k.stepsPerOne := by
  have hone := k.stepsPerOne_cast_pos.ne'
  have hquotient : truncate (k.toRat x / k.toRat y) = (k.signedSteps x).tdiv (k.signedSteps y) := by
    rw [toRat, toRat, div_div_div_cancel_right₀ hone, truncate_div]
  calc k.toRat x - truncate (k.toRat x / k.toRat y) * k.toRat y
      = ((k.signedSteps x - (k.signedSteps x).tdiv (k.signedSteps y) * k.signedSteps y : ℤ) : ℚ) / k.stepsPerOne := by
        rw [hquotient, toRat, toRat, mul_div_assoc', ← sub_div]
        push_cast
        rfl
    _ = (((k.signedSteps x).tmod (k.signedSteps y) : ℤ) : ℚ) / k.stepsPerOne := by
        rw [Int.tmod_def, Int.mul_comm]
    _ = signed (k.negative x) (k.steps x % k.steps y) / k.stepsPerOne := by
        rw [← tmod_signed (k.negative x) (k.negative y)]
        rfl

/-- `r` is the exact remainder of `x` by `y`: what the quotient truncated toward zero leaves, with the sign bit of `x` -/
structure IsRemainder (x y r : BitVec k.bits) : Prop where
  finite : k.isFinite r = true
  exact : k.toRat r = k.toRat x - truncate (k.toRat x / k.toRat y) * k.toRat y
  lt_divisor : |k.toRat r| < |k.toRat y|
  sign : k.negative r = k.negative x

/-- **The remainder of finite operands is exact.** -/
theorem isRemainder_mod (hx : k.isFinite x = true) (hy : k.isFinite y = true) (hzero : k.isZero y = false) :
    IsRemainder x y (k.mod x y) := by
  obtain ⟨c, hc, hsteps, hmod⟩ := exists_mod_eq_ofCode hx hy hzero
  have hlt := hc.trans k.infinityCode_lt_signBit
  have hcode : k.code (k.mod x y) = c := by rw [hmod, code_ofCode _ hlt]
  refine ⟨?_, ?_, ?_, ?_⟩
  · rw [isFinite, hcode]
    exact decide_eq_true hc
  · rw [toRat_sub_truncate_mul, ← hsteps, hmod, toRat_ofCode _ hlt]
  · rw [abs_toRat, abs_toRat, div_lt_div_iff_of_pos_right k.stepsPerOne_cast_pos, Nat.cast_lt, steps, hcode, hsteps]
    exact Nat.mod_lt _ (k.steps_pos hzero)
  · rw [hmod, negative_ofCode _ hlt]

end FloatKind

/-! ## What calls give -/

/-- **Float remainders are exact.** For all bit patterns the call gives a value. It is NaN if the dividend is NaN or
infinite or the divisor is NaN or zero, and it is the dividend itself if this is finite and the divisor infinite. Otherwise
it is the dividend less the divisor times the quotient truncated toward zero, over rationals and without any rounding; it
is smaller than the divisor and has the sign bit of the dividend, also where it is zero. -/
theorem float_remainder_is_exact (k : FloatKind) (x y : BitVec k.bits) :
    ∃ r : BitVec k.bits, Operator.mod.apply (.float k) [.float k x, .float k y] = some (.ok (.float k r)) ∧
      (k.isNaN x = true ∨ k.isInfinite x = true ∨ k.isNaN y = true ∨ k.isZero y = true → k.isNaN r = true) ∧
      (k.isFinite x = true → k.isInfinite y = true → r = x) ∧
      (k.isFinite x = true → k.isFinite y = true → k.isZero y = false → FloatKind.IsRemainder x y r) := by
  have hlinked : Operator.mod.isLinked (.float k) = true := by cases k <;> decide
  refine ⟨k.mod x y, Operator.apply_floats hlinked x y, ?_, ?_, FloatKind.isRemainder_mod⟩
  · intro hcase
    have hnan : k.mod x y = k.quietNaN := by
      rw [FloatKind.mod, if_pos]
      simpa [or_assoc] using hcase
    rw [hnan, FloatKind.isNaN_quietNaN]
  · intro hx hy
    obtain ⟨hxn, hxi⟩ := (k.isFinite_eq_true_iff x).1 hx
    have hyz : k.isZero y = false := by
      rw [FloatKind.isZero, beq_iff_eq.1 hy, beq_eq_false_iff_ne]
      exact k.infinityCode_pos.ne'
    rw [FloatKind.mod, hxn, hxi, FloatKind.isNaN_of_isInfinite hy, hyz, hy]
    rfl

/-- the greatest magnitude of the wide kind by three least steps: a quotient of more than two thousand bits, and a
remainder of two steps with the sign of the dividend; the same dividend by infinity and by zero -/
theorem float_remainder_is_exact_long_quotient :
    let x : BitVec FloatKind.f64.bits := 0xFFEFFFFFFFFFFFFF
    let y : BitVec FloatKind.f64.bits := 3
    let infinity : BitVec FloatKind.f64.bits := 0x7FF0000000000000
    (FloatKind.f64.isFinite x = true ∧ FloatKind.f64.isFinite y = true ∧ FloatKind.f64.isZero y = false ∧
      FloatKind.IsRemainder x y (FloatKind.f64.ofCode true 2)) ∧
    (FloatKind.f64.isInfinite infinity = true ∧
      Operator.mod.apply (.float .f64) [.float .f64 x, .float .f64 infinity] = some (.ok (.float .f64 x))) ∧
    (FloatKind.f64.isZero 0 = true ∧
      ∃ r, Operator.mod.apply (.float .f64) [.float .f64 x, .float .f64 0] = some (.ok (.float .f64 r)) ∧
        FloatKind.f64.isNaN r = true) := by
  intro x y infinity
  have hx : FloatKind.f64.isFinite x = true := by decide
  have hy : FloatKind.f64.isFinite y = true ∧ FloatKind.f64.isZero y = false := by decide
  have hinf : FloatKind.f64.isInfinite infinity = true := by decide
  have hzero : FloatKind.f64.isZero 0 = true := by decide
  refine ⟨⟨hx, hy.1, hy.2, ?_⟩, ⟨hinf, ?_⟩, hzero, ?_⟩
  · obtain ⟨r, hr, -, -, hexact⟩ := float_remainder_is_exact .f64 x y
    have htwo : Operator.mod.apply (.float .f64) [.float .f64 x, .float .f64 y] =
        some (.ok (.float .f64 (FloatKind.f64.ofCode true 2))) := by decide +kernel
    rw [hr] at htwo
    cases htwo
    exact hexact hx hy.1 hy.2
  · obtain ⟨r, hr, -, hkept, -⟩ := float_remainder_is_exact .f64 x infinity
    rw [hr, hkept hx hinf]
  · obtain ⟨r, hr, hnan, -, -⟩ := float_remainder_is_exact .f64 x 0
    exact ⟨r, hr, hnan (Or.inr (Or.inr (Or.inr hzero)))⟩

end CallSurface
