/-
Sums, differences, products and quotients of floats are rounded correctly.

Finite operands are whole numbers of least steps, so each exact result is a signed quotient of naturals, and `nearest`
rounds this quotient. What is left to show is that the quotient is the right one, sign included:
- `isNearest_add`: the sum of two numbers of steps. A result that is exactly zero takes its sign from the operands,
  any other one has its own (`signOf`).
- `sub_eq_add_neg`: a difference is the sum with the negated operand, for all patterns; hence `isNearest_sub`.
- `isNearest_mul`, `isNearest_div`: the sign of a product or quotient comes from the operands alone, also where the
  magnitude is rounded to zero.

Infinities and NaNs are left to the laws for all patterns, `add_comm` and `mul_comm`: two infinities of one sign are the
same pattern, and every other case treats the operands alike.

Main result: `float_arithmetic_is_nearest`.
-/
import CallSurface.Proofs.CorrectRounding
import CallSurface.Proofs.OrderedCast

namespace CallSurface

/-! ## Signs -/

theorem signed_mul_signed (p q : Bool) (m n : ℕ) : signed p m * signed q n = signed (p != q) (m * n) := by
  cases p <;> cases q <;> simp [signed]

theorem signed_div_signed (p q : Bool) (m n : ℕ) : (signed p m : ℚ) / signed q n = signed (p != q) m / n := by
  cases p <;> cases q <;> simp [signed, div_neg, neg_div]

theorem signed_not (p : Bool) (m : ℕ) : signed (!p) m = -signed p m := by
  cases p <;> simp [signed]

/-- the sign of an exact result; zero has none of its own -/
def signOf (zeroNegative : Bool) (v : ℚ) : Bool :=
  if v = 0 then zeroNegative else decide (v < 0)

namespace FloatKind

variable {k : FloatKind} {x y : BitVec k.bits}

theorem eq_of_code_eq (hcode : k.code x = k.code y) (hsign : k.negative x = k.negative y) : x = y := by
  rw [← ofCode_code x, ← ofCode_code y, hcode, hsign]

/-! ## Negation -/

variable (x)

theorem code_neg : k.code (k.neg x) = k.code x := by
  have hlow : (k.neg x).setWidth (k.bits - 1) = x.setWidth (k.bits - 1) := by
    have hmin : (BitVec.intMin k.bits).setWidth (k.bits - 1) = 0#(k.bits - 1) := by
      cases k <;> decide
    rw [neg, BitVec.setWidth_xor, hmin, BitVec.xor_zero]
  have hnat := congrArg BitVec.toNat hlow
  rw [BitVec.toNat_setWidth, BitVec.toNat_setWidth] at hnat
  exact hnat

theorem negative_neg : k.negative (k.neg x) = !k.negative x := by
  have hmin : (BitVec.intMin k.bits).msb = true := by
    cases k <;> decide
  rw [negative, neg, BitVec.msb_xor, hmin, Bool.xor_true]
  rfl

theorem isNaN_neg : k.isNaN (k.neg x) = k.isNaN x := by
  rw [isNaN, isNaN, code_neg]

theorem isInfinite_neg : k.isInfinite (k.neg x) = k.isInfinite x := by
  rw [isInfinite, isInfinite, code_neg]

theorem isFinite_neg : k.isFinite (k.neg x) = k.isFinite x := by
  rw [isFinite, isFinite, code_neg]

theorem signedSteps_neg : k.signedSteps (k.neg x) = -k.signedSteps x := by
  have hsigned : ∀ z : BitVec k.bits, k.signedSteps z = signed (k.negative z) (k.codeSteps (k.code z)) := fun _ => rfl
  rw [hsigned, hsigned, negative_neg, code_neg, signed_not]

theorem toRat_neg : k.toRat (k.neg x) = -k.toRat x := by
  rw [toRat, toRat, signedSteps_neg, Int.cast_neg, neg_div]

variable (y)

/-- **A difference is the sum with the negated operand**, for all patterns -/
protected theorem sub_eq_add_neg : k.sub x y = k.add x (k.neg y) := by
  have hsign : (k.negative x != !k.negative y) = (k.negative x == k.negative y) := by
    cases k.negative x <;> cases k.negative y <;> rfl
  rw [sub, add, isNaN_neg, isInfinite_neg, negative_neg, signedSteps_neg, hsign, Int.sub_eq_add_neg]

/-! ## Order of the operands -/

protected theorem add_comm : k.add x y = k.add y x := by
  have hsign : (k.negative y != k.negative x) = (k.negative x != k.negative y) := Bool.xor_comm _ _
  unfold add
  rw [Bool.or_comm (k.isNaN y), Bool.and_comm (k.negative y), Int.add_comm (k.signedSteps y), hsign]
  by_cases hx : k.isInfinite x = true
  · by_cases hy : k.isInfinite y = true
    · rcases Bool.eq_or_eq_not (k.negative x) (k.negative y) with hsame | hopposite
      · -- infinities of one sign are one pattern
        have hcode : k.code x = k.code y := (beq_iff_eq.1 hx).trans (beq_iff_eq.1 hy).symm
        rw [eq_of_code_eq hcode hsame]
      · simp [hx, hy, hopposite]
    · simp [hx, hy]
  · simp [hx]

protected theorem mul_comm : k.mul x y = k.mul y x := by
  have hsign : (k.negative y != k.negative x) = (k.negative x != k.negative y) := Bool.xor_comm _ _
  unfold mul
  rw [Bool.or_comm (k.isNaN y), Bool.or_comm (k.isInfinite y), Bool.or_comm (k.isZero y), Nat.mul_comm (k.steps y), hsign]

/-! ## Finite operands -/

variable {x y} (hx : k.isFinite x = true) (hy : k.isFinite y = true)

theorem isNearest_ofSteps (k : FloatKind) (zeroNegative : Bool) (s : ℤ) :
    k.IsNearest (signOf zeroNegative (s / k.stepsPerOne)) (s / k.stepsPerOne) (k.ofSteps zeroNegative s) := by
  have hpos := k.stepsPerOne_cast_pos
  have hsign : signOf zeroNegative (s / k.stepsPerOne) = if s = 0 then zeroNegative else decide (s < 0) := by
    have hzero : (s : ℚ) / k.stepsPerOne = 0 ↔ s = 0 := by simp [hpos.ne']
    have hneg : (s : ℚ) / k.stepsPerOne < 0 ↔ s < 0 := by rw [div_neg_iff]; simp [hpos, hpos.not_gt]
    simp only [signOf, hzero, hneg]
  have hsteps : signed (if s = 0 then zeroNegative else decide (s < 0)) s.natAbs = s := by
    split_ifs with h
    · rw [h]
      cases zeroNegative <;> rfl
    · exact signed_natAbs s
  have hnearest := k.isNearest_nearest_one (if s = 0 then zeroNegative else decide (s < 0)) s.natAbs
  rw [hsteps] at hnearest
  rw [hsign]
  exact hnearest

include hx hy

theorem isNearest_add :
    k.IsNearest (signOf (k.negative x && k.negative y) (k.toRat x + k.toRat y)) (k.toRat x + k.toRat y) (k.add x y) := by
  obtain ⟨hxn, hxi⟩ := (k.isFinite_eq_true_iff x).1 hx
  obtain ⟨hyn, hyi⟩ := (k.isFinite_eq_true_iff y).1 hy
  have hsum : k.toRat x + k.toRat y = ((k.signedSteps x + k.signedSteps y : ℤ) : ℚ) / k.stepsPerOne := by
    rw [toRat, toRat, ← add_div, Int.cast_add]
  rw [add, hxn, hyn, hxi, hyi, hsum]
  exact k.isNearest_ofSteps _ _

theorem isNearest_sub :
    k.IsNearest (signOf (k.negative x && !k.negative y) (k.toRat x - k.toRat y)) (k.toRat x - k.toRat y) (k.sub x y) := by
  have hnearest := isNearest_add hx ((isFinite_neg y).trans hy)
  rw [negative_neg, toRat_neg, ← Rat.sub_eq_add_neg] at hnearest
  rw [FloatKind.sub_eq_add_neg]
  exact hnearest

theorem isNearest_mul : k.IsNearest (k.negative x != k.negative y) (k.toRat x * k.toRat y) (k.mul x y) := by
  obtain ⟨hxn, hxi⟩ := (k.isFinite_eq_true_iff x).1 hx
  obtain ⟨hyn, hyi⟩ := (k.isFinite_eq_true_iff y).1 hy
  have hproduct : k.toRat x * k.toRat y =
      signed (k.negative x != k.negative y) (k.steps x * k.steps y) / (k.stepsPerOne * k.stepsPerOne) := by
    rw [← signed_mul_signed, Int.cast_mul, ← div_mul_div_comm]
    rfl
  rw [mul, hxn, hyn, hxi, hyi, hproduct]
  exact k.isNearest_nearest _ _ k.stepsPerOne_pos

theorem isNearest_div (hzero : k.isZero y = false) :
    k.IsNearest (k.negative x != k.negative y) (k.toRat x / k.toRat y) (k.div x y) := by
  obtain ⟨hxn, hxi⟩ := (k.isFinite_eq_true_iff x).1 hx
  obtain ⟨hyn, hyi⟩ := (k.isFinite_eq_true_iff y).1 hy
  have hone := k.stepsPerOne_cast_pos.ne'
  have hquotient : k.toRat x / k.toRat y =
      signed (k.negative x != k.negative y) (k.steps x * k.stepsPerOne) / (k.steps y * k.stepsPerOne) := by
    calc k.toRat x / k.toRat y = signed (k.negative x) (k.steps x) / signed (k.negative y) (k.steps y) :=
          div_div_div_cancel_right₀ hone _ _
      _ = signed (k.negative x != k.negative y) (k.steps x) / k.steps y := signed_div_signed _ _ _ _
      _ = signed (k.negative x != k.negative y) (k.steps x * k.stepsPerOne) / (k.steps y * k.stepsPerOne) := by
          rw [← signed_mul, Int.cast_mul, Int.cast_natCast, mul_div_mul_right _ _ hone]
  rw [div, hxn, hyn, hxi, hyi, hzero, hquotient]
  exact k.isNearest_nearest _ _ (k.steps_pos hzero)

end FloatKind

/-! ## What calls give -/

/-- **Float arithmetic is rounded correctly.** For finite operands, the sum, the difference, the product and, unless the
divisor is zero, the quotient is the one bit pattern nearest to the exact rational result, as `IsNearest` says. A sum or
difference that is not zero has its own sign; an exact zero is negative only if both terms are. A product or quotient is
negative exactly if one operand is, also where it is rounded to zero or to infinity. For all patterns, infinities and NaNs
included, sums and products do not depend on the order of the operands, and a difference is the sum with the negated
operand. -/
theorem float_arithmetic_is_nearest (k : FloatKind) (x y : BitVec k.bits) :
    let call (op : Operator) (v w : BitVec k.bits) := op.apply (.float k) [.float k v, .float k w]
    (k.isFinite x = true → k.isFinite y = true →
      k.AnswersNearest (signOf (k.negative x && k.negative y) (k.toRat x + k.toRat y)) (k.toRat x + k.toRat y)
        (call .add x y) ∧
      k.AnswersNearest (signOf (k.negative x && !k.negative y) (k.toRat x - k.toRat y)) (k.toRat x - k.toRat y)
        (call .sub x y) ∧
      k.AnswersNearest (k.negative x != k.negative y) (k.toRat x * k.toRat y) (call .mul x y) ∧
      (k.isZero y = false →
        k.AnswersNearest (k.negative x != k.negative y) (k.toRat x / k.toRat y) (call .div x y))) ∧
    (∀ op ∈ [Operator.add, .mul], ∃ r, call op x y = some (.ok r) ∧ call op y x = some (.ok r)) ∧
    ∃ (m : BitVec k.bits) (r : Scalar), Operator.unaryMinus.apply (.float k) [.float k y] = some (.ok (.float k m)) ∧
      call .sub x y = some (.ok r) ∧ call .add x m = some (.ok r) := by
  intro call
  have hlinked : ∀ op ∈ [Operator.add, .sub, .mul, .div], op.isLinked (.float k) = true := by
    cases k <;> decide
  have hcall : ∀ op ∈ [Operator.add, .sub, .mul, .div], ∀ v w, call op v w = op.onFloats k v w := fun op hop =>
    Operator.apply_floats (hlinked op hop)
  have hadd : ∀ v w, call .add v w = some (.ok (.float k (k.add v w))) := hcall .add (by decide)
  have hsub : ∀ v w, call .sub v w = some (.ok (.float k (k.sub v w))) := hcall .sub (by decide)
  have hmul : ∀ v w, call .mul v w = some (.ok (.float k (k.mul v w))) := hcall .mul (by decide)
  have hdiv : ∀ v w, call .div v w = some (.ok (.float k (k.div v w))) := hcall .div (by decide)
  refine ⟨?_, ?_, ?_⟩
  · intro hx hy
    refine ⟨(FloatKind.isNearest_add hx hy).answers (hadd x y), (FloatKind.isNearest_sub hx hy).answers (hsub x y),
      (FloatKind.isNearest_mul hx hy).answers (hmul x y), ?_⟩
    intro hzero
    exact (FloatKind.isNearest_div hx hy hzero).answers (hdiv x y)
  · intro op hop
    simp only [List.mem_cons, List.not_mem_nil, or_false] at hop
    rcases hop with rfl | rfl
    · exact ⟨_, hadd x y, FloatKind.add_comm y x ▸ hadd y x⟩
    · exact ⟨_, hmul x y, FloatKind.mul_comm y x ▸ hmul y x⟩
  · exact ⟨k.neg y, _, Operator.apply_unaryMinus_float y, hsub x y, FloatKind.sub_eq_add_neg x y ▸ hadd x (k.neg y)⟩

/-- a product half way between the greatest subnormal value and the least normal one, where the even significand is the
normal one, and a quotient just above such a midpoint -/
theorem float_arithmetic_is_nearest_halfway :
    let x : BitVec FloatKind.f32.bits := 0x00800000
    let y : BitVec FloatKind.f32.bits := 0xBF7FFFFF
    (FloatKind.f32.isFinite x = true ∧ FloatKind.f32.isFinite y = true ∧ FloatKind.f32.isZero y = false) ∧
    FloatKind.f32.IsNearest (FloatKind.f32.negative x != FloatKind.f32.negative y)
      (FloatKind.f32.toRat x * FloatKind.f32.toRat y) 0x80800000 ∧
    FloatKind.f32.IsNearest (FloatKind.f32.negative x != FloatKind.f32.negative y)
      (FloatKind.f32.toRat x / FloatKind.f32.toRat y) 0x80800001 := by
  intro x y
  have hx : FloatKind.f32.isFinite x = true := by decide
  have hy : FloatKind.f32.isFinite y = true ∧ FloatKind.f32.isZero y = false := by decide
  obtain ⟨hfinite, -, -⟩ := float_arithmetic_is_nearest .f32 x y
  obtain ⟨-, -, hmul, hdiv⟩ := hfinite hx hy.1
  exact ⟨⟨hx, hy⟩, hmul.isNearest (by decide), (hdiv hy.2).isNearest (by decide)⟩

end CallSurface
