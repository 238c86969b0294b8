/-
Truncation toward zero: integer division, and casts of floats to integers.

`truncate` takes the fraction off an exact rational. Division of integers by `Int.tdiv` is truncation of the exact
quotient (`truncate_div`), and so is the division of steps by `stepsPerOne` that a cast makes (`truncate_toRat`).

- `division_cases`: two integers have no quotient because the divisor is zero, or because the kind has a sign and the
  quotient is one more than its greatest value; otherwise they have a quotient and a remainder that satisfy
  `IsDivision`. Quotient and remainder are values of the kind, so `x = q * y + r` holds exactly, and therefore in the
  wrapping arithmetic of the kind as well (`IsDivision.mul_add_eq`).
- `value_clamp`: clamping brings an integer of any size into the range of a kind.

Main results: `integer_division_truncates` and `float_cast_truncates_and_clamps`.
-/
import CallSurface.Proofs.CorrectRounding
import CallSurface.Proofs.Division
import CallSurface.Proofs.IntegerCast

namespace CallSurface

/-! ## Toward zero -/

/-- the whole part of a rational, toward zero -/
def truncate (v : ℚ) : ℤ :=
  if 0 ≤ v then ⌊v⌋ else ⌈v⌉

theorem truncate_neg (v : ℚ) : truncate (-v) = -truncate v := by
  unfold truncate
  rcases lt_trichotomy v 0 with hv | rfl | hv
  · rw [if_pos (by linarith), if_neg (by linarith), Int.floor_neg]
  · simp
  · rw [if_neg (by linarith), if_pos hv.le, Int.ceil_neg]

theorem truncate_natCast_div (m n : ℕ) : truncate ((m : ℚ) / n) = m / n := by
  have hnonneg : (0 : ℚ) ≤ (m : ℚ) / n := by positivity
  rw [truncate, if_pos hnonneg, Rat.floor_natCast_div_natCast]

/-- division of integers is truncation of the exact quotient -/
theorem truncate_div (a b : ℤ) : truncate ((a : ℚ) / b) = a.tdiv b := by
  have hnat : truncate (((a.natAbs : ℤ) : ℚ) / ((b.natAbs : ℤ) : ℚ)) = (a.natAbs : ℤ).tdiv b.natAbs := by
    rw [Int.cast_natCast, Int.cast_natCast, truncate_natCast_div]
    exact (Int.tdiv_eq_ediv_of_nonneg (Int.natCast_nonneg _)).symm
  rcases Int.natAbs_eq a with ha | ha
  · rcases Int.natAbs_eq b with hb | hb
    · rw [ha, hb]
      exact hnat
    · rw [ha, hb, Int.cast_neg, div_neg, truncate_neg, Int.tdiv_neg, hnat]
  · rcases Int.natAbs_eq b with hb | hb
    · rw [ha, hb, Int.cast_neg, neg_div, truncate_neg, Int.neg_tdiv, hnat]
    · rw [ha, hb, Int.cast_neg, Int.cast_neg, neg_div_neg_eq, Int.neg_tdiv, Int.tdiv_neg, neg_neg, hnat]

/-! ## Integer division -/

namespace IntKind

variable (k : IntKind) (x y : BitVec k.bits)

/-- the operands without a quotient: the divisor is zero, or the quotient is one more than the greatest value -/
def Indivisible : Prop :=
  k.value y = 0 ∨ k.signed = true ∧ k.value x = k.minValue ∧ k.value y = -1

/-- `q` and `r` are quotient and remainder of `x` by `y`, as exact integers -/
structure IsDivision (q r : BitVec k.bits) : Prop where
  exact : k.value x = k.value q * k.value y + k.value r
  remainder_lt : |k.value r| < |k.value y|
  remainder_sign : k.value r = 0 ∨ (k.value r).sign = (k.value x).sign
  quotient : k.value q = truncate (k.value x / k.value y)

variable {k x y}

/-- only kinds with a sign have the value -1 -/
theorem overflows_eq_true_iff : k.overflows x y = true ↔ k.signed = true ∧ k.value x = k.minValue ∧ k.value y = -1 := by
  have hsigned : k.value y = -1 → k.signed = true := by
    intro hy
    have hmin := (k.value_bounds y).1
    by_contra hs
    rw [minValue, if_neg hs] at hmin
    omega
  simp only [overflows, Bool.and_eq_true, beq_iff_eq]
  exact ⟨fun h => ⟨hsigned h.2, h⟩, fun h => h.2⟩

theorem isDivision_wrap (hy : k.value y ≠ 0) (hfits : k.overflows x y = false) :
    k.IsDivision x y (k.wrap ((k.value x).tdiv (k.value y))) (k.wrap ((k.value x).tmod (k.value y))) := by
  have hq := tdiv_bounds hy hfits
  have hr := tmod_bounds (x := x) hy
  refine ⟨?_, ?_, ?_, ?_⟩
  · rw [value_wrap hq.1 hq.2, value_wrap hr.1 hr.2, Int.tdiv_mul_add_tmod]
  · rw [value_wrap hr.1 hr.2, Int.abs_eq_natAbs, Int.abs_eq_natAbs, Int.natAbs_tmod, Nat.cast_lt]
    exact Nat.mod_lt _ (Int.natAbs_pos.2 hy)
  · rw [value_wrap hr.1 hr.2, Int.sign_tmod]
    by_cases hdvd : k.value y ∣ k.value x
    · exact Or.inl (Int.tmod_eq_zero_of_dvd hdvd)
    · exact Or.inr (if_neg hdvd)
  · rw [value_wrap hq.1 hq.2, truncate_div]

/-- **The three ways in which a division may go.** -/
theorem division_cases (x y : BitVec k.bits) :
    (k.value y = 0 ∧ k.div x y = .error .divideByZero ∧ k.mod x y = .error .remainderByZero) ∨
    (k.value y ≠ 0 ∧ k.Indivisible x y ∧ k.div x y = .error .divideOverflow ∧ k.mod x y = .error .remainderOverflow) ∨
    (¬ k.Indivisible x y ∧ ∃ q r, k.div x y = .ok q ∧ k.mod x y = .ok r ∧ k.IsDivision x y q r) := by
  by_cases hy : k.value y = 0
  · exact Or.inl ⟨hy, by rw [div, if_pos hy], by rw [mod, if_pos hy]⟩
  by_cases hover : k.overflows x y = true
  · exact Or.inr (Or.inl ⟨hy, Or.inr (overflows_eq_true_iff.1 hover), by rw [div, if_neg hy, if_pos hover],
      by rw [mod, if_neg hy, if_pos hover]⟩)
  · have hdivisible : ¬ k.Indivisible x y := by
      intro htraps
      rcases htraps with hzero | hleast
      · exact hy hzero
      · exact hover (overflows_eq_true_iff.2 hleast)
    exact Or.inr (Or.inr ⟨hdivisible, _, _, by rw [div, if_neg hy, if_neg hover], by rw [mod, if_neg hy, if_neg hover],
      isDivision_wrap hy (Bool.eq_false_of_not_eq_true hover)⟩)

/-- what holds of exact integers holds in the wrapping arithmetic of the kind -/
theorem IsDivision.mul_add_eq {q r : BitVec k.bits} (h : k.IsDivision x y q r) : q * y + r = x := by
  calc q * y + r = k.wrap (k.value q) * k.wrap (k.value y) + k.wrap (k.value r) := by
        rw [wrap_value, wrap_value, wrap_value]
    _ = k.wrap (k.value q * k.value y + k.value r) := by
        unfold wrap
        rw [BitVec.ofInt_add, BitVec.ofInt_mul]
    _ = x := by rw [← h.exact, wrap_value]

/-! ## Clamping -/

theorem value_clamp (k : IntKind) (n : ℤ) : k.value (k.clamp n) = max k.minValue (min k.maxValue n) := by
  have hmin := k.minValue_nonpos
  have hmax := k.maxValue_pos
  exact value_wrap (by omega) (by omega)

end IntKind

theorem FloatKind.truncate_toRat (k : FloatKind) (x : BitVec k.bits) :
    truncate (k.toRat x) = (k.signedSteps x).tdiv k.stepsPerOne := by
  rw [← truncate_div, Int.cast_natCast]
  rfl

/-! ## What calls give -/

/-- **Integer division truncates toward zero.** On every kind with integer arithmetic, quotient and remainder trap on the
same operands: on a zero divisor, with the message for that whatever the dividend is, and in kinds with a sign on the
least value divided by -1. On all other operands there are a quotient and a remainder: exactly `x = q * y + r`, with a
remainder that is smaller than the divisor and zero or of the sign of `x`, and a quotient that is `x / y` truncated toward
zero. And multiplying and adding in the kind gives back `x`. -/
theorem integer_division_truncates (k : IntKind) (hk : (Kind.int k).isInteger = true) (x y : BitVec k.bits) :
    let quotient := Operator.div.apply (.int k) [.int k x, .int k y]
    let remainder := Operator.mod.apply (.int k) [.int k x, .int k y]
    ((∃ t, quotient = some (.error t)) ↔ k.Indivisible x y) ∧
    ((∃ t, remainder = some (.error t)) ↔ k.Indivisible x y) ∧
    (k.value y = 0 → quotient = some (.error .divideByZero) ∧ remainder = some (.error .remainderByZero)) ∧
    (k.value y ≠ 0 → k.Indivisible x y →
      quotient = some (.error .divideOverflow) ∧ remainder = some (.error .remainderOverflow)) ∧
    (¬ k.Indivisible x y → ∃ q r : BitVec k.bits, quotient = some (.ok (.int k q)) ∧
      remainder = some (.ok (.int k r)) ∧ k.IsDivision x y q r ∧
      ∃ p, Operator.mul.apply (.int k) [.int k q, .int k y] = some (.ok p) ∧
        Operator.add.apply (.int k) [p, .int k r] = some (.ok (.int k x))) := by
  intro quotient remainder
  have happly : ∀ (op : Operator) (v w : BitVec k.bits), op.arity = 2 →
      op.apply (.int k) [.int k v, .int k w] = op.onInts k v w := fun op v w hop =>
    Operator.apply_ints (Operator.isLinked_of_isInteger hk hop) v w
  have hquotient : quotient = some ((k.div x y).map (.int k)) := happly .div x y rfl
  have hremainder : remainder = some ((k.mod x y).map (.int k)) := happly .mod x y rfl
  rw [hquotient, hremainder]
  rcases IntKind.division_cases x y with ⟨hy, hdiv, hmod⟩ | ⟨hy, htraps, hdiv, hmod⟩ | ⟨hfree, q, r, hdiv, hmod, hqr⟩
  · have htraps : k.Indivisible x y := Or.inl hy
    simp [hdiv, hmod, hy, htraps, Except.map]
  · simp [hdiv, hmod, hy, htraps, Except.map]
  · have hy : k.value y ≠ 0 := fun h => hfree (Or.inl h)
    simp only [hdiv, hmod, Except.map, hfree, hy]
    refine ⟨by simp, by simp, by simp, by simp, fun _ => ⟨q, r, rfl, rfl, hqr, _, happly .mul q y rfl, ?_⟩⟩
    rw [happly .add _ _ rfl, Operator.onInts, hqr.mul_add_eq]

/-- a negative dividend, and the one quotient that is too great -/
theorem integer_division_truncates_negative :
    (Kind.int .i32).isInteger = true ∧
    (∃ q r : BitVec 32, Operator.div.apply (.int .i32) [.int .i32 (-7), .int .i32 2] = some (.ok (.int .i32 q)) ∧
      Operator.mod.apply (.int .i32) [.int .i32 (-7), .int .i32 2] = some (.ok (.int .i32 r)) ∧
      IntKind.i32.value q = -3 ∧ IntKind.i32.value r = -1) ∧
    Operator.mod.apply (.int .i32) [.int .i32 0x80000000, .int .i32 (-1)] = some (.error .remainderOverflow) := by
  have hx : IntKind.i32.value (-7) = -7 := by decide
  have hy : IntKind.i32.value 2 = 2 := by decide
  have hdivisible : ¬ IntKind.i32.Indivisible (-7) 2 := by
    intro htraps
    rcases htraps with hzero | ⟨-, -, hminus⟩
    · rw [hy] at hzero
      omega
    · rw [hy] at hminus
      omega
  obtain ⟨-, -, -, -, hdivision⟩ := integer_division_truncates .i32 rfl (-7) 2
  obtain ⟨q, r, hdiv, hmod, hqr, -⟩ := hdivision hdivisible
  have hq : IntKind.i32.value q = -3 := by
    have hquotient := hqr.quotient
    rw [hx, hy, truncate_div] at hquotient
    exact hquotient
  have hr : IntKind.i32.value r = -1 := by
    have hexact := hqr.exact
    rw [hx, hy, hq] at hexact
    omega
  obtain ⟨-, -, -, hoverflow, -⟩ := integer_division_truncates .i32 rfl 0x80000000 (-1)
  exact ⟨rfl, ⟨q, r, hdiv, hmod, hq, hr⟩, (hoverflow (by decide) (Or.inr (by decide))).2⟩

/-- **A cast of a float to an integer truncates, then clamps.** From every bit pattern to every integer kind and to
`char`, the cast gives a value: zero for NaN, the end of the range on its side for an infinity, and for a finite pattern
its exact value truncated toward zero and then brought into the range. -/
theorem float_cast_truncates_and_clamps (a : FloatKind) (b : IntKind) (x : BitVec a.bits) :
    ∃ y : BitVec b.bits, (Symbol.cast (.float a) (.int b)).apply [.float a x] = some (.ok (.int b y)) ∧
      (a.isNaN x = true → b.value y = 0) ∧
      (a.isInfinite x = true → b.value y = if a.negative x then b.minValue else b.maxValue) ∧
      (a.isFinite x = true → b.value y = max b.minValue (min b.maxValue (truncate (a.toRat x)))) := by
  have hmin := b.minValue_nonpos
  have hmax := b.maxValue_pos
  refine ⟨a.toInt b x, by simp [Symbol.apply, Scalar.kind, Scalar.cast], ?_, ?_, ?_⟩
  · intro hnan
    rw [FloatKind.toInt, if_pos hnan]
    exact IntKind.value_wrap hmin hmax.le
  · intro hinf
    have hnumber : ¬ a.isNaN x = true := fun hnan => absurd hinf (by simp [FloatKind.isInfinite_of_isNaN hnan])
    rw [FloatKind.toInt, if_neg hnumber, if_pos hinf]
    split
    · exact IntKind.value_wrap le_rfl (by omega)
    · exact IntKind.value_wrap (by omega) le_rfl
  · intro hfinite
    obtain ⟨hnumber, hbounded⟩ := (a.isFinite_eq_true_iff x).1 hfinite
    rw [FloatKind.toInt, hnumber, hbounded, FloatKind.truncate_toRat]
    exact b.value_clamp _

/-- the greatest narrow float below 2^31 and the next one, which no `i32` can hold -/
theorem float_cast_truncates_and_clamps_end :
    (∃ y : BitVec 32, (Symbol.cast (.float .f32) (.int .i32)).apply [.float .f32 0x4EFFFFFF] = some (.ok (.int .i32 y)) ∧
      IntKind.i32.value y = 2147483520) ∧
    (∃ y : BitVec 32, (Symbol.cast (.float .f32) (.int .i32)).apply [.float .f32 0x4F000000] = some (.ok (.int .i32 y)) ∧
      IntKind.i32.value y = 2147483647) := by
  obtain ⟨y, hy, -, -, hfinite⟩ := float_cast_truncates_and_clamps .f32 .i32 0x4EFFFFFF
  obtain ⟨z, hz, -, -, hfinite'⟩ := float_cast_truncates_and_clamps .f32 .i32 0x4F000000
  refine ⟨⟨y, hy, ?_⟩, ⟨z, hz, ?_⟩⟩
  · rw [hfinite (by decide +kernel), FloatKind.truncate_toRat]
    decide +kernel
  · rw [hfinite' (by decide +kernel), FloatKind.truncate_toRat]
    decide +kernel

end CallSurface
