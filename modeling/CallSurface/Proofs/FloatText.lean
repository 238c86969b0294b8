/-
The text of a float is the correctly rounded decimal with six places.

A finite magnitude is written as a whole number of millionths, `lastPlaceUnits`, which is the quotient of steps and
`stepsPerOne` rounded to the nearest whole number. Its digits without the point denote this number again, so rounding
the quotient is rounding the exact value among the multiples of a millionth, and the last digit is even exactly if the
number of millionths is.

The narrow kind is written without a detour. Its text is nevertheless the text of the wide pattern that stands for the
same (`Widens.text_eq`): widening multiplies steps and `stepsPerOne` by one power of two, and rounding a quotient sees the
quotient only (`roundDiv_mul_mul`).

Main result: `float_text_is_nearest_decimal`.
-/
import CallSurface.Proofs.OrderedCast
import CallSurface.Proofs.ScannedDecimal

namespace CallSurface

theorem roundDiv_mul_mul (n d : ℕ) {c : ℕ} (hc : 0 < c) : roundDiv (n * c) (d * c) = roundDiv n d := by
  have hlt : ∀ a b : ℕ, 2 * (a * c) < b * c ↔ 2 * a < b := fun a b => by
    rw [← Nat.mul_assoc, Nat.mul_lt_mul_right hc]
  have hgt : ∀ a b : ℕ, b * c < 2 * (a * c) ↔ b < 2 * a := fun a b => by
    rw [← Nat.mul_assoc, Nat.mul_lt_mul_right hc]
  simp only [roundDiv, Nat.mul_div_mul_right _ _ hc, Nat.mul_mod_mul_right, hlt, hgt]

/-- the multiples of a millionth -/
def millionths : Set ℚ :=
  {b | ∃ j : ℤ, b = j / 10 ^ 6}

namespace FloatKind

variable {k : FloatKind} {x : BitVec k.bits}

/-! ## Six places -/

/-- the numeral that a finite float is written as -/
def textNumeral (k : FloatKind) (x : BitVec k.bits) : Numeral where
  sign := signByte (k.negative x)
  whole := Decimal.digits (k.lastPlaceUnits x / tenPow textPlaces)
  places := some (Decimal.lastDigits textPlaces (k.lastPlaceUnits x))
  exponent := none
  sign_formed := all_isSign_signByte _
  whole_formed := Decimal.all_isDigit_digits _
  places_formed := by
    rintro _ ⟨⟩
    exact Decimal.all_isDigit_lastDigits _ _
  exponent_formed := by
    rintro _ ⟨⟩

theorem text_textNumeral (hx : k.code x < k.infinityCode) : (k.textNumeral x).text = k.text x := by
  rw [text_eq, magnitudeText_of_finite hx]
  simp [textNumeral, Numeral.text, Numeral.unsigned, Decimal.fixed, asciiBytes]

theorem toRat_textNumeral (k : FloatKind) (x : BitVec k.bits) :
    (k.textNumeral x).toRat = signed (k.negative x) (k.lastPlaceUnits x) / tenPow textPlaces := by
  have hexponent : -(textPlaces : ℤ) = ((k.textNumeral x).exponent.map Exponent.written).getD 0 -
      ((k.textNumeral x).places.getD []).length := by
    simp [textNumeral, Decimal.length_lastDigits]
  have hunits : Decimal.ofDigits (k.textNumeral x).mantissa = k.lastPlaceUnits x := Decimal.ofDigits_fixed _ _
  have hsign : (k.textNumeral x).sign.any isMinus = k.negative x := any_isMinus_signByte _
  have hone : tenPow (-(textPlaces : ℤ)).toNat = 1 := rfl
  rw [(k.textNumeral x).toRat_eq_signed Nat.one_pos hexponent, hunits, hsign, hone, Nat.mul_one, Nat.mul_one, neg_neg,
    Int.toNat_natCast, Nat.cast_one, mul_one]

/-- the last digit tells whether the number of millionths is even -/
theorem even_lastDigit {u : ℕ} (h : Even u) :
    ∃ b ∈ (Decimal.lastDigits textPlaces u).getLast?, Even (Decimal.digitValue b) := by
  refine ⟨Decimal.digitByte (u % 10), by simp [textPlaces, Decimal.lastDigits], ?_⟩
  rw [Decimal.digitValue_digitByte (Nat.mod_lt u (by decide)), Nat.even_iff]
  rw [Nat.even_iff] at h
  omega

/-- **The text is the nearest multiple of a millionth**, and of two that are equally near the one with the even digit. -/
theorem roundsTo_textNumeral (k : FloatKind) (x : BitVec k.bits) :
    RoundsTo millionths (∃ b ∈ (Decimal.lastDigits textPlaces (k.lastPlaceUnits x)).getLast?, Even (Decimal.digitValue b))
      (k.toRat x) (k.textNumeral x).toRat := by
  have hmillion : (tenPow textPlaces : ℚ) = 10 ^ 6 := by norm_num [tenPow_eq, textPlaces]
  have hvalue : k.toRat x =
      signed (k.negative x) (k.steps x * tenPow textPlaces) / (k.stepsPerOne * tenPow textPlaces) := by
    have hpos : (tenPow textPlaces : ℚ) ≠ 0 := Nat.cast_ne_zero.2 (tenPow_pos _).ne'
    rw [← signed_mul, Int.cast_mul, Int.cast_natCast, mul_div_mul_right _ _ hpos]
    exact toRat_eq x
  rw [hvalue, toRat_textNumeral]
  refine roundsTo_signed (tenPow_pos _) k.stepsPerOne_pos _ ?_ ?_ (Set.mem_univ 0) ?_ ?_
  · exact ⟨signed (k.negative x) (k.lastPlaceUnits x), by rw [hmillion]⟩
  · rintro _ ⟨j, rfl⟩
    exact ⟨decide (j < 0), j.natAbs, trivial, by rw [signed_natAbs, hmillion]⟩
  · intro m _
    exact dist_roundDiv_le _ k.stepsPerOne_pos m
  · intro m _ hne htie
    exact even_lastDigit (even_roundDiv_of_tie k.stepsPerOne_pos hne htie)

/-! ## The narrow kind -/

/-- the wide pattern stands for the same as the narrow one, with the same sign: the same exact value, infinity or NaN -/
structure Widens (x : BitVec f32.bits) (y : BitVec f64.bits) : Prop where
  sign : f64.negative y = f32.negative x
  nan : f64.isNaN y = f32.isNaN x
  infinite : f64.isInfinite y = f32.isInfinite x
  value : f32.isFinite x = true → f64.toRat y = f32.toRat x

variable {x : BitVec f32.bits} {y : BitVec f64.bits}

theorem stepsPerOne_widened : f64.stepsPerOne = f32.stepsPerOne * twoPow 925 := by
  decide +kernel

/-- steps of the two kinds that make the same value -/
theorem div_stepsPerOne_eq_iff {m n : ℚ} :
    m / f64.stepsPerOne = n / f32.stepsPerOne ↔ m * f32.stepsPerOne = n * f64.stepsPerOne :=
  div_eq_div_iff f64.stepsPerOne_cast_pos.ne' f32.stepsPerOne_cast_pos.ne'

/-- patterns of one value are written with the same number of millionths -/
theorem Widens.lastPlaceUnits_eq (h : Widens x y) (hx : f32.isFinite x = true) :
    f64.lastPlaceUnits y = f32.lastPlaceUnits x := by
  have habs := congrArg abs (h.value hx)
  rw [abs_toRat, abs_toRat, div_stepsPerOne_eq_iff] at habs
  have hcross : f64.steps y * f32.stepsPerOne = f32.steps x * f64.stepsPerOne := by exact_mod_cast habs
  have hsteps : f64.steps y = f32.steps x * twoPow 925 := by
    apply Nat.eq_of_mul_eq_mul_right f32.stepsPerOne_pos
    rw [hcross, stepsPerOne_widened]
    ring
  rw [lastPlaceUnits, lastPlaceUnits, hsteps, stepsPerOne_widened, Nat.mul_right_comm]
  exact roundDiv_mul_mul _ _ (twoPow_pos 925)

theorem Widens.isFinite (h : Widens x y) (hx : f32.isFinite x = true) : f64.isFinite y = true := by
  rw [isFinite_eq_true_iff, h.nan, h.infinite, ← isFinite_eq_true_iff]
  exact hx

/-- **The narrow kind is written like the wide one.** -/
theorem Widens.text_eq (h : Widens x y) : f32.text x = f64.text y := by
  have hmagnitude : f32.magnitudeText x = f64.magnitudeText y := by
    by_cases hx : f32.isFinite x = true
    · rw [magnitudeText_of_finite (of_decide_eq_true hx), magnitudeText_of_finite (of_decide_eq_true (h.isFinite hx)),
        h.lastPlaceUnits_eq hx]
    · rw [isFinite_eq_true_iff, not_and_or, Bool.not_eq_false, Bool.not_eq_false] at hx
      unfold magnitudeText
      rw [h.nan, h.infinite]
      rcases hx with hnan | hinf
      · rw [if_pos hnan, if_pos hnan]
      · rw [if_pos hinf, if_pos hinf]
  rw [FloatKind.text_eq, FloatKind.text_eq, h.sign, hmagnitude]

theorem codeSteps_widenedCode {c : ℕ} (hc : c < f32.infinityCode) :
    f64.codeSteps (widenedCode c) * f32.stepsPerOne = f32.codeSteps c * f64.stepsPerOne := by
  obtain ⟨c', hc', hsteps⟩ := exact_widened hc
  rw [widenedCode, if_neg hc.ne, nearestCode_of_exact f32.stepsPerOne_pos hc' hsteps, hsteps]

/-- every pattern but a NaN is widened by the cast -/
theorem widens_toFloat (hx : f32.isNaN x = false) : Widens x (f32.toFloat f64 x) := by
  have hle : f32.code x ≤ f32.infinityCode := by simpa [isNaN] using hx
  have hwide := widenedCode_le hle
  have hlt := hwide.trans_lt f64.infinityCode_lt_signBit
  rw [toFloat_eq_ofCode hx]
  refine ⟨negative_ofCode _ hlt, ?_, ?_, ?_⟩
  · rw [hx, isNaN, code_ofCode _ hlt]
    exact decide_eq_false (Nat.not_lt.2 hwide)
  · rw [isInfinite, isInfinite, code_ofCode _ hlt]
    rcases hle.lt_or_eq with hfinite | hinf
    · rw [beq_eq_false_iff_ne.2 hfinite.ne, beq_eq_false_iff_ne.2 (widenedCode_lt hfinite).ne]
    · rw [hinf, widenedCode, if_pos rfl, beq_self_eq_true, beq_self_eq_true]
  · intro hfinite
    have hsteps := codeSteps_widenedCode (of_decide_eq_true hfinite)
    rw [toRat_ofCode _ hlt, toRat_eq, div_stepsPerOne_eq_iff]
    have hsigned := congrArg (signed (f32.negative x)) hsteps
    rw [← signed_mul, ← signed_mul] at hsigned
    exact_mod_cast hsigned

theorem exists_widens (x : BitVec f32.bits) : ∃ y, Widens x y := by
  by_cases hx : f32.isNaN x = true
  · -- a NaN is widened to a NaN of its sign
    have hcode := code_ofCode (f32.negative x) f64.nanCode_lt_signBit
    have hsign := negative_ofCode (f32.negative x) f64.nanCode_lt_signBit
    have hnan : f64.isNaN (f64.nanWithSign (f32.negative x)) = true := by
      rw [isNaN, nanWithSign, hcode]
      exact decide_eq_true (Nat.lt_add_of_pos_right (twoPow_pos _))
    refine ⟨f64.nanWithSign (f32.negative x), hsign, hnan.trans hx.symm, ?_, ?_⟩
    · rw [isInfinite_of_isNaN hnan, isInfinite_of_isNaN hx]
    · intro hfinite
      rw [isFinite_eq_true_iff, hx] at hfinite
      exact absurd hfinite.1 (by decide)
  · exact ⟨_, widens_toFloat (Bool.eq_false_of_not_eq_true hx)⟩

end FloatKind

/-- **The text of a float is the correctly rounded decimal with six places.** The text of a finite float is a minus sign
exactly if the sign bit is set, then digits without superfluous zeros in front, a point and six digits; of all multiples of
a millionth it denotes the one nearest to the exact value, and of two that are equally near the one whose last digit is
even. The text of a narrow float, finite or not, is that of the wide float which stands for the same: the same exact value,
infinity or NaN, of the same sign. Every narrow float has such a wide one. -/
theorem float_text_is_nearest_decimal :
    (∀ (k : FloatKind) (x : BitVec k.bits), k.isFinite x = true → ∃ (n : Numeral) (places : Bytes),
      (Scalar.float k x).text = n.text ∧ n.sign = (if k.negative x then some 45 else none) ∧
      (n.whole ≠ [] ∧ (n.whole.head? = some 48 → n.whole = [48])) ∧ (n.places = some places ∧ places.length = 6) ∧
      n.exponent = none ∧
      RoundsTo millionths (∃ b ∈ places.getLast?, Even (Decimal.digitValue b)) (k.toRat x) n.toRat) ∧
    ∀ x : BitVec FloatKind.f32.bits, (∃ y, FloatKind.Widens x y) ∧
      ∀ y, FloatKind.Widens x y → (Scalar.float .f32 x).text = (Scalar.float .f64 y).text := by
  refine ⟨?_, fun x => ⟨FloatKind.exists_widens x, fun y h => h.text_eq⟩⟩
  intro k x hfinite
  refine ⟨k.textNumeral x, _, (FloatKind.text_textNumeral (of_decide_eq_true hfinite)).symm, rfl,
    ⟨Decimal.digits_ne_nil _, ?_⟩, ⟨rfl, Decimal.length_lastDigits _ _⟩, rfl, k.roundsTo_textNumeral x⟩
  intro hhead
  have hzero : k.lastPlaceUnits x / tenPow FloatKind.textPlaces = 0 := Decimal.eq_zero_of_head?_digits hhead
  show Decimal.digits (k.lastPlaceUnits x / tenPow FloatKind.textPlaces) = [48]
  rw [hzero, Decimal.digits_of_lt (by decide)]
  rfl

/-- a tie at the last place, which goes to the even digit, and a narrow NaN with its sign -/
theorem float_text_is_nearest_decimal_tie :
    let x : BitVec FloatKind.f64.bits := 0xBF80000000000000
    let z : BitVec FloatKind.f32.bits := 0xFFC00001
    (FloatKind.f64.isFinite x = true ∧ (Scalar.float .f64 x).text = asciiBytes "-0.007812" ∧
      ∃ (n : Numeral) (places : Bytes), (Scalar.float .f64 x).text = n.text ∧
        RoundsTo millionths (∃ b ∈ places.getLast?, Even (Decimal.digitValue b)) (FloatKind.f64.toRat x) n.toRat) ∧
    ((Scalar.float .f32 z).text = asciiBytes "-nan" ∧
      ∃ y, FloatKind.Widens z y ∧ (Scalar.float .f32 z).text = (Scalar.float .f64 y).text) := by
  intro x z
  have hfinite : FloatKind.f64.isFinite x = true := by decide +kernel
  obtain ⟨n, places, htext, -, -, -, -, hrounds⟩ := float_text_is_nearest_decimal.1 .f64 x hfinite
  obtain ⟨⟨y, hy⟩, hwide⟩ := float_text_is_nearest_decimal.2 z
  exact ⟨⟨hfinite, by decide +kernel, n, places, htext, hrounds⟩, by decide +kernel, y, hy, hwide y hy⟩

end CallSurface
