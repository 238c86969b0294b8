/-
Correct rounding, over exact rationals.

`RoundsTo values even v a` is what rounding to nearest means for any set of values: `a` is one of them, none is nearer to
`v`, and where another one is just as near, `even` holds. `FloatKind.IsNearest` says the same of a bit pattern, with the
two things that a set of values cannot say: magnitudes from `overflowFrom` on are rounded to infinity, and zero has a sign.

- `roundsTo_signed`: it is enough to round magnitudes. A value of the other sign is nearer only if it is zero.
- `even_roundDiv_of_tie`, `even_roundCode_of_tie`: ties go to the even number, and to the even code. A code is even exactly
  if its significand is (`even_significand_iff`).
- `infinityCode_le_roundCode_iff`: the greatest finite code is odd, so the midpoint beyond it belongs to infinity.
- `isNearest_nearest`, `IsNearest.eq`: `nearest` gives such a bit pattern, and there is only one. A finite value is
  rounded to itself (`isNearest_self`).

`AnswersNearest` says of the answer of a call that it is this one bit pattern.
-/
import CallSurface.Integer
import CallSurface.Scalar
import CallSurface.Proofs.ExactValue

namespace CallSurface

/-! ## Rounding to nearest -/

/-- `a` is one of the values at least distance from `v`; where another one is just as near, `even` holds -/
structure RoundsTo (values : Set ℚ) (even : Prop) (v a : ℚ) : Prop where
  mem : a ∈ values
  nearest : ∀ b ∈ values, |a - v| ≤ |b - v|
  tie : ∀ b ∈ values, b ≠ a → |b - v| = |a - v| → even

/-- the distance of two signed quotients, as a whole number of parts of the common denominator -/
theorem abs_signed_sub {u d : ℕ} (hu : 0 < u) (hd : 0 < d) (p q : Bool) (m n : ℕ) :
    |(signed q m : ℚ) / u - signed p n / (d * u)| = (signed q m * d - signed p n).natAbs / (d * u) := by
  have hu' : (u : ℚ) ≠ 0 := Nat.cast_ne_zero.2 hu.ne'
  have hd' : (d : ℚ) ≠ 0 := Nat.cast_ne_zero.2 hd.ne'
  have hpos : (0 : ℚ) ≤ d * u := by positivity
  have hcommon : (signed q m : ℚ) / u - signed p n / (d * u) = ((signed q m * d - signed p n : ℤ) : ℚ) / (d * u) := by
    push_cast
    field_simp
  rw [hcommon, abs_div, abs_of_nonneg hpos, Nat.cast_natAbs, Int.cast_abs]

theorem natAbs_signed_sub_self (p : Bool) (m n : ℕ) : (signed p m - signed p n).natAbs = Nat.dist m n := by
  unfold signed Nat.dist
  cases p <;> simp only [Bool.false_eq_true, if_true, if_false] <;> omega

theorem natAbs_signed_sub_of_ne {p q : Bool} (h : q ≠ p) (m n : ℕ) : (signed q m - signed p n).natAbs = m + n := by
  unfold signed
  cases p <;> cases q <;> simp only [Bool.false_eq_true, if_true, if_false, ne_eq, not_true_eq_false] at h ⊢ <;> omega

theorem signed_inj {p : Bool} {m n : ℕ} : signed p m = signed p n ↔ m = n := by
  unfold signed
  split_ifs <;> omega

theorem signed_mul (p : Bool) (m d : ℕ) : signed p m * d = signed p (m * d) := by
  unfold signed
  split_ifs <;> push_cast <;> ring

/-- **Rounding a magnitude rounds the signed value.** Let all values be signed multiples of `1 / u`, with magnitudes among
`magnitudes`, and let `a` be a nearest one to `n / d`. Then `a` with the sign is a nearest value to `n / d` with the
sign. -/
theorem roundsTo_signed {values : Set ℚ} {magnitudes : Set ℕ} {even : Prop} {u d n a : ℕ} (hu : 0 < u) (hd : 0 < d)
    (p : Bool) (hmem : (signed p a : ℚ) / u ∈ values)
    (hvalues : ∀ b ∈ values, ∃ q, ∃ m ∈ magnitudes, b = signed q m / u) (hzero : 0 ∈ magnitudes)
    (hnear : ∀ m ∈ magnitudes, Nat.dist (a * d) n ≤ Nat.dist (m * d) n)
    (htie : ∀ m ∈ magnitudes, m ≠ a → Nat.dist (m * d) n = Nat.dist (a * d) n → even) :
    RoundsTo values even (signed p n / (d * u)) (signed p a / u) := by
  have hpos : (0 : ℚ) < d * u := by positivity
  have hself : Nat.dist (a * d) n ≤ n := by
    have h := hnear 0 hzero
    rwa [Nat.zero_mul, Nat.dist_comm 0, Nat.dist_zero_right] at h
  refine ⟨hmem, ?_, ?_⟩
  · intro b hb
    obtain ⟨q, m, hm, rfl⟩ := hvalues b hb
    rw [abs_signed_sub hu hd, abs_signed_sub hu hd, div_le_div_iff_of_pos_right hpos, Nat.cast_le, signed_mul, signed_mul,
      natAbs_signed_sub_self]
    by_cases hsign : q = p
    · rw [hsign, natAbs_signed_sub_self]
      exact hnear m hm
    · rw [natAbs_signed_sub_of_ne hsign]
      omega
  · intro b hb hne heq
    obtain ⟨q, m, hm, rfl⟩ := hvalues b hb
    rw [abs_signed_sub hu hd, abs_signed_sub hu hd, div_left_inj' hpos.ne', Nat.cast_inj, signed_mul, signed_mul,
      natAbs_signed_sub_self] at heq
    by_cases hsign : q = p
    · rw [hsign, natAbs_signed_sub_self] at heq
      refine htie m hm ?_ heq
      rintro rfl
      exact hne (by rw [hsign])
    · -- a value of the other sign can only be as near if it is zero, and zero has both signs
      rw [natAbs_signed_sub_of_ne hsign] at heq
      have hm0 : m * d = 0 := by omega
      obtain rfl : m = 0 := (Nat.mul_eq_zero.1 hm0).resolve_right hd.ne'
      refine htie 0 hm ?_ (by rw [Nat.zero_mul, Nat.dist_comm 0, Nat.dist_zero_right]; omega)
      rintro rfl
      have hsigned : ∀ s, signed s 0 = 0 := by decide
      exact hne (by rw [hsigned, hsigned])

/-! ## Ties -/

/-- what is rounded by just half a unit becomes even -/
theorem even_roundDiv_of_half {n d : ℕ} (hd : 0 < d) (h : 2 * Nat.dist (roundDiv n d * d) n = d) :
    Even (roundDiv n d) := by
  have hn := Nat.div_add_mod' n d
  have hr := Nat.mod_lt n hd
  have hq : (n / d + 1) * d = n / d * d + d := Nat.succ_mul _ _
  rw [Nat.even_iff]
  unfold roundDiv Nat.dist at *
  dsimp only at *
  split_ifs at * <;> omega

/-- a whole number that is just as near goes with an even one -/
theorem even_roundDiv_of_tie {n d m : ℕ} (hd : 0 < d) (hne : m ≠ roundDiv n d)
    (h : Nat.dist (m * d) n = Nat.dist (roundDiv n d * d) n) : Even (roundDiv n d) := by
  have hround := two_mul_dist_roundDiv_le n hd
  have hfar : ¬ 2 * Nat.dist (m * d) n < d := fun hlt => hne (roundDiv_eq_of_dist_lt hlt).symm
  exact even_roundDiv_of_half hd (by omega)

namespace FloatKind

variable (k : FloatKind)

theorem even_codesPerExponent : Even k.codesPerExponent := by
  cases k <;> decide

/-- a code that is just as near goes with an even one -/
theorem even_roundCode_of_tie {n d c : ℕ} (hd : 0 < d) (hne : c ≠ k.roundCode n d)
    (h : Nat.dist (k.codeSteps c * d) n = Nat.dist (k.codeSteps (k.roundCode n d) * d) n) : Even (k.roundCode n d) := by
  obtain ⟨-, hbinade⟩ := k.exponentOf_spec n hd
  have hround := k.codeSteps_roundCode n hd
  have hdiff : k.codeSteps c ≠ k.codeSteps (k.roundCode n d) := k.codeSteps_strictMono.injective.ne hne
  have hcode : Even (roundDiv n (d * twoPow (k.exponentOf n d))) → Even (k.roundCode n d) := fun heven =>
    (k.even_codesPerExponent.mul_left _).add heven
  generalize k.exponentOf n d = q at hbinade hround hcode
  have hunit : 0 < d * twoPow q := Nat.mul_pos hd (twoPow_pos q)
  have hscale : ∀ j, j * twoPow q * d = j * (d * twoPow q) := fun j => by ring
  -- on the multiples of the unit of the exponent this is a tie between whole numbers
  have hmultiple : ∀ j, k.codeSteps c = j * twoPow q → Even (k.roundCode n d) := by
    intro j hj
    refine hcode (even_roundDiv_of_tie (m := j) hunit ?_ ?_)
    · rintro rfl
      exact hdiff (hj.trans hround.symm)
    · rw [← hscale, ← hscale, ← hj, ← hround]
      exact h
  rcases k.codeSteps_multiple_or_lt q c with ⟨j, hj⟩ | hlow
  · exact hmultiple j hj
  · rcases hbinade with rfl | hbinade
    · exact hmultiple (k.codeSteps c) (Nat.mul_one _).symm
    · -- below the binade a code is farther away than the least significand of the binade
      exfalso
      have hleast := dist_roundDiv_le n hunit k.codesPerExponent
      have hbelow : k.codeSteps c * d < k.codesPerExponent * (d * twoPow q) := by
        rw [← hscale]
        exact Nat.mul_lt_mul_of_pos_right hlow hd
      rw [← hscale, ← hround, ← h] at hleast
      unfold Nat.dist at hleast
      omega

/-! ## Overflow -/

/-- magnitudes from here on are rounded to infinity: half way from the greatest finite value to the power of two that
would be next -/
def overflowFrom : FloatKind → ℕ
  | f32 => 2 ^ 128 - 2 ^ 103
  | f64 => 2 ^ 1024 - 2 ^ 970

/-- the code of infinity stands for the power of two that would be next -/
theorem overflowFrom_eq :
    2 * (k.overflowFrom * k.stepsPerOne) = k.codeSteps (k.infinityCode - 1) + k.codeSteps k.infinityCode := by
  cases k <;> decide +kernel

theorem infinityCode_pos : 0 < k.infinityCode := by
  cases k <;> decide

theorem not_even_greatestCode : ¬ Even (k.infinityCode - 1) := by
  cases k <;> decide

theorem infinityCode_le_roundCode_iff (n : ℕ) {d : ℕ} (hd : 0 < d) :
    k.infinityCode ≤ k.roundCode n d ↔ k.overflowFrom * (d * k.stepsPerOne) ≤ n := by
  have hpos := k.infinityCode_pos
  have hmid : 2 * (k.overflowFrom * (d * k.stepsPerOne)) =
      k.codeSteps (k.infinityCode - 1) * d + k.codeSteps k.infinityCode * d := by
    rw [← Nat.add_mul, ← k.overflowFrom_eq]
    ring
  have hgap : k.codeSteps (k.infinityCode - 1) * d < k.codeSteps k.infinityCode * d :=
    Nat.mul_lt_mul_of_pos_right (k.codeSteps_strictMono (by omega)) hd
  constructor
  · intro hinf
    -- a quotient below the midpoint is nearer to the greatest finite value
    have hbeyond : k.codeSteps k.infinityCode * d ≤ k.codeSteps (k.roundCode n d) * d :=
      Nat.mul_le_mul_right d (k.codeSteps_strictMono.monotone hinf)
    have hnear := k.dist_roundCode_le n hd (k.infinityCode - 1)
    unfold Nat.dist at hnear
    omega
  · intro hle
    by_contra hfinite
    have hbelow : k.codeSteps (k.roundCode n d) * d ≤ k.codeSteps (k.infinityCode - 1) * d :=
      Nat.mul_le_mul_right d (k.codeSteps_strictMono.monotone (by omega))
    have hnear := k.dist_roundCode_le n hd k.infinityCode
    -- only the midpoint itself is left: a tie, which the greatest finite value loses because its code is odd
    have htie : Nat.dist (k.codeSteps k.infinityCode * d) n = Nat.dist (k.codeSteps (k.roundCode n d) * d) n := by
      unfold Nat.dist at hnear ⊢
      omega
    have hgreatest : k.codeSteps (k.roundCode n d) * d = k.codeSteps (k.infinityCode - 1) * d := by
      unfold Nat.dist at hnear
      omega
    have hcode : k.roundCode n d = k.infinityCode - 1 :=
      k.codeSteps_strictMono.injective (Nat.eq_of_mul_eq_mul_right hd hgreatest)
    have heven := k.even_roundCode_of_tie hd (by omega) htie
    rw [hcode] at heven
    exact k.not_even_greatestCode heven

/-! ## Bit patterns -/

/-- the significand: the fraction field, with a leading one unless the exponent field is clear -/
def significand (x : BitVec k.bits) : ℕ :=
  if k.code x / k.codesPerExponent = 0 then k.code x % k.codesPerExponent
  else k.codesPerExponent + k.code x % k.codesPerExponent

theorem steps_eq_significand (x : BitVec k.bits) :
    k.steps x = k.significand x * twoPow (k.code x / k.codesPerExponent - 1) := by
  unfold steps codeSteps significand
  dsimp only
  split_ifs with hsub
  · rw [hsub]
    exact (Nat.mul_one _).symm
  · rfl

/-- **The exact value by fields.** A finite value is its signed significand at the exponent field without the bias;
subnormals share the exponent of the least normal values. -/
theorem toRat_eq_significand (x : BitVec k.bits) :
    k.toRat x = signed (k.negative x) (k.significand x) *
      2 ^ ((max 1 (k.code x / k.codesPerExponent) : ℕ) - (2 ^ (k.exponentBits - 1) - 1 : ℤ) - k.fractionBits) := by
  have hscale : (k.scale : ℤ) = (2 ^ (k.exponentBits - 1) - 1) - 1 + k.fractionBits := by
    cases k <;> decide
  have hsteps : k.signedSteps x =
      signed (k.negative x) (k.significand x) * twoPow (k.code x / k.codesPerExponent - 1) := by
    rw [signed_mul, ← steps_eq_significand]
    rfl
  have hpow : (twoPow (k.code x / k.codesPerExponent - 1) : ℚ) / k.stepsPerOne =
      2 ^ ((max 1 (k.code x / k.codesPerExponent) : ℕ) - (2 ^ (k.exponentBits - 1) - 1 : ℤ) - k.fractionBits) := by
    rw [stepsPerOne, twoPow_eq, twoPow_eq, Nat.cast_pow, Nat.cast_pow, Nat.cast_ofNat, ← zpow_natCast, ← zpow_natCast,
      ← zpow_sub₀ two_ne_zero, hscale]
    congr 1
    generalize (2 : ℤ) ^ (k.exponentBits - 1) = b
    omega
  rw [toRat, hsteps, Int.cast_mul, Int.cast_natCast, mul_div_assoc, hpow]

theorem even_significand_iff (x : BitVec k.bits) : Even (k.significand x) ↔ Even (k.code x) := by
  have hcode := Nat.div_add_mod (k.code x) k.codesPerExponent
  have hfield : Even (k.codesPerExponent * (k.code x / k.codesPerExponent)) := k.even_codesPerExponent.mul_right _
  have hfraction : Even (k.code x) ↔ Even (k.code x % k.codesPerExponent) := by
    rw [← hcode, Nat.even_add, hcode]
    exact iff_of_eq (by simp [hfield])
  unfold significand
  split_ifs
  · exact hfraction.symm
  · rw [Nat.even_add, hfraction]
    simp [k.even_codesPerExponent]

/-- the exact values of the finite patterns -/
def finiteValues : Set ℚ :=
  {a | ∃ y : BitVec k.bits, k.isFinite y = true ∧ k.toRat y = a}

/-- `x` is the bit pattern that the exact value `v` is rounded to. A magnitude from `overflowFrom` on becomes infinite;
any other becomes the nearest finite value, subnormals and zeros included, and of two that are equally near the one with
the even significand. The sign is `neg`, also on zero. -/
structure IsNearest (neg : Bool) (v : ℚ) (x : BitVec k.bits) : Prop where
  sign : k.negative x = neg
  number : k.isNaN x = false
  overflow : k.isInfinite x = true ↔ (k.overflowFrom : ℚ) ≤ |v|
  nearest : k.isFinite x = true → RoundsTo k.finiteValues (Even (k.significand x)) v (k.toRat x)

variable {k}

theorem toRat_ofCode (neg : Bool) {c : ℕ} (hc : c < k.signBit) :
    k.toRat (k.ofCode neg c) = signed neg (k.codeSteps c) / k.stepsPerOne := by
  rw [toRat, signedSteps, steps, code_ofCode neg hc, negative_ofCode neg hc]
  rfl

theorem toRat_eq (x : BitVec k.bits) : k.toRat x = signed (k.negative x) (k.codeSteps (k.code x)) / k.stepsPerOne :=
  rfl

/-- every finite code stands for a finite value, with either sign -/
theorem toRat_ofCode_mem (neg : Bool) {c : ℕ} (hc : c < k.infinityCode) :
    (signed neg (k.codeSteps c) : ℚ) / k.stepsPerOne ∈ k.finiteValues := by
  have hlt := hc.trans k.infinityCode_lt_signBit
  refine ⟨k.ofCode neg c, ?_, toRat_ofCode neg hlt⟩
  rw [isFinite, code_ofCode neg hlt]
  exact decide_eq_true hc

theorem exists_code_of_mem {b : ℚ} (hb : b ∈ k.finiteValues) :
    ∃ q, ∃ m ∈ {m | ∃ c < k.infinityCode, k.codeSteps c = m}, b = signed q m / k.stepsPerOne := by
  obtain ⟨y, hy, rfl⟩ := hb
  exact ⟨k.negative y, _, ⟨k.code y, of_decide_eq_true hy, rfl⟩, toRat_eq y⟩

variable (k)

/-- **Floats are rounded correctly.** -/
theorem isNearest_nearest (neg : Bool) (n : ℕ) {d : ℕ} (hd : 0 < d) :
    k.IsNearest neg (signed neg n / (d * k.stepsPerOne)) (k.nearest neg n d) := by
  have hpos : (0 : ℚ) < d * k.stepsPerOne := mul_pos (Nat.cast_pos.2 hd) k.stepsPerOne_cast_pos
  have hle : k.nearestCode n d ≤ k.infinityCode := Nat.min_le_left _ _
  have hlt : k.nearestCode n d < k.signBit := hle.trans_lt k.infinityCode_lt_signBit
  have hcode : k.code (k.nearest neg n d) = k.nearestCode n d := code_ofCode neg hlt
  refine ⟨negative_ofCode neg hlt, ?_, ?_, ?_⟩
  · rw [isNaN, hcode]
    exact decide_eq_false (Nat.not_lt.2 hle)
  · have habs : |(signed neg n : ℚ) / (d * k.stepsPerOne)| = n / (d * k.stepsPerOne) := by
      rw [abs_div, abs_of_pos hpos]
      congr 1
      unfold signed
      split_ifs <;> simp
    rw [isInfinite, hcode, beq_iff_eq, nearestCode_eq, min_eq_left_iff, k.infinityCode_le_roundCode_iff n hd, habs,
      le_div_iff₀ hpos]
    exact_mod_cast Iff.rfl
  · intro hfinite
    rw [isFinite, hcode, decide_eq_true_eq] at hfinite
    have hround : k.nearestCode n d = k.roundCode n d := by
      rw [nearestCode_eq] at hfinite ⊢
      omega
    rw [hround] at hfinite
    rw [even_significand_iff, hcode, nearest, toRat_ofCode neg hlt, hround]
    refine roundsTo_signed k.stepsPerOne_pos hd neg (toRat_ofCode_mem neg hfinite) (fun b => exists_code_of_mem)
      ⟨0, k.infinityCode_pos, k.codeSteps_zero⟩ ?_ ?_
    · rintro _ ⟨c, -, rfl⟩
      exact k.dist_roundCode_le n hd c
    · rintro _ ⟨c, -, rfl⟩ hne htie
      exact k.even_roundCode_of_tie hd (fun heq => hne (by rw [heq])) htie

theorem isNearest_nearest_one (neg : Bool) (n : ℕ) :
    k.IsNearest neg (signed neg n / k.stepsPerOne) (k.nearest neg n 1) := by
  have hnearest := k.isNearest_nearest neg n Nat.one_pos
  rwa [Nat.cast_one, one_mul] at hnearest

/-! ## There is only one -/

theorem isFinite_eq_true_iff (x : BitVec k.bits) :
    k.isFinite x = true ↔ k.isNaN x = false ∧ k.isInfinite x = false := by
  simp only [isFinite, isNaN, isInfinite, decide_eq_true_eq, decide_eq_false_iff_not, beq_eq_false_iff_ne]
  omega

variable {k} {neg : Bool} {v : ℚ} {x y : BitVec k.bits}

theorem isInfinite_of_isNaN (hx : k.isNaN x = true) : k.isInfinite x = false := by
  rw [isNaN, decide_eq_true_eq] at hx
  exact beq_eq_false_iff_ne.2 hx.ne'

theorem isFinite_or_isInfinite (hx : k.isNaN x = false) : k.isFinite x = true ∨ k.isInfinite x = true := by
  by_cases hinf : k.isInfinite x = true
  · exact Or.inr hinf
  · exact Or.inl ((k.isFinite_eq_true_iff x).2 ⟨hx, Bool.eq_false_of_not_eq_true hinf⟩)

theorem isNaN_of_isInfinite (hx : k.isInfinite x = true) : k.isNaN x = false := by
  rw [isInfinite, beq_iff_eq] at hx
  exact decide_eq_false hx.not_gt

/-- a point strictly between two that are equally far away is nearer -/
theorem abs_sub_lt_of_between {a b z : ℚ} (h : |a - v| = |b - v|) (hz : a < z ∧ z < b ∨ b < z ∧ z < a) :
    |z - v| < |a - v| := by
  have hlow := neg_abs_le (a - v)
  have hhigh := le_abs_self (a - v)
  rcases abs_eq_abs.1 h with heq | hmid
  · rcases hz with hz | hz <;> linarith
  · rw [abs_lt]
    rcases hz with hz | hz
    · constructor <;> linarith [neg_abs_le (a - v), neg_le_abs (a - v)]
    · constructor <;> linarith [neg_abs_le (a - v), neg_le_abs (a - v)]

/-- of two finite patterns that `v` is rounded to, neither has the lower code -/
theorem IsNearest.code_le (hx : k.IsNearest neg v x) (hy : k.IsNearest neg v y) (hxf : k.isFinite x = true)
    (hyf : k.isFinite y = true) : k.code y ≤ k.code x := by
  by_contra hlt
  rw [Nat.not_le] at hlt
  have hxr := hx.nearest hxf
  have hyr := hy.nearest hyf
  have hdist : |k.toRat x - v| = |k.toRat y - v| := le_antisymm (hxr.nearest _ hyr.mem) (hyr.nearest _ hxr.mem)
  have hpos := k.stepsPerOne_cast_pos
  -- codes between the two are values between the two, whatever the sign
  have hbetween : ∀ c, k.code x < c → c < k.code y →
      k.toRat x < signed neg (k.codeSteps c) / k.stepsPerOne ∧ signed neg (k.codeSteps c) / k.stepsPerOne < k.toRat y ∨
      k.toRat y < signed neg (k.codeSteps c) / k.stepsPerOne ∧ signed neg (k.codeSteps c) / k.stepsPerOne < k.toRat x := by
    intro c hlow hhigh
    have hlow' : (k.codeSteps (k.code x) : ℚ) < k.codeSteps c := Nat.cast_lt.2 (k.codeSteps_strictMono hlow)
    have hhigh' : (k.codeSteps c : ℚ) < k.codeSteps (k.code y) := Nat.cast_lt.2 (k.codeSteps_strictMono hhigh)
    rw [toRat_eq, toRat_eq, hx.sign, hy.sign]
    simp only [div_lt_div_iff_of_pos_right hpos]
    cases neg with
    | false => exact Or.inl ⟨by simpa [signed] using hlow', by simpa [signed] using hhigh'⟩
    | true => exact Or.inr ⟨by simpa [signed] using hhigh', by simpa [signed] using hlow'⟩
  have hne : k.toRat y ≠ k.toRat x := by
    intro heq
    rw [toRat_eq, toRat_eq, hx.sign, hy.sign, div_left_inj' hpos.ne', Int.cast_inj, signed_inj] at heq
    exact hlt.ne' (k.codeSteps_strictMono.injective heq)
  -- both are even, so that there is a code between them, whose value is nearer
  have hxe := (k.even_significand_iff x).1 (hxr.tie _ hyr.mem hne hdist.symm)
  have hye := (k.even_significand_iff y).1 (hyr.tie _ hxr.mem hne.symm hdist)
  have hgap : k.code x + 1 < k.code y := by
    rw [Nat.even_iff] at hxe hye
    omega
  have hfinite : k.code x + 1 < k.infinityCode := hgap.trans (of_decide_eq_true hyf)
  have hcloser := abs_sub_lt_of_between hdist (hbetween _ (Nat.lt_succ_self _) hgap)
  exact absurd (hxr.nearest _ (toRat_ofCode_mem neg hfinite)) (not_le.2 hcloser)

/-- **A value is rounded to one bit pattern only.** -/
theorem IsNearest.eq (hx : k.IsNearest neg v x) (hy : k.IsNearest neg v y) : x = y := by
  have hcode : k.code x = k.code y := by
    by_cases hinf : k.isInfinite x = true
    · have hinf' : k.isInfinite y = true := hy.overflow.2 (hx.overflow.1 hinf)
      rw [isInfinite, beq_iff_eq] at hinf hinf'
      rw [hinf, hinf']
    · have hinf' : ¬ k.isInfinite y = true := fun h => hinf (hx.overflow.2 (hy.overflow.1 h))
      have hxf := (k.isFinite_eq_true_iff x).2 ⟨hx.number, Bool.eq_false_of_not_eq_true hinf⟩
      have hyf := (k.isFinite_eq_true_iff y).2 ⟨hy.number, Bool.eq_false_of_not_eq_true hinf'⟩
      exact le_antisymm (hy.code_le hx hyf hxf) (hx.code_le hy hxf hyf)
  rw [← ofCode_code x, ← ofCode_code y, hx.sign, hy.sign, hcode]

theorem IsNearest.iff_eq (hx : k.IsNearest neg v x) (y : BitVec k.bits) : k.IsNearest neg v y ↔ y = x := by
  constructor
  · intro hy
    exact hy.eq hx
  · rintro rfl
    exact hx

/-- a finite value is rounded to itself -/
theorem isNearest_self (hx : k.isFinite x = true) : k.IsNearest (k.negative x) (k.toRat x) x := by
  have hself : k.nearest (k.negative x) (k.steps x) 1 = x := by
    rw [nearest, steps, nearestCode_of_exact Nat.one_pos (of_decide_eq_true hx) (Nat.mul_one _), ofCode_code]
  have hnearest := k.isNearest_nearest_one (k.negative x) (k.steps x)
  rw [hself] at hnearest
  exact hnearest

/-! ## Answers of calls -/

/-- the answer of a call is the bit pattern that `v` is rounded to, with the sign `neg`, and there is no other one -/
def AnswersNearest (k : FloatKind) (neg : Bool) (v : ℚ) (answer : Option (Except Trap Scalar)) : Prop :=
  ∃ x : BitVec k.bits, answer = some (.ok (.float k x)) ∧ ∀ y, k.IsNearest neg v y ↔ y = x

variable {answer : Option (Except Trap Scalar)}

theorem IsNearest.answers (hx : k.IsNearest neg v x) (h : answer = some (.ok (.float k x))) :
    k.AnswersNearest neg v answer :=
  ⟨x, h, hx.iff_eq⟩

theorem AnswersNearest.isNearest (h : k.AnswersNearest neg v answer) (hx : answer = some (.ok (.float k x))) :
    k.IsNearest neg v x := by
  obtain ⟨y, hy, hnearest⟩ := h
  rw [hy] at hx
  cases hx
  exact (hnearest _).2 rfl

end FloatKind

end CallSurface
