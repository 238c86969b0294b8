/-
Rounding, to whole numbers and to floats, gives the nearest there is.

Distances are taken between naturals (`Nat.dist`), with the denominator multiplied out.
- `dist_roundDiv_le`, `two_mul_dist_roundDiv_le`, `roundDiv_eq_of_dist_lt`: `roundDiv n d` is a multiple of `1 / d` of `n`
  at least distance, at most half a unit away, and the only number that is less than half a unit away.
- `codeSteps_strictMono`: codes are in the order of the magnitudes they stand for.
- `dist_roundCode_le`: of all codes, also those beyond infinity, the one that a quotient is rounded to stands for a
  magnitude at least distance. The exponent is chosen such that the significand fits, and codes with a lower exponent
  stand below the whole binade, whose least member is nearer.
-/
import CallSurface.Binary.Nearest
import Mathlib.Data.Nat.Dist
import Mathlib.Tactic

namespace CallSurface

theorem twoPow_eq (n : ℕ) : twoPow n = 2 ^ n :=
  rfl

theorem twoPow_pos (n : ℕ) : 0 < twoPow n :=
  Nat.two_pow_pos n

theorem twoPow_add (m n : ℕ) : twoPow (m + n) = twoPow m * twoPow n :=
  Nat.pow_add 2 m n

theorem twoPow_succ (n : ℕ) : twoPow (n + 1) = 2 * twoPow n :=
  Nat.pow_succ'

/-! ## Whole numbers -/

/-- half a unit is the most that rounding can be off -/
theorem two_mul_dist_roundDiv_le (n : ℕ) {d : ℕ} (hd : 0 < d) : 2 * Nat.dist (roundDiv n d * d) n ≤ d := by
  have hn := Nat.div_add_mod' n d
  have hr := Nat.mod_lt n hd
  have hq : (n / d + 1) * d = n / d * d + d := Nat.succ_mul _ _
  unfold roundDiv Nat.dist
  dsimp only
  split_ifs <;> omega

/-- a number less than half a unit away is the one that is rounded to -/
theorem roundDiv_eq_of_dist_lt {n d m : ℕ} (h : 2 * Nat.dist (m * d) n < d) : roundDiv n d = m := by
  have hd : 0 < d := by omega
  have hround := two_mul_dist_roundDiv_le n hd
  unfold Nat.dist at h hround
  -- two different whole numbers are a unit apart
  rcases Nat.lt_trichotomy (roundDiv n d) m with hlt | heq | hgt
  · have hunit : (roundDiv n d + 1) * d ≤ m * d := Nat.mul_le_mul_right d hlt
    rw [Nat.succ_mul] at hunit
    omega
  · exact heq
  · have hunit : (m + 1) * d ≤ roundDiv n d * d := Nat.mul_le_mul_right d hgt
    rw [Nat.succ_mul] at hunit
    omega

theorem dist_roundDiv_le (n : ℕ) {d : ℕ} (hd : 0 < d) (m : ℕ) : Nat.dist (roundDiv n d * d) n ≤ Nat.dist (m * d) n := by
  have hround := two_mul_dist_roundDiv_le n hd
  by_cases hm : 2 * Nat.dist (m * d) n < d
  · rw [roundDiv_eq_of_dist_lt hm]
  · omega

theorem le_roundDiv {n d a : ℕ} (hd : 0 < d) (h : a * d ≤ n) : a ≤ roundDiv n d := by
  have hle : a ≤ n / d := (Nat.le_div_iff_mul_le hd).2 h
  unfold roundDiv
  dsimp only
  split_ifs <;> omega

theorem roundDiv_le {n d b : ℕ} (hd : 0 < d) (h : n < b * d) : roundDiv n d ≤ b := by
  have hlt : n / d < b := (Nat.div_lt_iff_lt_mul hd).2 h
  unfold roundDiv
  dsimp only
  split_ifs <;> omega

namespace FloatKind

variable (k : FloatKind)

/-! ## Codes and magnitudes -/

theorem codesPerExponent_pos : 0 < k.codesPerExponent :=
  twoPow_pos _

theorem stepsPerOne_pos : 0 < k.stepsPerOne :=
  twoPow_pos _

/-- below the first exponent codes count steps -/
theorem codeSteps_of_lt {c : ℕ} (h : c < k.codesPerExponent) : k.codeSteps c = c := by
  unfold codeSteps
  rw [Nat.div_eq_of_lt h, Nat.mod_eq_of_lt h]
  rfl

theorem codeSteps_normal (q : ℕ) {f : ℕ} (hf : f < k.codesPerExponent) :
    k.codeSteps ((q + 1) * k.codesPerExponent + f) = (k.codesPerExponent + f) * twoPow q := by
  have hdiv : ((q + 1) * k.codesPerExponent + f) / k.codesPerExponent = q + 1 := by
    rw [Nat.add_comm, Nat.add_mul_div_right _ _ k.codesPerExponent_pos, Nat.div_eq_of_lt hf, Nat.zero_add]
  have hmod : ((q + 1) * k.codesPerExponent + f) % k.codesPerExponent = f := by
    rw [Nat.add_comm, Nat.add_mul_mod_self_right, Nat.mod_eq_of_lt hf]
  unfold codeSteps
  rw [hdiv, hmod]
  rfl

/-- every code is subnormal, or has an exponent and a fraction -/
theorem code_cases (c : ℕ) :
    c < k.codesPerExponent ∨ ∃ q f, f < k.codesPerExponent ∧ c = (q + 1) * k.codesPerExponent + f := by
  by_cases h : c < k.codesPerExponent
  · exact Or.inl h
  · have hq : 0 < c / k.codesPerExponent := Nat.div_pos (by omega) k.codesPerExponent_pos
    refine Or.inr ⟨c / k.codesPerExponent - 1, c % k.codesPerExponent, Nat.mod_lt _ k.codesPerExponent_pos, ?_⟩
    rw [Nat.sub_add_cancel hq]
    exact (Nat.div_add_mod' c _).symm

theorem codeSteps_lt_succ (c : ℕ) : k.codeSteps c < k.codeSteps (c + 1) := by
  have hpos := k.codesPerExponent_pos
  rcases k.code_cases c with hc | ⟨q, f, hf, rfl⟩
  · rw [k.codeSteps_of_lt hc]
    by_cases hnext : c + 1 < k.codesPerExponent
    · rw [k.codeSteps_of_lt hnext]
      exact Nat.lt_succ_self c
    · have hone : c + 1 = (0 + 1) * k.codesPerExponent + 0 := by omega
      rw [hone, k.codeSteps_normal 0 hpos, twoPow_eq]
      omega
  · rw [k.codeSteps_normal q hf]
    by_cases hnext : f + 1 < k.codesPerExponent
    · rw [Nat.add_assoc, k.codeSteps_normal q hnext]
      exact Nat.mul_lt_mul_of_pos_right (by omega) (twoPow_pos q)
    · -- the last code of an exponent is followed by the first one of the next
      have hcarry : (q + 1) * k.codesPerExponent + f + 1 = (q + 1 + 1) * k.codesPerExponent + 0 := by
        rw [Nat.succ_mul (q + 1)]
        omega
      rw [hcarry, k.codeSteps_normal (q + 1) hpos, twoPow_succ, ← Nat.mul_assoc]
      exact Nat.mul_lt_mul_of_pos_right (by omega) (twoPow_pos q)

/-- codes are in the order of their magnitudes -/
theorem codeSteps_strictMono : StrictMono k.codeSteps :=
  strictMono_nat_of_lt_succ k.codeSteps_lt_succ

/-- a significand, which may just have reached the next power of two, at an exponent -/
theorem codeSteps_binade {q m : ℕ} (hm : m ≤ 2 * k.codesPerExponent) (hq : q = 0 ∨ k.codesPerExponent ≤ m) :
    k.codeSteps (q * k.codesPerExponent + m) = m * twoPow q := by
  by_cases hsub : m < k.codesPerExponent
  · obtain rfl : q = 0 := by omega
    rw [Nat.zero_mul, Nat.zero_add, k.codeSteps_of_lt hsub, twoPow_eq, Nat.pow_zero, Nat.mul_one]
  by_cases hnext : m < 2 * k.codesPerExponent
  · obtain ⟨f, rfl⟩ := Nat.exists_eq_add_of_le (Nat.not_lt.1 hsub)
    rw [← Nat.add_assoc, ← Nat.succ_mul, k.codeSteps_normal q (by omega)]
  · obtain rfl : m = 2 * k.codesPerExponent := by omega
    have hcarry : q * k.codesPerExponent + 2 * k.codesPerExponent = (q + 1 + 1) * k.codesPerExponent + 0 := by ring
    rw [hcarry, k.codeSteps_normal (q + 1) k.codesPerExponent_pos, twoPow_succ]
    ring

/-- a magnitude is a multiple of the unit of an exponent, or lies below all of its significands -/
theorem codeSteps_multiple_or_lt (q c : ℕ) :
    (∃ j, k.codeSteps c = j * twoPow q) ∨ k.codeSteps c < k.codesPerExponent * twoPow q := by
  have hunit : 1 ≤ twoPow q := twoPow_pos q
  rcases k.code_cases c with hc | ⟨e, f, hf, rfl⟩
  · right
    rw [k.codeSteps_of_lt hc]
    exact lt_of_lt_of_le hc (Nat.le_mul_of_pos_right _ hunit)
  · rw [k.codeSteps_normal e hf]
    by_cases he : q ≤ e
    · left
      obtain ⟨i, rfl⟩ := Nat.exists_eq_add_of_le he
      refine ⟨(k.codesPerExponent + f) * twoPow i, ?_⟩
      rw [Nat.add_comm q i, twoPow_add, Nat.mul_assoc]
    · right
      obtain ⟨i, rfl⟩ := Nat.exists_eq_add_of_lt (Nat.not_le.1 he)
      calc (k.codesPerExponent + f) * twoPow e
          < 2 * k.codesPerExponent * twoPow e := Nat.mul_lt_mul_of_pos_right (by omega) (twoPow_pos e)
        _ ≤ 2 * k.codesPerExponent * twoPow e * twoPow i := Nat.le_mul_of_pos_right _ (twoPow_pos i)
        _ = k.codesPerExponent * twoPow (e + i + 1) := by rw [twoPow_succ, twoPow_add]; ring

/-! ## The nearest code -/

/-- the code that `n / d` least steps are rounded to where infinity is not in the way -/
def roundCode (n d : ℕ) : ℕ :=
  k.exponentOf n d * k.codesPerExponent + roundDiv n (d * twoPow (k.exponentOf n d))

theorem nearestCode_eq (n d : ℕ) : k.nearestCode n d = min k.infinityCode (k.roundCode n d) :=
  rfl

/-- the exponent is as low as the width of the significand allows, and not below the least one -/
theorem exponentOf_spec (n : ℕ) {d : ℕ} (hd : 0 < d) :
    n < 2 * k.codesPerExponent * (d * twoPow (k.exponentOf n d)) ∧
      (k.exponentOf n d = 0 ∨ k.codesPerExponent * (d * twoPow (k.exponentOf n d)) ≤ n) := by
  have hlt : n / d < 2 ^ ((n / d).log2 + 1) := Nat.lt_log2_self
  rw [Nat.div_lt_iff_lt_mul hd] at hlt
  unfold exponentOf codesPerExponent
  simp only [twoPow_eq]
  by_cases hq : (n / d).log2 ≤ k.fractionBits
  · rw [Nat.sub_eq_zero_of_le hq]
    refine ⟨lt_of_lt_of_le hlt ?_, Or.inl rfl⟩
    calc 2 ^ ((n / d).log2 + 1) * d
        ≤ 2 ^ (k.fractionBits + 1) * d := Nat.mul_le_mul_right d (Nat.pow_le_pow_right (by decide) (by omega))
      _ = 2 * 2 ^ k.fractionBits * (d * 2 ^ 0) := by ring
  · obtain ⟨q, hlog⟩ := Nat.exists_eq_add_of_le (Nat.le_of_not_le hq)
    have hne : n / d ≠ 0 := by
      intro h0
      rw [h0] at hq
      exact hq (Nat.zero_le _)
    have hle : 2 ^ (n / d).log2 ≤ n / d := Nat.log2_self_le hne
    rw [Nat.le_div_iff_mul_le hd] at hle
    rw [hlog] at hlt hle ⊢
    rw [Nat.add_sub_cancel_left]
    refine ⟨?_, Or.inr ?_⟩
    · calc n < 2 ^ (k.fractionBits + q + 1) * d := hlt
        _ = 2 * 2 ^ k.fractionBits * (d * 2 ^ q) := by ring
    · calc 2 ^ k.fractionBits * (d * 2 ^ q) = 2 ^ (k.fractionBits + q) * d := by ring
        _ ≤ n := hle

theorem codeSteps_roundCode (n : ℕ) {d : ℕ} (hd : 0 < d) :
    k.codeSteps (k.roundCode n d) = roundDiv n (d * twoPow (k.exponentOf n d)) * twoPow (k.exponentOf n d) := by
  obtain ⟨hlt, hle⟩ := k.exponentOf_spec n hd
  have hunit : 0 < d * twoPow (k.exponentOf n d) := Nat.mul_pos hd (twoPow_pos _)
  refine k.codeSteps_binade (roundDiv_le hunit hlt) ?_
  rcases hle with hq | hle
  · exact Or.inl hq
  · exact Or.inr (le_roundDiv hunit hle)

/-- **Floats are rounded to the nearest.** No code stands for a magnitude nearer to `n / d` least steps. -/
theorem dist_roundCode_le (n : ℕ) {d : ℕ} (hd : 0 < d) (c : ℕ) :
    Nat.dist (k.codeSteps (k.roundCode n d) * d) n ≤ Nat.dist (k.codeSteps c * d) n := by
  obtain ⟨-, hbinade⟩ := k.exponentOf_spec n hd
  have hround := k.codeSteps_roundCode n hd
  generalize k.exponentOf n d = q at hbinade hround
  have hunit : 0 < d * twoPow q := Nat.mul_pos hd (twoPow_pos q)
  have hmultiple : ∀ j, Nat.dist (k.codeSteps (k.roundCode n d) * d) n ≤ Nat.dist (j * twoPow q * d) n := by
    intro j
    have h := dist_roundDiv_le n hunit j
    rwa [Nat.mul_comm d, ← Nat.mul_assoc, ← Nat.mul_assoc, ← Nat.mul_comm d (twoPow q), ← hround] at h
  rcases k.codeSteps_multiple_or_lt q c with ⟨j, hj⟩ | hlow
  · rw [hj]
    exact hmultiple j
  · -- the least significand of the binade stands between this code and the quotient
    rcases hbinade with rfl | hbinade
    · have hzero : k.codeSteps c * twoPow 0 = k.codeSteps c := Nat.mul_one _
      rw [← hzero]
      exact hmultiple _
    · have hbelow : k.codeSteps c * d ≤ k.codesPerExponent * twoPow q * d := Nat.mul_le_mul_right d hlow.le
      have hleast : k.codesPerExponent * twoPow q * d ≤ n := by
        calc k.codesPerExponent * twoPow q * d = k.codesPerExponent * (d * twoPow q) := by ring
          _ ≤ n := hbinade
      refine le_trans (hmultiple k.codesPerExponent) ?_
      unfold Nat.dist
      omega

end FloatKind

end CallSurface
