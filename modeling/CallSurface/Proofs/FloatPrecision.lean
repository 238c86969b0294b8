/-
Floats whose text is precise enough are read back bit for bit.

A text is off by at most half a millionth. That is no loss in two cases:
- the value is a whole number of millionths, as multiples of `2 ^ -6` are: then the text is exact
  (`textCode_of_millionths`);
- neighbouring values are more than a millionth apart: then the printed value is the only one that near to its text
  (`textCode_of_sparse`). This begins with the binade whose values are `2 ^ -19` apart (`sparseFrom`). Its first value
  has a neighbour below that is only half as far away, but being a power of two it has an exact text.

Main result: `scan_text_eq_self`.
-/
import CallSurface.Proofs.ExactValue
import CallSurface.Proofs.FloatRoundTrip

namespace CallSurface.FloatKind

variable {k : FloatKind} {x : BitVec k.bits}

/-! ## Exact texts -/

/-- the text of a whole number of millionths is exact -/
theorem textCode_of_millionths (h : k.stepsPerOne ∣ k.steps x * tenPow textPlaces) :
    k.textCode (k.lastPlaceUnits x) = k.code x := by
  obtain ⟨u, hu⟩ := h
  rw [Nat.mul_comm k.stepsPerOne] at hu
  have hunits : k.lastPlaceUnits x = u := by
    apply roundDiv_eq_of_dist_lt
    rw [hu, Nat.dist_self]
    exact k.stepsPerOne_pos
  rw [hunits]
  exact roundCode_of_exact (tenPow_pos _) hu

/-- a multiple of `2 ^ -6` is a whole number of millionths -/
theorem millionths_of_toRat {n : ℤ} (h : k.toRat x = n / 2 ^ 6) : k.stepsPerOne ∣ k.steps x * tenPow textPlaces := by
  have hpos := k.stepsPerOne_cast_pos.ne'
  have habs : (k.steps x : ℚ) / k.stepsPerOne = (n.natAbs : ℚ) / 2 ^ 6 := by
    rw [← k.abs_toRat x, h, abs_div, abs_of_pos (show (0 : ℚ) < 2 ^ 6 by norm_num), Nat.cast_natAbs, Int.cast_abs]
  have hsteps : k.steps x * 2 ^ 6 = n.natAbs * k.stepsPerOne := by
    rw [div_eq_div_iff hpos (by norm_num)] at habs
    exact_mod_cast habs
  have hmillion : tenPow textPlaces = 2 ^ 6 * 5 ^ 6 := by decide
  rw [hmillion, ← Nat.mul_assoc, hsteps, Nat.mul_right_comm]
  exact Nat.dvd_mul_left _ _

/-! ## Values that are far apart -/

/-- from here on neighbouring values are at least `2 ^ -19` apart, which is more than a millionth -/
def sparseFrom : FloatKind → ℕ
  | f32 => 16
  | f64 => 2 ^ 33

/-- the exponent at which a step of the significand is `2 ^ -19` -/
def sparseExponent (k : FloatKind) : ℕ :=
  k.scale - 19

theorem sparseFrom_eq (k : FloatKind) : k.codesPerExponent * twoPow k.sparseExponent = k.sparseFrom * k.stepsPerOne := by
  cases k <;> decide +kernel

theorem millionth_lt_step (k : FloatKind) : k.stepsPerOne < twoPow k.sparseExponent * tenPow textPlaces := by
  cases k <;> decide +kernel

/-- above the first value of a binade, all other values are a step of this binade away or more -/
theorem codeSteps_apart {q c c' : ℕ} (h : k.codesPerExponent * twoPow q < k.codeSteps c) (hne : c' ≠ c) :
    k.codeSteps c' + twoPow q ≤ k.codeSteps c ∨ k.codeSteps c + twoPow q ≤ k.codeSteps c' := by
  obtain ⟨j, hj⟩ := (k.codeSteps_multiple_or_lt q c).resolve_right (Nat.not_lt.2 h.le)
  -- a multiple of the step that is less than another one is a whole step less
  have hwhole : ∀ i n, i * twoPow q < n * twoPow q → i * twoPow q + twoPow q ≤ n * twoPow q := by
    intro i n hlt
    rw [← Nat.succ_mul]
    exact Nat.mul_le_mul_right _ (Nat.lt_of_mul_lt_mul_right hlt)
  rw [hj] at h ⊢
  rcases k.codeSteps_multiple_or_lt q c' with ⟨i, hi⟩ | hlow
  · have hdiff : i * twoPow q ≠ j * twoPow q := by
      rw [← hi, ← hj]
      exact k.codeSteps_strictMono.injective.ne hne
    rw [hi]
    rcases Nat.lt_or_gt_of_ne hdiff with hlt | hgt
    · exact Or.inl (hwhole i j hlt)
    · exact Or.inr (hwhole j i hgt)
  · have hfirst := hwhole k.codesPerExponent j h
    left
    omega

/-- a value in the sparse range is the only one that is as near to its text as it is -/
theorem textCode_of_sparse (h : k.codesPerExponent * twoPow k.sparseExponent ≤ k.steps x) :
    k.textCode (k.lastPlaceUnits x) = k.code x := by
  rcases Nat.eq_or_lt_of_le h with hfirst | hlater
  · -- the first value of the range is a whole number
    apply textCode_of_millionths
    rw [← hfirst, k.sparseFrom_eq]
    exact (Nat.dvd_mul_left _ _).mul_right _
  · by_contra hne
    have hround := dist_lastPlaceUnits x
    have hnear := k.dist_textCode_le (k.lastPlaceUnits x) (k.code x)
    have hstep := k.millionth_lt_step
    have hsteps : k.codeSteps (k.code x) = k.steps x := rfl
    rw [hsteps] at hnear
    unfold Nat.dist at hnear hround
    -- printed and scanned magnitude are at most a millionth apart, but at least one step
    rcases codeSteps_apart hlater hne with hbelow | habove
    · have hle := Nat.mul_le_mul_right (tenPow textPlaces) hbelow
      rw [Nat.add_mul, hsteps] at hle
      omega
    · have hle := Nat.mul_le_mul_right (tenPow textPlaces) habove
      rw [Nat.add_mul, hsteps] at hle
      omega

theorem sparseFrom_le_abs_iff (x : BitVec k.bits) :
    (k.sparseFrom : ℚ) ≤ |k.toRat x| ↔ k.codesPerExponent * twoPow k.sparseExponent ≤ k.steps x := by
  have hpos := k.stepsPerOne_cast_pos
  rw [k.abs_toRat, le_div_iff₀ hpos, k.sparseFrom_eq]
  exact_mod_cast Iff.rfl

end CallSurface.FloatKind

namespace CallSurface

/-- **Floats whose text is precise enough are read back bit for bit.** A finite float of magnitude at least 16 (narrow
format) or `2 ^ 33` (wide format), or whose exact value is a multiple of `2 ^ -6`, both zeros included: its text,
followed by nothing or by a blank and anything, is scanned as that very bit pattern, and what stands behind it is left. -/
theorem scan_text_eq_self (k : FloatKind) (x : BitVec k.bits) (hfinite : k.isFinite x = true)
    (hprecise : (k.sparseFrom : ℚ) ≤ |k.toRat x| ∨ ∃ n : ℤ, k.toRat x = n / 2 ^ 6) (rest : Bytes)
    (hrest : ∀ b ∈ rest.head?, isBlank b = true) (r : Reader) (hr : r.Delivers ((Scalar.float k x).text ++ rest)) :
    (Scanner.scalar (.float k) ⟨r, []⟩).1 = some (.float k x) ∧
      (Scanner.scalar (.float k) ⟨r, []⟩).2.reader.unread = rest := by
  have hcode : k.textCode (k.lastPlaceUnits x) = k.code x := by
    rcases hprecise with hlarge | ⟨n, hn⟩
    · exact FloatKind.textCode_of_sparse ((FloatKind.sparseFrom_le_abs_iff x).1 hlarge)
    · exact FloatKind.textCode_of_millionths (FloatKind.millionths_of_toRat hn)
  have hdigit : Scanner.Stops isDigit rest := fun b hb => (isBlank_excludes (hrest b hb)).2.1
  have hmark : Scanner.Stops isExponentMark rest := fun b hb => (isBlank_excludes (hrest b hb)).2.2.2.2
  have hread := FloatKind.reads_finite (of_decide_eq_true hfinite) hdigit hmark
  rw [hcode, FloatKind.ofCode_code] at hread
  have hscalar : Scanner.Reads (Scanner.scalar (.float k)) (k.text x ++ rest) (some (.float k x)) rest [] :=
    hread.bind (Scanner.reads_pure _ rest)
  obtain ⟨hvalue, hafter, -⟩ := hscalar.deliver hr
  exact ⟨hvalue, hafter.unread⟩

/-- the value next to -16, away from zero, and a negative zero before a line feed -/
theorem scan_text_eq_self_neighbour :
    let x : BitVec FloatKind.f32.bits := 0xC1800001
    let z : BitVec FloatKind.f64.bits := FloatKind.f64.zero true
    let r (bs : Bytes) : Reader := ⟨[.data bs], none⟩
    ((Scalar.float .f32 x).text = asciiBytes "-16.000002" ∧
      (Scanner.scalar (.float .f32) ⟨r ((Scalar.float .f32 x).text ++ []), []⟩).1 = some (.float .f32 x)) ∧
    ((Scalar.float .f64 z).text = asciiBytes "-0.000000" ∧
      (Scanner.scalar (.float .f64) ⟨r ((Scalar.float .f64 z).text ++ [10]), []⟩).1 = some (.float .f64 z)) := by
  intro x z r
  have hlarge : (FloatKind.f32.sparseFrom : ℚ) ≤ |FloatKind.f32.toRat x| :=
    (FloatKind.sparseFrom_le_abs_iff x).2 (by decide +kernel)
  have hsteps : FloatKind.f64.signedSteps z = 0 := by decide +kernel
  have hzero : FloatKind.f64.toRat z = (0 : ℤ) / 2 ^ 6 := by
    rw [FloatKind.toRat, hsteps, Int.cast_zero, zero_div, zero_div]
  exact ⟨⟨by decide +kernel, (scan_text_eq_self .f32 x (by decide +kernel) (Or.inl hlarge) [] (by simp) _
      (Reader.delivers_data _)).1⟩,
    ⟨by decide +kernel, (scan_text_eq_self .f64 z (by decide +kernel) (Or.inr ⟨0, hzero⟩) [10] (by simp [isBlank]) _
      (Reader.delivers_data _)).1⟩⟩

end CallSurface
