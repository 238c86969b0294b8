/-
Exact values of floats, and the magnitudes that a format holds exactly.

`k.Exact n d` says that `n / d` least steps are the magnitude of a finite code. Such a quotient is rounded to itself
(`nearestCode_of_exact`), and of two such quotients the greater one has the greater code (`Exact.nearestCode_lt_iff`).
- `exact_integer`: integers up to `2 ^ (fractionBits + 1)` are held exactly. A significand that is too short for its
  exponent is doubled until it is not (`exists_codeSteps_eq`).
- `exact_widened`: the wide format holds every finite magnitude of the narrow one.

`compare_signed` brings signs back: a map of magnitudes that is increasing and keeps zero keeps the order of signed
values as well.
-/
import CallSurface.Proofs.BitPattern

namespace CallSurface

/-! ## Signed magnitudes -/

/-- a magnitude with a sign; zero has two -/
def signed (neg : Bool) (m : ℕ) : ℤ :=
  if neg then -(m : ℤ) else m

theorem compare_eq_compare {α β : Type} [LinearOrder α] [LinearOrder β] {a b : α} {c d : β} (hlt : a < b ↔ c < d)
    (hgt : b < a ↔ d < c) : compare a b = compare c d := by
  rcases lt_trichotomy a b with h | h | h
  · rw [compare_lt_iff_lt.2 h, compare_lt_iff_lt.2 (hlt.1 h)]
  · have heq : c = d := le_antisymm (not_lt.1 (mt hgt.2 h.not_gt)) (not_lt.1 (mt hlt.2 h.not_lt))
    rw [compare_eq_iff_eq.2 h, compare_eq_iff_eq.2 heq]
  · rw [compare_gt_iff_gt.2 h, compare_gt_iff_gt.2 (hgt.1 h)]

/-- signed values are in the order of their images under a map that is increasing and keeps zero -/
theorem compare_signed {g : ℕ → ℕ} {s : Set ℕ} (hg : StrictMonoOn g s) (hs : 0 ∈ s) (hzero : g 0 = 0) {m n : ℕ}
    (hm : m ∈ s) (hn : n ∈ s) (p q : Bool) :
    compare (signed p (g m)) (signed q (g n)) = compare (signed p m) (signed q n) := by
  have hlt : g m < g n ↔ m < n := hg.lt_iff_lt hm hn
  have hgt : g n < g m ↔ n < m := hg.lt_iff_lt hn hm
  have hmpos : g 0 < g m ↔ 0 < m := hg.lt_iff_lt hs hm
  have hnpos : g 0 < g n ↔ 0 < n := hg.lt_iff_lt hs hn
  apply compare_eq_compare
  · cases p <;> cases q <;> simp only [signed, Bool.false_eq_true, if_true, if_false] <;> omega
  · cases p <;> cases q <;> simp only [signed, Bool.false_eq_true, if_true, if_false] <;> omega

namespace FloatKind

variable (k : FloatKind)

/-! ## The exact value -/

theorem stepsPerOne_cast_pos : (0 : ℚ) < k.stepsPerOne :=
  Nat.cast_pos.2 k.stepsPerOne_pos

/-- the exact value of a finite float -/
def toRat (x : BitVec k.bits) : ℚ :=
  k.signedSteps x / k.stepsPerOne

theorem abs_toRat (x : BitVec k.bits) : |k.toRat x| = k.steps x / k.stepsPerOne := by
  have hsteps : |(k.signedSteps x : ℚ)| = k.steps x := by
    unfold signedSteps
    split_ifs <;> simp
  rw [toRat, abs_div, hsteps, abs_of_pos k.stepsPerOne_cast_pos]

/-! ## Magnitudes of codes -/

theorem codeSteps_zero : k.codeSteps 0 = 0 :=
  k.codeSteps_of_lt k.codesPerExponent_pos

theorem steps_pos {x : BitVec k.bits} (hx : k.isZero x = false) : 0 < k.steps x := by
  have hcode : 0 < k.code x := Nat.pos_of_ne_zero (beq_eq_false_iff_ne.1 hx)
  have hsteps := k.codeSteps_strictMono hcode
  rwa [k.codeSteps_zero] at hsteps

/-- every significand that fits, at any exponent, is the magnitude of a code -/
theorem exists_codeSteps_eq {m : ℕ} (hm : m ≤ 2 * k.codesPerExponent) (q : ℕ) : ∃ c, k.codeSteps c = m * twoPow q := by
  induction q generalizing m with
  | zero => exact ⟨_, k.codeSteps_binade hm (Or.inl rfl)⟩
  | succ q ih =>
    by_cases hshort : m < k.codesPerExponent
    · obtain ⟨c, hc⟩ := ih (m := 2 * m) (by omega)
      refine ⟨c, ?_⟩
      rw [hc, twoPow_succ]
      ring
    · exact ⟨_, k.codeSteps_binade hm (Or.inr (Nat.not_lt.1 hshort))⟩

/-- every code has a significand that fits -/
theorem exists_significand (c : ℕ) : ∃ m q, m ≤ 2 * k.codesPerExponent ∧ k.codeSteps c = m * twoPow q := by
  rcases k.code_cases c with hc | ⟨q, f, hf, rfl⟩
  · exact ⟨c, 0, by omega, (k.codeSteps_of_lt hc).trans (Nat.mul_one c).symm⟩
  · exact ⟨_, q, by omega, k.codeSteps_normal q hf⟩

/-! ## Exact quotients -/

/-- `n / d` least steps are the magnitude of a finite code -/
def Exact (n d : ℕ) : Prop :=
  ∃ c, c < k.infinityCode ∧ k.codeSteps c * d = n

variable {k} {c n n' d : ℕ}

theorem roundCode_of_exact (hd : 0 < d) (h : k.codeSteps c * d = n) : k.roundCode n d = c := by
  have hnear := k.dist_roundCode_le n hd c
  rw [h, Nat.dist_self, Nat.le_zero] at hnear
  apply k.codeSteps_strictMono.injective
  exact Nat.eq_of_mul_eq_mul_right hd ((Nat.eq_of_dist_eq_zero hnear).trans h.symm)

theorem nearestCode_of_exact (hd : 0 < d) (hc : c < k.infinityCode) (h : k.codeSteps c * d = n) :
    k.nearestCode n d = c := by
  rw [nearestCode_eq, roundCode_of_exact hd h, Nat.min_eq_right hc.le]

theorem Exact.nearestCode_lt (hd : 0 < d) (h : k.Exact n d) : k.nearestCode n d < k.infinityCode := by
  obtain ⟨c, hc, hn⟩ := h
  rw [nearestCode_of_exact hd hc hn]
  exact hc

theorem Exact.nearestCode_lt_iff (hd : 0 < d) (h : k.Exact n d) (h' : k.Exact n' d) :
    k.nearestCode n d < k.nearestCode n' d ↔ n < n' := by
  obtain ⟨c, hc, rfl⟩ := h
  obtain ⟨c', hc', rfl⟩ := h'
  rw [nearestCode_of_exact hd hc rfl, nearestCode_of_exact hd hc' rfl, Nat.mul_lt_mul_right hd,
    k.codeSteps_strictMono.lt_iff_lt]

theorem nearestCode_zero (hd : 0 < d) : k.nearestCode 0 d = 0 := by
  have hinf : 0 < k.infinityCode := by cases k <;> decide
  exact nearestCode_of_exact hd hinf (by rw [k.codeSteps_zero, Nat.zero_mul])

variable (k)

/-- an integer with no more bits than a significand is held exactly -/
theorem exact_integer {m : ℕ} (hm : m ≤ 2 * k.codesPerExponent) : k.Exact (m * k.stepsPerOne) 1 := by
  have hbelow : 2 * k.codesPerExponent * k.stepsPerOne < k.codeSteps k.infinityCode := by
    cases k <;> decide +kernel
  obtain ⟨c, hc⟩ := k.exists_codeSteps_eq hm k.scale
  refine ⟨c, ?_, by rw [hc, Nat.mul_one]; rfl⟩
  rw [← k.codeSteps_strictMono.lt_iff_lt, hc]
  exact lt_of_le_of_lt (Nat.mul_le_mul_right _ hm) hbelow

/-- the wide format holds every finite magnitude of the narrow one -/
theorem exact_widened (hc : c < f32.infinityCode) :
    f64.Exact (f32.codeSteps c * f64.stepsPerOne) f32.stepsPerOne := by
  have hfits : 2 * f32.codesPerExponent ≤ 2 * f64.codesPerExponent := by decide +kernel
  have hscale : f64.stepsPerOne = twoPow 925 * f32.stepsPerOne := by decide +kernel
  have hbelow : f32.codeSteps f32.infinityCode * twoPow 925 < f64.codeSteps f64.infinityCode := by decide +kernel
  obtain ⟨m, q, hm, hsteps⟩ := f32.exists_significand c
  obtain ⟨c', hc'⟩ := f64.exists_codeSteps_eq (hm.trans hfits) (q + 925)
  have hwide : f64.codeSteps c' = f32.codeSteps c * twoPow 925 := by
    rw [hc', hsteps, twoPow_add, Nat.mul_assoc]
  refine ⟨c', ?_, ?_⟩
  · rw [← f64.codeSteps_strictMono.lt_iff_lt, hwide]
    have hless : f32.codeSteps c < f32.codeSteps f32.infinityCode := f32.codeSteps_strictMono hc
    exact lt_trans (Nat.mul_lt_mul_of_pos_right hless (twoPow_pos _)) hbelow
  · rw [hwide, hscale, Nat.mul_assoc]

end FloatKind

end CallSurface
