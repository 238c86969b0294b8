/-
Integer division: the exact quotient and the exact remainder are values of the kind.

There is one exception, the least value of a signed kind divided by -1, and that is where `overflows` stops the program.
So a quotient or remainder that is given at all is the exact one (`div_eq_ok_iff`, `mod_eq_ok_iff` with `tdiv_bounds`,
`tmod_bounds`), and no wrapping shows.
-/
import CallSurface.Proofs.Residue

namespace CallSurface.IntKind

variable {k : IntKind} {x y q : BitVec k.bits}

/-- a kind has no sign, or one negative value more than positive ones -/
theorem minValue_cases (k : IntKind) : k.minValue = 0 ∨ k.minValue = -k.maxValue - 1 := by
  cases k <;> decide

theorem overflows_eq_false_iff : k.overflows x y = false ↔ ¬(k.value x = k.minValue ∧ k.value y = -1) := by
  rw [← Bool.not_eq_true, not_iff_not]
  simp [overflows]

/-! ## Ranges -/

theorem tdiv_bounds (hy : k.value y ≠ 0) (hfits : k.overflows x y = false) :
    k.minValue ≤ (k.value x).tdiv (k.value y) ∧ (k.value x).tdiv (k.value y) ≤ k.maxValue := by
  have hx := k.value_bounds x
  have hy' := k.value_bounds y
  have hmax := k.maxValue_pos
  have habs := Int.natAbs_tdiv_le_natAbs (k.value x) (k.value y)
  rw [overflows_eq_false_iff] at hfits
  rcases k.minValue_cases with hmin | hmin
  · have hnonneg := Int.tdiv_nonneg (a := k.value x) (b := k.value y) (by omega) (by omega)
    omega
  · by_cases hunit : (k.value y).natAbs = 1
    · -- only a divisor of magnitude one leaves the magnitude as it is
      rcases Int.natAbs_eq_iff.1 hunit with hone | hone
      · rw [hone, Nat.cast_one, Int.tdiv_one]
        exact hx
      · rw [hone, Nat.cast_one, Int.tdiv_neg, Int.tdiv_one]
        omega
    · have hhalf : ((k.value x).tdiv (k.value y)).natAbs ≤ (k.value x).natAbs / 2 := by
        rw [Int.natAbs_tdiv]
        exact Nat.div_le_div_left (by omega) (by decide)
      omega

theorem tmod_bounds (hy : k.value y ≠ 0) :
    k.minValue ≤ (k.value x).tmod (k.value y) ∧ (k.value x).tmod (k.value y) ≤ k.maxValue := by
  have hx := k.value_bounds x
  have hy' := k.value_bounds y
  have habs := Int.natAbs_tmod (k.value x) (k.value y)
  have hlt : (k.value x).natAbs % (k.value y).natAbs < (k.value y).natAbs := Nat.mod_lt _ (by omega)
  rcases k.minValue_cases with hmin | hmin
  · have hnonneg := Int.tmod_nonneg (a := k.value x) (k.value y) (by omega)
    omega
  · omega

/-! ## Results -/

theorem div_eq_ok_iff : k.div x y = .ok q ↔
    k.value y ≠ 0 ∧ k.overflows x y = false ∧ k.wrap ((k.value x).tdiv (k.value y)) = q := by
  unfold div
  split_ifs with hzero hover <;> simp_all

theorem mod_eq_ok_iff : k.mod x y = .ok q ↔
    k.value y ≠ 0 ∧ k.overflows x y = false ∧ k.wrap ((k.value x).tmod (k.value y)) = q := by
  unfold mod
  split_ifs with hzero hover <;> simp_all

/-! ## Casts that keep the value -/

variable {a b : IntKind} {u v r : BitVec a.bits}

/-- a wider range overflows nowhere where the narrower one does not -/
theorem Embeds.overflows_toInt (h : a.Embeds b) (hfits : a.overflows u v = false) :
    b.overflows (a.toInt b u) (a.toInt b v) = false := by
  have hmin := (embeds_iff.1 h).1
  have hu := (a.value_bounds u).1
  rw [overflows_eq_false_iff] at hfits ⊢
  rw [h.value_toInt, h.value_toInt]
  rintro ⟨hleast, hone⟩
  exact hfits ⟨by omega, hone⟩

theorem Embeds.div_toInt (h : a.Embeds b) (hr : a.div u v = .ok r) :
    b.div (a.toInt b u) (a.toInt b v) = .ok (a.toInt b r) := by
  rw [div_eq_ok_iff] at hr ⊢
  obtain ⟨hv, hfits, rfl⟩ := hr
  have hbounds := tdiv_bounds hv hfits
  rw [h.value_toInt, h.value_toInt, toInt_wrap hbounds.1 hbounds.2]
  exact ⟨hv, h.overflows_toInt hfits, rfl⟩

theorem Embeds.mod_toInt (h : a.Embeds b) (hr : a.mod u v = .ok r) :
    b.mod (a.toInt b u) (a.toInt b v) = .ok (a.toInt b r) := by
  rw [mod_eq_ok_iff] at hr ⊢
  obtain ⟨hv, hfits, rfl⟩ := hr
  have hbounds := tmod_bounds (x := u) hv
  rw [h.value_toInt, h.value_toInt, toInt_wrap hbounds.1 hbounds.2]
  exact ⟨hv, h.overflows_toInt hfits, rfl⟩

end CallSurface.IntKind
