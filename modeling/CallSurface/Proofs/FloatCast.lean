/-
Casts into the float kinds: rounded correctly, and undone by the cast back wherever nothing was lost.

A cast takes the exact value and rounds it once (`isNearest_ofInteger`, `isNearest_toFloat`). Two things follow from there
being only one pattern that a value is rounded to:
- a value that the target holds exactly is kept, so the cast back finds it again (`toInt_ofInteger`, `toFloat_toFloat`);
- a detour over a kind that holds the value exactly is invisible (`toFloat_ofInteger`).

Significands of the wide kind have 53 bits. So the detour over it is invisible for integers of 32 bits, and it shows for
integers of 64 bits, where the wide kind rounds once more.

Main results: `cast_to_float_is_nearest` and `float_casts_return`.
-/
import CallSurface.Proofs.FloatText
import CallSurface.Proofs.Truncation

namespace CallSurface

theorem truncate_intCast (n : ℤ) : truncate n = n := by
  unfold truncate
  split_ifs
  · exact Int.floor_intCast n
  · exact Int.ceil_intCast n

namespace FloatKind

/-! ## Rounded once -/

/-- an integer, in least steps -/
theorem integerSteps_div (k : FloatKind) (n : ℤ) :
    (signed (decide (n < 0)) (n.natAbs * k.stepsPerOne) : ℚ) / k.stepsPerOne = n := by
  rw [← signed_mul, signed_natAbs, Int.cast_mul, Int.cast_natCast, mul_div_cancel_right₀ _ k.stepsPerOne_cast_pos.ne']

theorem isNearest_ofInteger (k : FloatKind) (n : ℤ) : k.IsNearest (decide (n < 0)) n (k.ofInteger n) := by
  have hnearest := k.isNearest_nearest_one (decide (n < 0)) (n.natAbs * k.stepsPerOne)
  rwa [k.integerSteps_div] at hnearest

theorem isNearest_toFloat {a : FloatKind} (b : FloatKind) {x : BitVec a.bits} (hx : a.isFinite x = true) :
    b.IsNearest (a.negative x) (a.toRat x) (a.toFloat b x) := by
  obtain ⟨hnumber, hbounded⟩ := (a.isFinite_eq_true_iff x).1 hx
  have hvalue : (signed (a.negative x) (a.steps x * b.stepsPerOne) : ℚ) / (a.stepsPerOne * b.stepsPerOne) = a.toRat x := by
    rw [← signed_mul, Int.cast_mul, Int.cast_natCast, mul_div_mul_right _ _ b.stepsPerOne_cast_pos.ne']
    rfl
  have hnearest := b.isNearest_nearest (a.negative x) (a.steps x * b.stepsPerOne) a.stepsPerOne_pos
  rw [hvalue] at hnearest
  rw [toFloat, hnumber, hbounded]
  exact hnearest

theorem toFloat_of_isInfinite {a : FloatKind} (b : FloatKind) {x : BitVec a.bits} (hx : a.isInfinite x = true) :
    a.toFloat b x = b.infinity (a.negative x) := by
  rw [toFloat, isNaN_of_isInfinite hx, hx]
  rfl

theorem eq_infinity_of_isInfinite {k : FloatKind} {x : BitVec k.bits} (hx : k.isInfinite x = true) :
    x = k.infinity (k.negative x) := by
  have hcode : k.code x = k.infinityCode := beq_iff_eq.1 hx
  rw [infinity, ← hcode, ofCode_code]

/-! ## Nothing lost -/

variable {k : FloatKind} {n : ℤ}

/-- an integer with no more bits than a significand is a finite value of its own -/
theorem ofInteger_of_holdsInteger (hn : k.HoldsInteger n) :
    k.isFinite (k.ofInteger n) = true ∧ k.toRat (k.ofInteger n) = n := by
  obtain ⟨c, hc, hsteps⟩ := k.exact_integer hn
  have hlt := hc.trans k.infinityCode_lt_signBit
  rw [ofInteger, nearest, nearestCode_of_exact Nat.one_pos hc hsteps]
  constructor
  · rw [isFinite, code_ofCode _ hlt]
    exact decide_eq_true hc
  · rw [toRat_ofCode _ hlt, ← Nat.mul_one (k.codeSteps c), hsteps, k.integerSteps_div]

/-- **Integers that a significand has room for come back.** -/
theorem toInt_ofInteger {a : IntKind} {x : BitVec a.bits} (hx : k.HoldsInteger (a.value x)) :
    k.toInt a (k.ofInteger (a.value x)) = x := by
  obtain ⟨hfinite, hvalue⟩ := ofInteger_of_holdsInteger hx
  obtain ⟨hnumber, hbounded⟩ := (k.isFinite_eq_true_iff _).1 hfinite
  obtain ⟨hmin, hmax⟩ := a.value_bounds x
  rw [toInt, hnumber, hbounded, ← truncate_toRat, hvalue, truncate_intCast]
  show a.clamp (a.value x) = x
  rw [IntKind.clamp, min_eq_right hmax, max_eq_right hmin, a.wrap_value]

/-- **Widening is undone by narrowing**, bit for bit -/
theorem toFloat_toFloat {x : BitVec f32.bits} (hx : f32.isNaN x = false) : f64.toFloat f32 (f32.toFloat f64 x) = x := by
  have hwide := widens_toFloat hx
  rcases isFinite_or_isInfinite hx with hfinite | hinf
  · have hnearest := isNearest_toFloat f32 (hwide.isFinite hfinite)
    rw [hwide.sign, hwide.value hfinite] at hnearest
    exact hnearest.eq (isNearest_self hfinite)
  · rw [toFloat_of_isInfinite f32 (hwide.infinite.trans hinf), hwide.sign]
    exact (eq_infinity_of_isInfinite hinf).symm

/-- **A detour over a kind that holds the integer is invisible.** -/
theorem toFloat_ofInteger (b : FloatKind) (hn : k.HoldsInteger n) : k.toFloat b (k.ofInteger n) = b.ofInteger n := by
  obtain ⟨hfinite, hvalue⟩ := ofInteger_of_holdsInteger hn
  have hnearest := isNearest_toFloat b hfinite
  rw [hvalue, (k.isNearest_ofInteger n).sign] at hnearest
  exact hnearest.eq (b.isNearest_ofInteger n)

end FloatKind

/-! ## What calls give -/

theorem Symbol.apply_cast (b : Kind) (v : Scalar) : (Symbol.cast v.kind b).apply [v] = some (.ok (v.cast b)) := by
  simp [Symbol.apply]

/-- **Casts into the float kinds are rounded correctly, and once.** The cast of every integer and every `char` to either
float kind answers with the one bit pattern nearest to the integer, as `IsNearest` says. The cast of a wide float to the
narrow kind keeps the sign, also on zero: an infinity goes to the infinity of its sign, and every other pattern but NaN to
the one nearest to its exact value. In particular integers do not reach the narrow kind through the wide one: for each kind
of 64 bits there is a value that rounding a second time would bring elsewhere. -/
theorem cast_to_float_is_nearest :
    (∀ (a : IntKind) (k : FloatKind) (x : BitVec a.bits), k.AnswersNearest (decide (a.value x < 0)) (a.value x)
      ((Symbol.cast (.int a) (.float k)).apply [.int a x])) ∧
    (∀ x : BitVec FloatKind.f64.bits, FloatKind.f64.isNaN x = false →
      let answer := (Symbol.cast (.float .f64) (.float .f32)).apply [.float .f64 x]
      (FloatKind.f64.isInfinite x = true ∧
        answer = some (.ok (.float .f32 (FloatKind.f32.infinity (FloatKind.f64.negative x))))) ∨
      (FloatKind.f64.isFinite x = true ∧
        FloatKind.f32.AnswersNearest (FloatKind.f64.negative x) (FloatKind.f64.toRat x) answer)) ∧
    ∀ a : IntKind, a.bits = 64 → ∃ x : BitVec a.bits,
      ((Scalar.int a x).cast (.float .f64)).cast (.float .f32) ≠ (Scalar.int a x).cast (.float .f32) := by
  refine ⟨?_, ?_, ?_⟩
  · intro a k x
    exact (k.isNearest_ofInteger _).answers (Symbol.apply_cast _ _)
  · intro x hx answer
    have hanswer : answer = some (.ok (.float .f32 (FloatKind.f64.toFloat .f32 x))) := Symbol.apply_cast _ (.float .f64 x)
    rcases FloatKind.isFinite_or_isInfinite hx with hfinite | hinf
    · exact Or.inr ⟨hfinite, (FloatKind.isNearest_toFloat .f32 hfinite).answers hanswer⟩
    · rw [FloatKind.toFloat_of_isInfinite .f32 hinf] at hanswer
      exact Or.inl ⟨hinf, hanswer⟩
  · -- just above the midpoint of two narrow values, by less than the wide kind can tell
    intro a ha
    refine ⟨a.wrap (2 ^ 60 + 2 ^ 36 + 1), ?_⟩
    cases a with
    | i32 | ui32 | char => cases ha
    | i64 | ui64 | usize => decide +kernel

/-- the least wide float that overflows, a negative one that underflows to zero, the first integer that is rounded, and a
wide integer that is rounded twice on the way over the wide kind -/
theorem cast_to_float_is_nearest_edges :
    let huge : BitVec FloatKind.f64.bits := 0x47EFFFFFF0000000
    let tiny : BitVec FloatKind.f64.bits := 0xB690000000000000
    (FloatKind.f64.isNaN huge = false ∧
      FloatKind.f32.IsNearest (FloatKind.f64.negative huge) (FloatKind.f64.toRat huge) 0x7F800000) ∧
    (FloatKind.f64.isNaN tiny = false ∧
      FloatKind.f32.IsNearest (FloatKind.f64.negative tiny) (FloatKind.f64.toRat tiny) 0x80000000) ∧
    FloatKind.f32.IsNearest false (IntKind.i32.value 16777217) 0x4B800000 ∧
    ∃ x : BitVec IntKind.i64.bits,
      ((Scalar.int .i64 x).cast (.float .f64)).cast (.float .f32) ≠ (Scalar.int .i64 x).cast (.float .f32) := by
  intro huge tiny
  obtain ⟨hint, hnarrow, hdetour⟩ := cast_to_float_is_nearest
  have hhuge : FloatKind.f64.isNaN huge = false ∧ FloatKind.f64.isInfinite huge = false := by decide
  have htiny : FloatKind.f64.isNaN tiny = false ∧ FloatKind.f64.isInfinite tiny = false := by decide
  refine ⟨⟨hhuge.1, ?_⟩, ⟨htiny.1, ?_⟩, (hint .i32 .f32 16777217).isNearest (by decide), hdetour .i64 rfl⟩
  · rcases hnarrow huge hhuge.1 with ⟨hinf, -⟩ | ⟨-, hnearest⟩
    · exact absurd hinf (by rw [hhuge.2]; exact Bool.false_ne_true)
    · exact hnearest.isNearest (by decide +kernel)
  · rcases hnarrow tiny htiny.1 with ⟨hinf, -⟩ | ⟨-, hnearest⟩
    · exact absurd hinf (by rw [htiny.2]; exact Bool.false_ne_true)
    · exact hnearest.isNearest (by decide +kernel)

/-- a value that a cast to kind `b` and the cast back leave as it is -/
def Scalar.ReturnsFrom (b : Kind) (v : Scalar) : Prop :=
  ∃ w, (Symbol.cast v.kind b).apply [v] = some (.ok w) ∧ (Symbol.cast b v.kind).apply [w] = some (.ok v)

theorem Scalar.returnsFrom_of_cast_cast {b : Kind} {v : Scalar} (h : (v.cast b).cast v.kind = v) : v.ReturnsFrom b := by
  have hback := Symbol.apply_cast v.kind (v.cast b)
  rw [Scalar.kind_cast, h] at hback
  exact ⟨v.cast b, Symbol.apply_cast b v, hback⟩

theorem Scalar.int_returnsFrom {a : IntKind} {k : FloatKind} {x : BitVec a.bits} (hx : k.HoldsInteger (a.value x)) :
    (Scalar.int a x).ReturnsFrom (.float k) :=
  returnsFrom_of_cast_cast (congrArg (Scalar.int a) (FloatKind.toInt_ofInteger hx))

/-- **Casts to the float kinds and back.** All integers of 32 bits and all bytes come back from the wide kind, all bytes
from the narrow one; integers of 64 bits come back from the wide kind up to a magnitude of 2^53, and integers of every kind
from the narrow one up to 2^24. Every narrow float but NaN comes back from the wide kind bit for bit, subnormals and both
zeros included. And a cast of an integer of 32 bits to the narrow kind may go by way of the wide one. -/
theorem float_casts_return :
    (∀ a ∈ [IntKind.i32, .ui32, .char], ∀ x : BitVec a.bits, (Scalar.int a x).ReturnsFrom (.float .f64)) ∧
    (∀ x : BitVec IntKind.char.bits, (Scalar.int .char x).ReturnsFrom (.float .f32)) ∧
    (∀ a ∈ [IntKind.i64, .ui64, .usize], ∀ x : BitVec a.bits, |a.value x| ≤ 2 ^ 53 →
      (Scalar.int a x).ReturnsFrom (.float .f64)) ∧
    (∀ (a : IntKind) (x : BitVec a.bits), |a.value x| ≤ 2 ^ 24 → (Scalar.int a x).ReturnsFrom (.float .f32)) ∧
    (∀ x : BitVec FloatKind.f32.bits, FloatKind.f32.isNaN x = false → (Scalar.float .f32 x).ReturnsFrom (.float .f64)) ∧
    ∀ a ∈ [IntKind.i32, .ui32], ∀ x : BitVec a.bits, ∃ v w,
      (Symbol.cast (.int a) (.float .f64)).apply [.int a x] = some (.ok v) ∧
      (Symbol.cast (.float .f64) (.float .f32)).apply [v] = some (.ok w) ∧
      (Symbol.cast (.int a) (.float .f32)).apply [.int a x] = some (.ok w) := by
  have hholds : ∀ (k : FloatKind) {n : ℤ}, |n| ≤ 2 * k.codesPerExponent → k.HoldsInteger n := by
    intro k n hn
    rw [Int.abs_eq_natAbs] at hn
    exact_mod_cast hn
  have hrange : ∀ a ∈ [IntKind.i32, .ui32, .char], ∀ x : BitVec a.bits, FloatKind.f64.HoldsInteger (a.value x) := by
    intro a ha
    have hends : FloatKind.f64.HoldsInteger a.minValue ∧ FloatKind.f64.HoldsInteger a.maxValue := by
      revert a
      decide
    exact FloatKind.holdsInteger_of_range hends.1 hends.2
  refine ⟨?_, ?_, ?_, ?_, ?_, ?_⟩
  · intro a ha x
    exact Scalar.int_returnsFrom (hrange a ha x)
  · intro x
    exact Scalar.int_returnsFrom (FloatKind.holdsInteger_of_range (by decide) (by decide) x)
  · intro a _ x hx
    exact Scalar.int_returnsFrom (hholds .f64 hx)
  · intro a x hx
    exact Scalar.int_returnsFrom (hholds .f32 hx)
  · intro x hx
    exact Scalar.returnsFrom_of_cast_cast (congrArg (Scalar.float .f32) (FloatKind.toFloat_toFloat hx))
  · intro a ha x
    have hmem : ∀ a ∈ [IntKind.i32, .ui32], a ∈ [IntKind.i32, .ui32, .char] := by decide
    have hdetour : ((Scalar.int a x).cast (.float .f64)).cast (.float .f32) = (Scalar.int a x).cast (.float .f32) :=
      congrArg (Scalar.float .f32) (FloatKind.toFloat_ofInteger .f32 (hrange a (hmem a ha) x))
    refine ⟨(Scalar.int a x).cast (.float .f64), (Scalar.int a x).cast (.float .f32), Symbol.apply_cast _ _, ?_,
      Symbol.apply_cast _ _⟩
    rw [← hdetour]
    exact Symbol.apply_cast _ ((Scalar.int a x).cast (.float .f64))

/-- the ends of the two ranges, and the least narrow float below zero -/
theorem float_casts_return_ends :
    let wide : BitVec IntKind.i64.bits := -9007199254740992
    let narrow : BitVec IntKind.ui64.bits := 16777216
    let least : BitVec FloatKind.f32.bits := 0x80000001
    (|IntKind.i64.value wide| ≤ 2 ^ 53 ∧ (Scalar.int .i64 wide).ReturnsFrom (.float .f64)) ∧
    (|IntKind.ui64.value narrow| ≤ 2 ^ 24 ∧ (Scalar.int .ui64 narrow).ReturnsFrom (.float .f32)) ∧
    (FloatKind.f32.isNaN least = false ∧ (Scalar.float .f32 least).ReturnsFrom (.float .f64)) := by
  intro wide narrow least
  have hwide : |IntKind.i64.value wide| ≤ 2 ^ 53 := by decide
  have hnarrow : |IntKind.ui64.value narrow| ≤ 2 ^ 24 := by decide
  have hleast : FloatKind.f32.isNaN least = false := by decide
  obtain ⟨-, -, hint, hint', hfloat, -⟩ := float_casts_return
  exact ⟨⟨hwide, hint .i64 (by decide) wide hwide⟩, ⟨hnarrow, hint' .ui64 narrow hnarrow⟩, hleast, hfloat least hleast⟩

end CallSurface
