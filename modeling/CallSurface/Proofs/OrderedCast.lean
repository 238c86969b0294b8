/-
Casts that keep the value keep order and division.

Between integer kinds a cast keeps the value if the target holds all values of the source. Then comparisons see the same
integers, and a quotient that the source can hold is the quotient in the target too; where the source does not trap, the
target does not.

Into a float kind a cast keeps the value if the format holds it exactly. A magnitude goes to the code of the same
magnitude, codes grow with magnitudes, and zero has code zero, so `compare_signed` gives the order of signed values:
- `order_ofInteger`: integers with no more bits than a significand;
- `order_toFloat`: the narrow format in the wide one, with infinities at the ends, zeros of both signs and NaNs.

Main result: `embedding_cast_keeps_order`.
-/
import CallSurface.Proofs.Division
import CallSurface.Proofs.ExactValue
import CallSurface.Proofs.IntegerCast

namespace CallSurface

namespace FloatKind

variable {k : FloatKind}

/-! ## Order of codes -/

/-- patterns up to infinity are in the order of their signed codes -/
theorem order_ofCode {c c' : ℕ} (hc : c ≤ k.infinityCode) (hc' : c' ≤ k.infinityCode) (p q : Bool) :
    k.order (k.ofCode p c) (k.ofCode q c') = some (compare (signed p c) (signed q c')) := by
  have hlt := hc.trans_lt k.infinityCode_lt_signBit
  have hlt' := hc'.trans_lt k.infinityCode_lt_signBit
  simp [order, isNaN, rank, signed, code_ofCode _ hlt, code_ofCode _ hlt', negative_ofCode _ hlt, negative_ofCode _ hlt',
    Nat.not_lt.2 hc, Nat.not_lt.2 hc']

theorem order_of_isNaN {x y : BitVec k.bits} (h : k.isNaN x = true ∨ k.isNaN y = true) : k.order x y = none := by
  rw [order, if_pos (by simpa using h)]

theorem isNaN_quietNaN (k : FloatKind) : k.isNaN k.quietNaN = true := by
  cases k <;> decide

/-! ## Integers as floats -/

theorem signed_natAbs (n : ℤ) : signed (decide (n < 0)) n.natAbs = n := by
  unfold signed
  by_cases hn : n < 0
  · simp only [hn, decide_true, if_true]
    omega
  · simp only [hn, decide_false, Bool.false_eq_true, if_false]
    omega

/-- an integer with no more bits than a significand -/
def HoldsInteger (k : FloatKind) (n : ℤ) : Prop :=
  n.natAbs ≤ 2 * k.codesPerExponent

instance (k : FloatKind) (n : ℤ) : Decidable (k.HoldsInteger n) :=
  inferInstanceAs (Decidable (n.natAbs ≤ 2 * k.codesPerExponent))

/-- a kind whose range ends inside a significand has all its values there -/
theorem holdsInteger_of_range {a : IntKind} (hmin : k.HoldsInteger a.minValue) (hmax : k.HoldsInteger a.maxValue)
    (x : BitVec a.bits) : k.HoldsInteger (a.value x) := by
  have hx := a.value_bounds x
  unfold HoldsInteger at hmin hmax ⊢
  omega

/-- the code of a whole number -/
def integerCode (k : FloatKind) (m : ℕ) : ℕ :=
  k.nearestCode (m * k.stepsPerOne) 1

theorem integerCode_le {m : ℕ} (hm : m ≤ 2 * k.codesPerExponent) : k.integerCode m ≤ k.infinityCode :=
  ((k.exact_integer hm).nearestCode_lt Nat.one_pos).le

theorem integerCode_strictMonoOn : StrictMonoOn k.integerCode (Set.Iic (2 * k.codesPerExponent)) := by
  intro m hm n hn hlt
  rw [integerCode, integerCode, (k.exact_integer hm).nearestCode_lt_iff Nat.one_pos (k.exact_integer hn)]
  exact Nat.mul_lt_mul_of_pos_right hlt k.stepsPerOne_pos

theorem integerCode_zero : k.integerCode 0 = 0 := by
  rw [integerCode, Nat.zero_mul, nearestCode_zero Nat.one_pos]

/-- integers that a format holds are in the order of their floats -/
theorem order_ofInteger {m n : ℤ} (hm : k.HoldsInteger m) (hn : k.HoldsInteger n) :
    k.order (k.ofInteger m) (k.ofInteger n) = some (compare m n) := by
  have horder := compare_signed integerCode_strictMonoOn (Nat.zero_le _) integerCode_zero hm hn (decide (m < 0))
    (decide (n < 0))
  rw [signed_natAbs, signed_natAbs] at horder
  rw [← horder]
  exact order_ofCode (integerCode_le hm) (integerCode_le hn) _ _

/-! ## The narrow format in the wide one -/

/-- the code that a code of the narrow format has in the wide one, NaNs apart -/
def widenedCode (c : ℕ) : ℕ :=
  if c = f32.infinityCode then f64.infinityCode
  else f64.nearestCode (f32.codeSteps c * f64.stepsPerOne) f32.stepsPerOne

theorem widenedCode_lt {c : ℕ} (hc : c < f32.infinityCode) : widenedCode c < f64.infinityCode := by
  rw [widenedCode, if_neg hc.ne]
  exact (exact_widened hc).nearestCode_lt f32.stepsPerOne_pos

theorem widenedCode_le {c : ℕ} (hc : c ≤ f32.infinityCode) : widenedCode c ≤ f64.infinityCode := by
  rcases hc.lt_or_eq with hlt | rfl
  · exact (widenedCode_lt hlt).le
  · rw [widenedCode, if_pos rfl]

theorem widenedCode_strictMonoOn : StrictMonoOn widenedCode (Set.Iic f32.infinityCode) := by
  intro c hc c' hc' hlt
  have hfinite : c < f32.infinityCode := lt_of_lt_of_le hlt hc'
  rcases (Set.mem_Iic.1 hc').lt_or_eq with hfinite' | rfl
  · rw [widenedCode, widenedCode, if_neg hfinite.ne, if_neg hfinite'.ne,
      (exact_widened hfinite).nearestCode_lt_iff f32.stepsPerOne_pos (exact_widened hfinite')]
    exact Nat.mul_lt_mul_of_pos_right (f32.codeSteps_strictMono hlt) f64.stepsPerOne_pos
  · -- infinity stays above everything finite
    have hinf : widenedCode f32.infinityCode = f64.infinityCode := if_pos rfl
    rw [hinf]
    exact widenedCode_lt hfinite

theorem widenedCode_zero : widenedCode 0 = 0 := by
  have hne : 0 ≠ f32.infinityCode := by decide
  rw [widenedCode, if_neg hne, codeSteps_zero, Nat.zero_mul, nearestCode_zero f32.stepsPerOne_pos]

theorem toFloat_eq_ofCode {x : BitVec f32.bits} (h : f32.isNaN x = false) :
    f32.toFloat f64 x = f64.ofCode (f32.negative x) (widenedCode (f32.code x)) := by
  unfold toFloat widenedCode isInfinite infinity nearest steps
  rw [if_neg (by rw [h]; exact Bool.false_ne_true)]
  by_cases hinf : f32.code x = f32.infinityCode
  · simp [hinf]
  · simp [hinf]

/-- **The wide format keeps the order of the narrow one**, also of infinities and zeros; a NaN has no order in either -/
theorem order_toFloat (x y : BitVec f32.bits) : f64.order (f32.toFloat f64 x) (f32.toFloat f64 y) = f32.order x y := by
  have hnan : ∀ {z : BitVec f32.bits}, f32.isNaN z = true → f64.isNaN (f32.toFloat f64 z) = true := by
    intro z hz
    rw [toFloat, if_pos hz, isNaN_quietNaN]
  by_cases hx : f32.isNaN x = true
  · rw [order_of_isNaN (Or.inl hx), order_of_isNaN (Or.inl (hnan hx))]
  by_cases hy : f32.isNaN y = true
  · rw [order_of_isNaN (Or.inr hy), order_of_isNaN (Or.inr (hnan hy))]
  rw [Bool.not_eq_true] at hx hy
  have hcx : f32.code x ≤ f32.infinityCode := by simpa [isNaN] using hx
  have hcy : f32.code y ≤ f32.infinityCode := by simpa [isNaN] using hy
  rw [toFloat_eq_ofCode hx, toFloat_eq_ofCode hy, order_ofCode (widenedCode_le hcx) (widenedCode_le hcy),
    compare_signed widenedCode_strictMonoOn (Nat.zero_le _) widenedCode_zero hcx hcy]
  simp [order, hx, hy, rank, signed]

end FloatKind

/-! ## Comparisons and division on casts -/

/-- every comparison gives the same truth value on two values of kind `a` and on their casts to `b` -/
def Kind.ComparesAlike (a b : Kind) : Prop :=
  ∀ op : Operator, op.isComparison = true → ∀ v w : Scalar, v.kind = a → w.kind = a → op.Agrees a b [v, w]

theorem IntKind.Embeds.order_toInt {a b : IntKind} (h : a.Embeds b) (x y : BitVec a.bits) :
    b.order (a.toInt b x) (a.toInt b y) = a.order x y := by
  rw [order, order, h.value_toInt, h.value_toInt]

theorem comparesAlike_of_embeds {a b : IntKind} (h : a.Embeds b) : Kind.ComparesAlike (.int a) (.int b) := by
  intro op hop v w hv hw
  obtain ⟨x, rfl⟩ := Scalar.eq_int_of_kind hv
  obtain ⟨y, rfl⟩ := Scalar.eq_int_of_kind hw
  exact ⟨_, Operator.compare_ints hop x y, h.order_toInt x y ▸ Operator.compare_ints hop (a.toInt b x) (a.toInt b y)⟩

/-- a float kind whose significand has room for the whole range of an integer kind -/
theorem comparesAlike_of_range {a : IntKind} {k : FloatKind} (hmin : k.HoldsInteger a.minValue)
    (hmax : k.HoldsInteger a.maxValue) : Kind.ComparesAlike (.int a) (.float k) := by
  intro op hop v w hv hw
  obtain ⟨x, rfl⟩ := Scalar.eq_int_of_kind hv
  obtain ⟨y, rfl⟩ := Scalar.eq_int_of_kind hw
  have horder := FloatKind.order_ofInteger (FloatKind.holdsInteger_of_range hmin hmax x)
    (FloatKind.holdsInteger_of_range hmin hmax y)
  exact ⟨_, Operator.compare_ints hop x y, horder ▸ Operator.compare_floats hop _ _⟩

theorem comparesAlike_widening : Kind.ComparesAlike (.float .f32) (.float .f64) := by
  intro op hop v w hv hw
  obtain ⟨x, rfl⟩ := Scalar.eq_float_of_kind hv
  obtain ⟨y, rfl⟩ := Scalar.eq_float_of_kind hw
  exact ⟨_, Operator.compare_floats hop x y, FloatKind.order_toFloat x y ▸ Operator.compare_floats hop _ _⟩

/-- an operator that may trap is carried over where it does not -/
theorem Operator.carried_of_not_trapped {op : Operator} {a b : IntKind} {x y : BitVec a.bits}
    {e : Except Trap (BitVec a.bits)} {e' : Except Trap (BitVec b.bits)} (ha : op.isLinked (.int a) = true)
    (hb : op.isLinked (.int b) = true) (hresult : op.onInts a x y = some (e.map (Scalar.int a)))
    (hcast : op.onInts b (a.toInt b x) (a.toInt b y) = some (e'.map (Scalar.int b)))
    (hok : ∀ r, e = .ok r → e' = .ok (a.toInt b r))
    (htrap : ∀ t, op.apply (.int a) [.int a x, .int a y] ≠ some (.error t)) :
    op.Carried (.int a) (.int b) [.int a x, .int a y] := by
  cases e with
  | error t => exact absurd ((apply_ints ha x y).trans hresult) (htrap t)
  | ok r =>
    rw [hok r rfl] at hcast
    exact carried_of_onInts ha hb hresult hcast

/-- **Casts that keep the value keep order and division.** The integer kinds whose values are all values of another
kind are the six pairs listed. For each of them all comparisons answer alike on two values and on their casts, and
wherever a quotient or a remainder does not trap, it does not trap on the casts and gives the cast of the result. The
comparisons answer alike as well on casts of 32-bit integers and bytes to the wide format, of bytes to the narrow
format and to every integer kind, and of the narrow format to the wide one, NaN included. -/
theorem embedding_cast_keeps_order :
    (∀ a b : IntKind, (Kind.int a).isInteger = true → (Kind.int b).isInteger = true → a ≠ b →
      (a.Embeds b ↔ (a, b) ∈ [(IntKind.i32, IntKind.i64), (.ui32, .i64), (.ui32, .ui64), (.ui32, .usize), (.ui64, .usize),
        (.usize, .ui64)])) ∧
    (∀ a b : IntKind, (Kind.int a).isInteger = true → (Kind.int b).isInteger = true → a.Embeds b →
      Kind.ComparesAlike (.int a) (.int b) ∧
      ∀ op ∈ [Operator.div, .mod], ∀ x y : BitVec a.bits,
        (∀ t, op.apply (.int a) [.int a x, .int a y] ≠ some (.error t)) →
          op.Carried (.int a) (.int b) [.int a x, .int a y]) ∧
    Kind.ComparesAlike (.int .i32) (.float .f64) ∧ Kind.ComparesAlike (.int .ui32) (.float .f64) ∧
    Kind.ComparesAlike (.int .char) (.float .f64) ∧ Kind.ComparesAlike (.int .char) (.float .f32) ∧
    (∀ b : IntKind, Kind.ComparesAlike (.int .char) (.int b)) ∧ Kind.ComparesAlike (.float .f32) (.float .f64) := by
  refine ⟨?_, ?_, comparesAlike_of_range (by decide) (by decide), comparesAlike_of_range (by decide) (by decide),
    comparesAlike_of_range (by decide) (by decide), comparesAlike_of_range (by decide) (by decide), ?_,
    comparesAlike_widening⟩
  · intro a b
    cases a <;> cases b <;> decide
  · intro a b ha hb hembeds
    refine ⟨comparesAlike_of_embeds hembeds, ?_⟩
    intro op hop x y htrap
    simp only [List.mem_cons, List.not_mem_nil, or_false] at hop
    rcases hop with rfl | rfl
    · exact Operator.carried_of_not_trapped (Operator.isLinked_of_isInteger ha rfl) (Operator.isLinked_of_isInteger hb rfl)
        rfl rfl (fun r => hembeds.div_toInt) htrap
    · exact Operator.carried_of_not_trapped (Operator.isLinked_of_isInteger ha rfl) (Operator.isLinked_of_isInteger hb rfl)
        rfl rfl (fun r => hembeds.mod_toInt) htrap
  · intro b
    have hbyte : IntKind.char.Embeds b := by cases b <;> decide
    exact comparesAlike_of_embeds hbyte

/-- the least 32-bit integer over three, and a NaN beside a number -/
theorem embedding_cast_keeps_order_least :
    let x : BitVec 32 := BitVec.intMin 32
    let y : BitVec 32 := 3
    (IntKind.i32.Embeds .i64 ∧ ∀ t, Operator.div.apply (.int .i32) [.int .i32 x, .int .i32 y] ≠ some (.error t)) ∧
    Operator.div.Carried (.int .i32) (.int .i64) [.int .i32 x, .int .i32 y] ∧
    Operator.less.Agrees (.int .i32) (.int .i64) [.int .i32 x, .int .i32 y] ∧
    Operator.notEq.Agrees (.float .f32) (.float .f64) [.float .f32 FloatKind.f32.quietNaN, .float .f32 0] := by
  intro x y
  have hembeds : IntKind.i32.Embeds .i64 := by decide
  have hquotient : Operator.div.apply (.int .i32) [.int .i32 x, .int .i32 y] = some (.ok (.int .i32 (-715827882))) := by
    decide +kernel
  have hdefined : ∀ t, Operator.div.apply (.int .i32) [.int .i32 x, .int .i32 y] ≠ some (.error t) := by
    intro t
    rw [hquotient]
    simp
  obtain ⟨-, hint, -, -, -, -, -, hfloat⟩ := embedding_cast_keeps_order
  obtain ⟨horder, hdivision⟩ := hint .i32 .i64 rfl rfl hembeds
  exact ⟨⟨hembeds, hdefined⟩, hdivision _ (by decide) x y hdefined, horder _ rfl _ _ rfl rfl, hfloat _ rfl _ _ rfl rfl⟩

end CallSurface
