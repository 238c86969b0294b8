/-
Casts between integer kinds: when a detour is invisible, and which operators they carry over.

A cast keeps the residue modulo the width of its target. So a second cast sees all it needs if its target is not wider
than the kind in between, or if that kind holds every value unchanged. Nothing else suffices: the first value beyond
the range of the kind in between is cast to the far end of this range (`exists_wraps_once`), off by exactly one period,
and a wider target tells the two apart.

A cast to a kind that is not wider cuts off high bits, whatever the signs (`toInt_eq_setWidth`). Operators whose low
result bits come from low operand bits are carried over (`carried_of_not_wider`); a shift needs the whole count, and
equality needs all bits, so these two are carried over between kinds of one width only.

Main results: `cast_cast_eq_iff` and `narrowing_cast_carries`.
-/
import CallSurface.Proofs.TypedSurface

namespace CallSurface

namespace IntKind

variable {a b c : IntKind}

/-! ## Detours -/

theorem toInt_self (a : IntKind) (x : BitVec a.bits) : a.toInt a x = x :=
  a.wrap_value x

theorem toInt_toInt_of_le (h : c.bits ≤ b.bits) (x : BitVec a.bits) : b.toInt c (a.toInt b x) = a.toInt c x :=
  wrap_eq_wrap_iff.2 ((b.value_wrap_modEq _).of_dvd (pow_dvd_pow 2 h))

theorem Embeds.toInt_toInt (h : a.Embeds b) (x : BitVec a.bits) : b.toInt c (a.toInt b x) = a.toInt c x := by
  rw [toInt, h.value_toInt x, toInt]

/-- beyond the range of a kind, the first value is cast to the far end: off by one period -/
theorem exists_wraps_once (h : ¬a.Embeds b) :
    ∃ x : BitVec a.bits, b.value (a.toInt b x) = a.value x + 2 ^ b.bits ∨
      b.value (a.toInt b x) = a.value x - 2 ^ b.bits := by
  have hrange := b.maxValue_eq
  have hamin := a.minValue_nonpos
  have hamax := a.maxValue_pos
  have hbmin := b.minValue_nonpos
  have hbmax := b.maxValue_pos
  rw [embeds_iff, not_and_or, not_le, not_le] at h
  rcases h with hlow | hhigh
  · have hx : a.value (a.wrap (b.minValue - 1)) = b.minValue - 1 := value_wrap (by omega) (by omega)
    refine ⟨a.wrap (b.minValue - 1), Or.inl ?_⟩
    rw [toInt, hx]
    apply value_wrap_of_modEq
    · exact Int.add_modEq_right.symm
    · omega
    · omega
  · have hx : a.value (a.wrap (b.maxValue + 1)) = b.maxValue + 1 := value_wrap (by omega) (by omega)
    refine ⟨a.wrap (b.maxValue + 1), Or.inr ?_⟩
    rw [toInt, hx]
    apply value_wrap_of_modEq
    · exact Int.sub_modulus_modEq_iff.1 rfl
    · omega
    · omega

/-- one period of a kind is visible in a wider kind -/
theorem not_modEq_of_lt (h : b.bits < c.bits) (n : ℤ) :
    ¬n + 2 ^ b.bits ≡ n [ZMOD 2 ^ c.bits] ∧ ¬n - 2 ^ b.bits ≡ n [ZMOD 2 ^ c.bits] := by
  have hndvd : ¬(2 : ℤ) ^ c.bits ∣ 2 ^ b.bits := by
    rw [pow_dvd_pow_iff two_ne_zero Int.prime_two.not_isUnit]
    omega
  constructor
  · intro hmod
    apply hndvd
    simpa using hmod.symm.dvd
  · intro hmod
    apply hndvd
    simpa using hmod.dvd

/-! ## Cutting off high bits -/

/-- a cast to a kind that is not wider keeps the low bits, whatever the signs -/
theorem toInt_eq_setWidth (h : b.bits ≤ a.bits) (x : BitVec a.bits) : a.toInt b x = x.setWidth b.bits := by
  unfold toInt wrap value
  split_ifs
  · exact BitVec.signExtend_eq_setWidth_of_le x h
  · rw [BitVec.ofInt_natCast, BitVec.ofNat_toNat]

/-- between kinds of one width nothing is lost -/
theorem toInt_injective (h : a.bits = b.bits) : Function.Injective (a.toInt b) := by
  have hback : Function.LeftInverse (b.toInt a) (a.toInt b) := by
    intro x
    rw [toInt_toInt_of_le h.le, toInt_self]
  exact hback.injective

/-- a count has the same residue in every kind of one width, be it negative in one and huge in the other -/
theorem shiftCount_toInt (h : a.bits = b.bits) (x : BitVec a.bits) : b.shiftCount (a.toInt b x) = a.shiftCount x := by
  have hlt : x.toNat < 2 ^ b.bits := h ▸ x.isLt
  rw [toInt_eq_setWidth h.ge, shiftCount_eq, shiftCount_eq, BitVec.toNat_setWidth, Nat.mod_eq_of_lt hlt]
  exact congrArg (x.toNat % ·) h.symm

theorem order_eq_iff (x y : BitVec a.bits) : a.order x y = .eq ↔ x = y := by
  rw [order, compare_eq_iff_eq, value_injective.eq_iff]

end IntKind

/-! ## Operators and casts -/

namespace Operator

/-- the cast to `b` carries the operator over: its result on kind `a`, when cast, is its result on the casts -/
def Carried (op : Operator) (a b : Kind) (args : List Scalar) : Prop :=
  ∃ v, op.apply a args = some (.ok v) ∧ op.apply b (args.map (Scalar.cast b)) = some (.ok (v.cast b))

/-- the operator gives one and the same truth value on kind `a` and on the casts to `b` -/
def Agrees (op : Operator) (a b : Kind) (args : List Scalar) : Prop :=
  ∃ t : Bool, op.apply a args = some (.ok (.bool t)) ∧ op.apply b (args.map (Scalar.cast b)) = some (.ok (.bool t))

/-- kinds with integer arithmetic have all operators of two operands -/
theorem isLinked_of_isInteger {op : Operator} {k : Kind} (hk : k.isInteger = true) (hop : op.arity = 2) :
    op.isLinked k = true := by
  have htable : ∀ k ∈ Kind.all, ∀ op ∈ all, k.isInteger = true → op.arity = 2 → op.isLinked k = true := by
    decide
  exact htable k k.mem_all op op.mem_all hk hop

theorem isLinked_unaryMinus {k : IntKind} (hk : k.signed = true) : unaryMinus.isLinked (.int k) = true := by
  revert hk
  cases k <;> decide

/-- all kinds but the truth values have all comparisons -/
theorem isLinked_of_isComparison {op : Operator} {k : Kind} (hop : op.isComparison = true) (hk : k ≠ .bool) :
    op.isLinked k = true := by
  have htable : ∀ k ∈ Kind.all, ∀ op ∈ all, op.isComparison = true → k ≠ .bool → op.isLinked k = true := by
    decide
  exact htable k k.mem_all op op.mem_all hop hk

theorem compare_ints {op : Operator} (hop : op.isComparison = true) {k : IntKind} (x y : BitVec k.bits) :
    op.apply (.int k) [.int k x, .int k y] = some (.ok (.bool (op.holds (some (k.order x y))))) := by
  rw [apply_ints (isLinked_of_isComparison hop (by simp))]
  cases op with
  | less | lessEq | greater | greaterEq | eq | notEq => rfl
  | _ => exact absurd hop Bool.false_ne_true

theorem compare_floats {op : Operator} (hop : op.isComparison = true) {k : FloatKind} (x y : BitVec k.bits) :
    op.apply (.float k) [.float k x, .float k y] = some (.ok (.bool (op.holds (k.order x y)))) := by
  rw [apply_floats (isLinked_of_isComparison hop (by simp))]
  cases op with
  | less | lessEq | greater | greaterEq | eq | notEq => rfl
  | _ => exact absurd hop Bool.false_ne_true

variable {op : Operator} {a b : IntKind}

theorem carried_of_onInts {x y r : BitVec a.bits} (ha : op.isLinked (.int a) = true) (hb : op.isLinked (.int b) = true)
    (hresult : op.onInts a x y = some (.ok (.int a r)))
    (hcast : op.onInts b (a.toInt b x) (a.toInt b y) = some (.ok (.int b (a.toInt b r)))) :
    op.Carried (.int a) (.int b) [.int a x, .int a y] :=
  ⟨.int a r, (apply_ints ha x y).trans hresult, (apply_ints hb _ _).trans hcast⟩

/-- an operation on words of every width whose low result bits come from low operand bits -/
def LowBits (f : ∀ w, BitVec w → BitVec w → BitVec w) : Prop :=
  ∀ (w i : ℕ) (x y : BitVec w), i ≤ w → (f w x y).setWidth i = f i (x.setWidth i) (y.setWidth i)

theorem lowBits_sub : LowBits fun _ x y => x - y := by
  intro w i x y h
  show (x - y).setWidth i = x.setWidth i - y.setWidth i
  rw [BitVec.sub_eq_add_neg, BitVec.setWidth_add _ _ h, BitVec.setWidth_neg_of_le h, BitVec.sub_eq_add_neg]

/-- the wrapping and the bitwise operators are such operations, one for all kinds -/
theorem exists_lowBits (hop : op ∈ [add, sub, mul, and, or, xor]) :
    ∃ f, LowBits f ∧ ∀ (k : IntKind) (x y : BitVec k.bits), op.onInts k x y = some (.ok (.int k (f k.bits x y))) := by
  simp only [List.mem_cons, List.not_mem_nil, or_false] at hop
  rcases hop with rfl | rfl | rfl | rfl | rfl | rfl
  · exact ⟨fun _ x y => x + y, fun _ _ x y h => BitVec.setWidth_add x y h, fun _ _ _ => rfl⟩
  · exact ⟨fun _ x y => x - y, lowBits_sub, fun _ _ _ => rfl⟩
  · exact ⟨fun _ x y => x * y, fun _ _ x y h => BitVec.setWidth_mul x y h, fun _ _ _ => rfl⟩
  · exact ⟨fun _ x y => x &&& y, fun _ _ _ _ _ => BitVec.setWidth_and, fun _ _ _ => rfl⟩
  · exact ⟨fun _ x y => x ||| y, fun _ _ _ _ _ => BitVec.setWidth_or, fun _ _ _ => rfl⟩
  · exact ⟨fun _ x y => x ^^^ y, fun _ _ _ _ _ => BitVec.setWidth_xor, fun _ _ _ => rfl⟩

/-- low bits are all that a cast to a kind that is not wider keeps, and all that these operators need -/
theorem carried_of_not_wider (ha : (Kind.int a).isInteger = true) (hb : (Kind.int b).isInteger = true)
    (hop : op ∈ [add, sub, mul, and, or, xor]) (hbits : b.bits ≤ a.bits) (x y : BitVec a.bits) :
    op.Carried (.int a) (.int b) [.int a x, .int a y] := by
  have hpair : op.arity = 2 := by
    revert op
    decide
  obtain ⟨f, hf, honInts⟩ := exists_lowBits hop
  refine carried_of_onInts (isLinked_of_isInteger ha hpair) (isLinked_of_isInteger hb hpair) (honInts a x y) ?_
  rw [honInts, IntKind.toInt_eq_setWidth hbits, IntKind.toInt_eq_setWidth hbits, IntKind.toInt_eq_setWidth hbits,
    hf _ _ x y hbits]

theorem carried_unaryMinus (ha : a.signed = true) (hb : b.signed = true) (hbits : b.bits ≤ a.bits) (x : BitVec a.bits) :
    unaryMinus.Carried (.int a) (.int b) [.int a x] := by
  refine ⟨.int a (-x), apply_unaryMinus_int (isLinked_unaryMinus ha) x, ?_⟩
  have hneg : a.toInt b (-x) = -a.toInt b x := by
    rw [IntKind.toInt_eq_setWidth hbits, IntKind.toInt_eq_setWidth hbits, BitVec.setWidth_neg_of_le hbits]
  show apply unaryMinus (.int b) [.int b (a.toInt b x)] = some (.ok (.int b (a.toInt b (-x))))
  rw [apply_unaryMinus_int (isLinked_unaryMinus hb), hneg]

theorem carried_lshift (ha : (Kind.int a).isInteger = true) (hb : (Kind.int b).isInteger = true) (hbits : a.bits = b.bits)
    (x y : BitVec a.bits) : lshift.Carried (.int a) (.int b) [.int a x, .int a y] := by
  refine carried_of_onInts (r := a.lshift x y) (isLinked_of_isInteger ha rfl) (isLinked_of_isInteger hb rfl) rfl ?_
  have hshift : b.lshift (a.toInt b x) (a.toInt b y) = a.toInt b (a.lshift x y) := by
    rw [IntKind.lshift, IntKind.lshift, IntKind.shiftCount_toInt hbits, IntKind.toInt_eq_setWidth hbits.ge,
      IntKind.toInt_eq_setWidth hbits.ge, BitVec.setWidth_shiftLeft_of_le hbits.ge]
  rw [← hshift]
  rfl

theorem agrees_equality (hop : op = eq ∨ op = notEq) (hbits : a.bits = b.bits) (x y : BitVec a.bits) :
    op.Agrees (.int a) (.int b) [.int a x, .int a y] := by
  have horder : b.order (a.toInt b x) (a.toInt b y) = .eq ↔ a.order x y = .eq := by
    rw [IntKind.order_eq_iff, IntKind.order_eq_iff, (IntKind.toInt_injective hbits).eq_iff]
  have hholds : op.holds (some (b.order (a.toInt b x) (a.toInt b y))) = op.holds (some (a.order x y)) := by
    rw [Bool.eq_iff_iff]
    rcases hop with rfl | rfl
    · simp [holds, horder]
    · simp [holds, horder]
  have hcomparison : op.isComparison = true := by
    rcases hop with rfl | rfl <;> rfl
  exact ⟨_, compare_ints hcomparison x y, hholds ▸ compare_ints hcomparison (a.toInt b x) (a.toInt b y)⟩

end Operator

/-! ## Main results -/

/-- **An intermediate integer cast is invisible exactly when it keeps enough.** A cast from a kind to itself changes
nothing. A cast from `a` to `c` by way of `b` is the direct cast, for every value of `a`, if and only if `c` is not wider
than `b` or every value of `a` is a value of `b`. -/
theorem cast_cast_eq_iff :
    (∀ (a : IntKind) (x : BitVec a.bits), (Scalar.int a x).cast (.int a) = .int a x) ∧
    ∀ a b c : IntKind,
      (∀ x : BitVec a.bits, ((Scalar.int a x).cast (.int b)).cast (.int c) = (Scalar.int a x).cast (.int c)) ↔
        c.bits ≤ b.bits ∨ ∀ x : BitVec a.bits, ∃ y : BitVec b.bits, b.value y = a.value x := by
  refine ⟨fun a x => congrArg (Scalar.int a) (a.toInt_self x), ?_⟩
  intro a b c
  have hcast : ∀ x : BitVec a.bits,
      ((Scalar.int a x).cast (.int b)).cast (.int c) = (Scalar.int a x).cast (.int c) ↔
        b.toInt c (a.toInt b x) = a.toInt c x := by
    intro x
    simp [Scalar.cast]
  simp only [hcast]
  constructor
  · intro hall
    by_contra hnot
    obtain ⟨hwider, hembeds⟩ := not_or.1 hnot
    obtain ⟨x, hx⟩ := IntKind.exists_wraps_once hembeds
    have hsame := IntKind.wrap_eq_wrap_iff.1 (hall x)
    have hvisible := IntKind.not_modEq_of_lt (not_le.1 hwider) (a.value x)
    rcases hx with hx | hx
    · rw [hx] at hsame
      exact hvisible.1 hsame
    · rw [hx] at hsame
      exact hvisible.2 hsame
  · rintro (hnarrow | hembeds) x
    · exact IntKind.toInt_toInt_of_le hnarrow x
    · exact IntKind.Embeds.toInt_toInt hembeds x

-- the kind in between has no negative values, and the target has room to show it
example : ((Scalar.int .i32 (-1)).cast (.int .ui32)).cast (.int .i64) ≠ (Scalar.int .i32 (-1)).cast (.int .i64) := by
  decide

/-- **Casts that do not widen carry the operators over.** Between kinds with integer arithmetic, the target not wider,
casting the result of an addition, subtraction, multiplication or bitwise operator is the same as operating on the
casts, also where one of the kinds or both overflow. So it is for negation if both kinds have a sign. Between kinds of
one width it is so for left shifts too, and the two tests for equality answer alike. -/
theorem narrowing_cast_carries (a b : IntKind) (ha : (Kind.int a).isInteger = true) (hb : (Kind.int b).isInteger = true)
    (hbits : b.bits ≤ a.bits) (x y : BitVec a.bits) :
    (∀ op ∈ [Operator.add, .sub, .mul, .and, .or, .xor], op.Carried (.int a) (.int b) [.int a x, .int a y]) ∧
    (a.signed = true → b.signed = true → Operator.unaryMinus.Carried (.int a) (.int b) [.int a x]) ∧
    (a.bits = b.bits → Operator.lshift.Carried (.int a) (.int b) [.int a x, .int a y] ∧
      ∀ op ∈ [Operator.eq, .notEq], op.Agrees (.int a) (.int b) [.int a x, .int a y]) := by
  refine ⟨?_, ?_, ?_⟩
  · intro op hop
    exact Operator.carried_of_not_wider ha hb hop hbits x y
  · intro hsa hsb
    exact Operator.carried_unaryMinus hsa hsb hbits x
  · intro heq
    refine ⟨Operator.carried_lshift ha hb heq x y, ?_⟩
    intro op hop
    exact Operator.agrees_equality (by simpa using hop) heq x y

/-- a product and a negation that overflow, and a shift by -1, which is a shift by 63 places -/
theorem narrowing_cast_carries_overflow :
    let least : BitVec 64 := BitVec.intMin 64
    let one : BitVec 64 := 1
    ((Kind.int .i64).isInteger = true ∧ (Kind.int .i32).isInteger = true ∧ IntKind.i32.bits ≤ IntKind.i64.bits) ∧
    (Operator.mul.Carried (.int .i64) (.int .i32) [.int .i64 least, .int .i64 (-one)] ∧
      Operator.unaryMinus.Carried (.int .i64) (.int .i32) [.int .i64 least]) ∧
    (Operator.lshift.Carried (.int .i64) (.int .ui64) [.int .i64 one, .int .i64 (-one)] ∧
      Operator.notEq.Agrees (.int .i64) (.int .ui64) [.int .i64 one, .int .i64 (-one)]) ∧
    Operator.lshift.apply (.int .i64) [.int .i64 one, .int .i64 (-one)] = some (.ok (.int .i64 least)) := by
  intro least one
  obtain ⟨hring, hneg, -⟩ := narrowing_cast_carries .i64 .i32 rfl rfl (by decide) least (-one)
  obtain ⟨-, -, hsame⟩ := narrowing_cast_carries .i64 .ui64 rfl rfl le_rfl one (-one)
  exact ⟨⟨rfl, rfl, by decide⟩, ⟨hring _ (by decide), hneg rfl rfl⟩, ⟨(hsame rfl).1, (hsame rfl).2 _ (by decide)⟩,
    by decide +kernel⟩

end CallSurface
