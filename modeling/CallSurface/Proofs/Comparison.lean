/-
Comparisons agree with the order of exact values.

A scalar that is not NaN has an exact value among the rationals with an infinity at either end (`Scalar.exactValue`).
Patterns of a float kind are compared by sign and code. Magnitudes grow with codes, so finite patterns are in the order of
their values (`rank_lt_iff`), with the two zeros in one place, and the infinities lie outside (`extended_cases`). Integers
are their own values. So all six comparisons, of every kind that has them, are read off from one order
(`apply_comparison`), and a NaN has no place in it.

Main result: `comparisons_follow_exact_order`.
-/
import CallSurface.Proofs.FloatCast
import Mathlib.Order.WithBotTop

namespace CallSurface

namespace FloatKind

variable {k : FloatKind} {x y : BitVec k.bits}

/-! ## Floats among the extended rationals -/

/-- the exact value of a float that is not NaN -/
def extended (k : FloatKind) (x : BitVec k.bits) : WithBotTop ℚ :=
  if k.isInfinite x then (if k.negative x then ⊥ else ⊤) else WithBotTop.coe (k.toRat x)

/-- codes grow with magnitudes, so that sign and code tell the order of exact values -/
theorem rank_lt_iff : k.rank x < k.rank y ↔ k.toRat x < k.toRat y := by
  have hsteps := compare_signed (k.codeSteps_strictMono.strictMonoOn Set.univ) (Set.mem_univ 0) k.codeSteps_zero
    (Set.mem_univ (k.code x)) (Set.mem_univ (k.code y)) (k.negative x) (k.negative y)
  calc k.rank x < k.rank y
      ↔ signed (k.negative x) (k.code x) < signed (k.negative y) (k.code y) := Iff.rfl
    _ ↔ signed (k.negative x) (k.codeSteps (k.code x)) < signed (k.negative y) (k.codeSteps (k.code y)) := by
        rw [← compare_lt_iff_lt, ← compare_lt_iff_lt, hsteps]
    _ ↔ k.toRat x < k.toRat y := by
        rw [toRat_eq, toRat_eq, div_lt_div_iff_of_pos_right k.stepsPerOne_cast_pos, Int.cast_lt]

/-- the infinities are at the ends, and everything finite is between them -/
theorem extended_cases (hx : k.isNaN x = false) :
    (k.rank x = k.infinityCode ∧ k.extended x = ⊤) ∨ (k.rank x = -k.infinityCode ∧ k.extended x = ⊥) ∨
      ((-k.infinityCode < k.rank x ∧ k.rank x < k.infinityCode) ∧
        k.extended x = WithBotTop.coe (k.toRat x)) := by
  rcases isFinite_or_isInfinite hx with hfinite | hinf
  · right
    right
    have hcode : k.code x < k.infinityCode := of_decide_eq_true hfinite
    refine ⟨?_, by rw [extended, ((k.isFinite_eq_true_iff x).1 hfinite).2]; rfl⟩
    unfold rank
    split_ifs <;> omega
  · have hcode : k.code x = k.infinityCode := beq_iff_eq.1 hinf
    by_cases hneg : k.negative x = true
    · exact Or.inr (Or.inl (by simp [rank, extended, hcode, hinf, hneg]))
    · exact Or.inl (by simp [rank, extended, hcode, hinf, hneg])

theorem rank_bounds (hx : k.isNaN x = false) : -k.infinityCode ≤ k.rank x ∧ k.rank x ≤ k.infinityCode := by
  rcases extended_cases hx with ⟨hrank, -⟩ | ⟨hrank, -⟩ | ⟨hrank, -⟩ <;> omega

theorem extended_eq_bot_iff (hx : k.isNaN x = false) : k.extended x = ⊥ ↔ k.rank x = -k.infinityCode := by
  have hpos := k.infinityCode_pos
  rcases extended_cases hx with ⟨hrank, hvalue⟩ | ⟨hrank, hvalue⟩ | ⟨hrank, hvalue⟩
  · rw [hvalue, hrank]
    exact iff_of_false WithBotTop.top_ne_bot (by omega)
  · exact iff_of_true hvalue hrank
  · rw [hvalue]
    exact iff_of_false (WithBotTop.coe_ne_bot _) hrank.1.ne'

theorem extended_lt_iff (hx : k.isNaN x = false) (hy : k.isNaN y = false) :
    k.extended x < k.extended y ↔ k.rank x < k.rank y := by
  obtain ⟨hlow, hhigh⟩ := rank_bounds hy
  rcases extended_cases hx with ⟨hrank, hvalue⟩ | ⟨hrank, hvalue⟩ | ⟨hrank, hvalue⟩
  · rw [hvalue, hrank]
    exact iff_of_false not_top_lt hhigh.not_gt
  · rw [hvalue, hrank, bot_lt_iff_ne_bot, ne_eq, extended_eq_bot_iff hy]
    omega
  · rcases extended_cases hy with ⟨hrank', hvalue'⟩ | ⟨hrank', hvalue'⟩ | ⟨-, hvalue'⟩
    · rw [hvalue, hvalue', hrank', lt_top_iff_ne_top]
      exact iff_of_true (WithBotTop.coe_ne_top _) hrank.2
    · rw [hvalue', hrank']
      exact iff_of_false not_lt_bot hrank.1.not_gt
    · rw [hvalue, hvalue', WithBotTop.coe_lt_coe, rank_lt_iff]

/-- **Floats are compared as their exact values.** -/
theorem order_eq_compare (hx : k.isNaN x = false) (hy : k.isNaN y = false) :
    k.order x y = some (compare (k.extended x) (k.extended y)) := by
  have hranks : compare (k.rank x) (k.rank y) = compare (k.extended x) (k.extended y) :=
    compare_eq_compare (extended_lt_iff hx hy).symm (extended_lt_iff hy hx).symm
  rw [order, hx, hy, ← hranks]
  rfl

/-! ## Zero -/

theorem rank_eq_zero_iff : k.rank x = 0 ↔ k.isZero x = true := by
  unfold rank isZero
  split_ifs <;> simp

theorem ofInteger_zero (k : FloatKind) : k.ofInteger 0 = k.zero false := by
  have hcode : k.nearestCode (0 * k.stepsPerOne) 1 = 0 := by rw [Nat.zero_mul, nearestCode_zero Nat.one_pos]
  exact congrArg (k.ofCode false) hcode

theorem order_zero (hx : k.isNaN x = false) : k.order x (k.zero false) = some (compare (k.rank x) 0) := by
  have hnumber : k.isNaN (k.zero false) = false := by cases k <;> decide
  have hrank : k.rank (k.zero false) = 0 := by cases k <;> decide
  rw [order, hx, hnumber, hrank]
  rfl

theorem isZero_of_isNaN (hx : k.isNaN x = true) : k.isZero x = false := by
  have hcode : k.infinityCode < k.code x := of_decide_eq_true hx
  exact beq_eq_false_iff_ne.2 (by omega)

end FloatKind

/-! ## Scalars -/

namespace Scalar

def isNaN : Scalar → Bool
  | float k x => k.isNaN x
  | _ => false

/-- the exact value of a scalar that is not NaN -/
def exactValue : Scalar → WithBotTop ℚ
  | int k x => WithBotTop.coe (k.value x)
  | float k x => k.extended x
  | bool b => WithBotTop.coe b.toNat

/-- a pair with a NaN has no order -/
def Unordered (v w : Scalar) : Prop :=
  v.isNaN = true ∨ w.isNaN = true

end Scalar

namespace Operator

/-- the relation between values that a comparison tests -/
def Relates {α : Type} [LinearOrder α] (op : Operator) (a b : α) : Prop :=
  match op with
  | less => a < b
  | lessEq => a ≤ b
  | greater => b < a
  | greaterEq => b ≤ a
  | eq => a = b
  | notEq => a ≠ b
  | _ => False

variable {op : Operator}

theorem holds_compare_iff {α : Type} [LinearOrder α] (hop : op.isComparison = true) (a b : α) :
    op.holds (some (compare a b)) = true ↔ op.Relates a b := by
  cases op with
  | less => simp [holds, Relates, compare_lt_iff_lt]
  | lessEq => simp [holds, Relates, compare_lt_iff_lt, le_iff_lt_or_eq]
  | greater => simp [holds, Relates, compare_gt_iff_gt]
  | greaterEq => simp [holds, Relates, compare_gt_iff_gt, le_iff_lt_or_eq, @eq_comm _ b a]
  | eq => simp [holds, Relates]
  | notEq => simp [holds, Relates]
  | _ => exact absurd hop Bool.false_ne_true

theorem holds_none_iff (hop : op.isComparison = true) : op.holds none = true ↔ op = notEq := by
  cases op with
  | less | lessEq | greater | greaterEq | eq | notEq => decide
  | _ => exact absurd hop Bool.false_ne_true

/-- the comparison answers with `true` -/
def Affirms (op : Operator) (k : Kind) (v w : Scalar) : Prop :=
  op.apply k [v, w] = some (.ok (.bool true))

instance (op : Operator) (k : Kind) (v w : Scalar) : Decidable (op.Affirms k v w) :=
  inferInstanceAs (Decidable (op.apply k [v, w] = some (.ok (.bool true))))

section

variable {k : Kind} {v w : Scalar} (hk : k ≠ .bool) (hv : v.kind = k) (hw : w.kind = k)

include hk hv hw

/-- **A comparison answers by exact values**, and beside a NaN everything differs. -/
theorem apply_comparison (hop : op.isComparison = true) :
    ∃ t : Bool, op.apply k [v, w] = some (.ok (.bool t)) ∧ (v.Unordered w → (t = true ↔ op = notEq)) ∧
      (¬ v.Unordered w → (t = true ↔ op.Relates v.exactValue w.exactValue)) := by
  cases k with
  | int k =>
    obtain ⟨x, rfl⟩ := Scalar.eq_int_of_kind hv
    obtain ⟨y, rfl⟩ := Scalar.eq_int_of_kind hw
    refine ⟨_, compare_ints hop x y, by simp [Scalar.Unordered, Scalar.isNaN], fun _ => ?_⟩
    have horder : k.order x y = compare (Scalar.int k x).exactValue (Scalar.int k y).exactValue := by
      apply compare_eq_compare <;> simp [Scalar.exactValue]
    rw [horder, holds_compare_iff hop]
  | float k =>
    obtain ⟨x, rfl⟩ := Scalar.eq_float_of_kind hv
    obtain ⟨y, rfl⟩ := Scalar.eq_float_of_kind hw
    refine ⟨_, compare_floats hop x y, fun hnan => ?_, fun hnumbers => ?_⟩
    · rw [FloatKind.order_of_isNaN hnan, holds_none_iff hop]
    · obtain ⟨hx, hy⟩ := not_or.1 hnumbers
      rw [FloatKind.order_eq_compare (Bool.eq_false_of_not_eq_true hx) (Bool.eq_false_of_not_eq_true hy),
        holds_compare_iff hop]
      rfl
  | bool => exact absurd rfl hk

theorem affirms_iff_of_unordered (hop : op.isComparison = true) (hnan : v.Unordered w) :
    op.Affirms k v w ↔ op = notEq := by
  obtain ⟨t, happly, hunordered, -⟩ := apply_comparison hk hv hw hop
  rw [Affirms, happly, ← hunordered hnan]
  simp

theorem affirms_iff_of_ordered (hop : op.isComparison = true) (hnumbers : ¬ v.Unordered w) :
    op.Affirms k v w ↔ op.Relates v.exactValue w.exactValue := by
  obtain ⟨t, happly, -, hordered⟩ := apply_comparison hk hv hw hop
  rw [Affirms, happly, ← hordered hnumbers]
  simp

/-! ## Coherence -/

/-- the mirrored comparison of the mirrored pair -/
theorem apply_mirrored {op' : Operator} (hop : op.isComparison = true) (hop' : op'.isComparison = true) (hne : op ≠ notEq)
    (hne' : op' ≠ notEq) (hmirror : ∀ a b : WithBotTop ℚ, op.Relates a b ↔ op'.Relates b a) :
    op.apply k [v, w] = op'.apply k [w, v] := by
  obtain ⟨t, happly, hunordered, hordered⟩ := apply_comparison hk hv hw hop
  obtain ⟨t', happly', hunordered', hordered'⟩ := apply_comparison hk hw hv hop'
  have hsame : t = true ↔ t' = true := by
    by_cases hnan : v.Unordered w
    · rw [hunordered hnan, hunordered' hnan.symm]
      exact iff_of_false hne hne'
    · rw [hordered hnan, hordered' fun h => hnan h.symm, hmirror]
  rw [happly, happly', Bool.eq_iff_iff.2 hsame]

theorem notEq_affirms_iff : notEq.Affirms k v w ↔ ¬ eq.Affirms k v w := by
  by_cases hnan : v.Unordered w
  · rw [affirms_iff_of_unordered hk hv hw rfl hnan, affirms_iff_of_unordered hk hv hw rfl hnan]
    decide
  · rw [affirms_iff_of_ordered hk hv hw rfl hnan, affirms_iff_of_ordered hk hv hw rfl hnan]
    rfl

theorem lessEq_affirms_iff : lessEq.Affirms k v w ↔ less.Affirms k v w ∨ eq.Affirms k v w := by
  by_cases hnan : v.Unordered w
  · rw [affirms_iff_of_unordered hk hv hw rfl hnan, affirms_iff_of_unordered hk hv hw rfl hnan,
      affirms_iff_of_unordered hk hv hw rfl hnan]
    decide
  · rw [affirms_iff_of_ordered hk hv hw rfl hnan, affirms_iff_of_ordered hk hv hw rfl hnan,
      affirms_iff_of_ordered hk hv hw rfl hnan]
    exact le_iff_lt_or_eq

theorem less_affirms_iff : less.Affirms k v w ↔ ¬ v.Unordered w ∧ v.exactValue < w.exactValue := by
  by_cases hnan : v.Unordered w
  · rw [affirms_iff_of_unordered hk hv hw rfl hnan]
    exact iff_of_false (by decide) fun h => h.1 hnan
  · rw [affirms_iff_of_ordered hk hv hw rfl hnan]
    exact (and_iff_right hnan).symm

theorem less_affirms_trans {u : Scalar} (hu : u.kind = k) (hvw : less.Affirms k v w) (hwu : less.Affirms k w u) :
    less.Affirms k v u := by
  obtain ⟨hnumbers, hlt⟩ := (less_affirms_iff hk hv hw).1 hvw
  obtain ⟨hnumbers', hlt'⟩ := (less_affirms_iff hk hw hu).1 hwu
  have hordered : ¬ v.Unordered u := not_or.2 ⟨(not_or.1 hnumbers).1, (not_or.1 hnumbers').2⟩
  exact (less_affirms_iff hk hv hu).2 ⟨hordered, hlt.trans hlt'⟩

end

/-- whether a scalar differs from zero is its truth -/
theorem apply_notEq_zero {k : Kind} {v : Scalar} (hk : k ≠ .bool) (hv : v.kind = k) :
    notEq.apply k [v, (Scalar.bool false).cast k] = some (.ok (.bool v.truth)) := by
  cases k with
  | int k =>
    obtain ⟨x, rfl⟩ := Scalar.eq_int_of_kind hv
    have hzero : k.value (k.wrap 0) = 0 := IntKind.value_wrap k.minValue_nonpos k.maxValue_pos.le
    have hholds : notEq.holds (some (k.order x (k.wrap 0))) = (k.value x != 0) := by
      rw [Bool.eq_iff_iff, IntKind.order, hzero, holds_compare_iff rfl, bne_iff_ne]
      rfl
    exact (compare_ints rfl x (k.wrap 0)).trans (by rw [hholds]; rfl)
  | float k =>
    obtain ⟨x, rfl⟩ := Scalar.eq_float_of_kind hv
    have hholds : notEq.holds (k.order x (k.ofInteger 0)) = !k.isZero x := by
      rw [FloatKind.ofInteger_zero]
      by_cases hx : k.isNaN x = true
      · rw [FloatKind.order_of_isNaN (Or.inl hx), FloatKind.isZero_of_isNaN hx]
        rfl
      · rw [FloatKind.order_zero (Bool.eq_false_of_not_eq_true hx), Bool.eq_iff_iff, holds_compare_iff rfl,
          Bool.not_eq_true', ← Bool.not_eq_true, ← FloatKind.rank_eq_zero_iff]
        rfl
    exact (compare_floats rfl x (k.ofInteger 0)).trans (by rw [hholds]; rfl)
  | bool => exact absurd rfl hk

end Operator

/-- one of the three, and not two -/
def ExactlyOne (p q r : Prop) : Prop :=
  p ∧ ¬ q ∧ ¬ r ∨ ¬ p ∧ q ∧ ¬ r ∨ ¬ p ∧ ¬ q ∧ r

theorem exactlyOne_lt_eq_gt {α : Type} [LinearOrder α] (a b : α) : ExactlyOne (a < b) (a = b) (b < a) := by
  rcases lt_trichotomy a b with h | h | h
  · exact Or.inl ⟨h, h.ne, h.not_gt⟩
  · exact Or.inr (Or.inl ⟨h.not_lt, h, h.not_gt⟩)
  · exact Or.inr (Or.inr ⟨h.not_gt, h.ne', h⟩)

/-- **Comparisons are coherent and agree with exact order.** On two scalars of a kind with the six comparisons, each of
them answers with a truth value. Greater is less with the operands swapped, and so are the two that allow equality;
`notEq` is the negation of `eq`, `lessEq` is `less` or `eq`, and `less` is transitive. If neither operand is NaN, which an
integer never is, exactly one of less, equal and greater holds, and `less` and `eq` are the order and the equality of the
exact values. With a NaN `notEq` holds and no other. And a scalar is cast to the truth value of its being different from
the cast of `false`. -/
theorem comparisons_follow_exact_order (k : Kind)
    (hk : ∀ op : Operator, op.isComparison = true → op.supports k = true) (v w : Scalar) (hv : v.kind = k)
    (hw : w.kind = k) :
    (∀ op : Operator, op.isComparison = true → ∃ t : Bool, op.apply k [v, w] = some (.ok (.bool t))) ∧
    Operator.greater.apply k [v, w] = Operator.less.apply k [w, v] ∧
    Operator.greaterEq.apply k [v, w] = Operator.lessEq.apply k [w, v] ∧
    (Operator.notEq.Affirms k v w ↔ ¬ Operator.eq.Affirms k v w) ∧
    (Operator.lessEq.Affirms k v w ↔ Operator.less.Affirms k v w ∨ Operator.eq.Affirms k v w) ∧
    (∀ u : Scalar, u.kind = k → Operator.less.Affirms k v w → Operator.less.Affirms k w u →
      Operator.less.Affirms k v u) ∧
    (v.isNaN = false → w.isNaN = false →
      ExactlyOne (Operator.less.Affirms k v w) (Operator.eq.Affirms k v w) (Operator.greater.Affirms k v w) ∧
      (Operator.less.Affirms k v w ↔ v.exactValue < w.exactValue) ∧
      (Operator.eq.Affirms k v w ↔ v.exactValue = w.exactValue)) ∧
    (v.isNaN = true ∨ w.isNaN = true → ∀ op : Operator, op.isComparison = true → (op.Affirms k v w ↔ op = .notEq)) ∧
    ∃ z, (Symbol.cast .bool k).apply [.bool false] = some (.ok z) ∧
      (Symbol.cast k .bool).apply [v] = Operator.notEq.apply k [v, z] := by
  have hbool : k ≠ .bool := by
    rintro rfl
    exact absurd (hk .less rfl) (by decide)
  refine ⟨?_, ?_, ?_, Operator.notEq_affirms_iff hbool hv hw, Operator.lessEq_affirms_iff hbool hv hw,
    fun u hu => Operator.less_affirms_trans hbool hv hw hu, ?_, ?_, ?_⟩
  · intro op hop
    obtain ⟨t, happly, -⟩ := Operator.apply_comparison hbool hv hw hop
    exact ⟨t, happly⟩
  · exact Operator.apply_mirrored hbool hv hw rfl rfl (by decide) (by decide) fun _ _ => Iff.rfl
  · exact Operator.apply_mirrored hbool hv hw rfl rfl (by decide) (by decide) fun _ _ => Iff.rfl
  · intro hx hy
    have hordered : ¬ v.Unordered w := by simp [Scalar.Unordered, hx, hy]
    have hrelates := fun op hop => @Operator.affirms_iff_of_ordered op k v w hbool hv hw hop hordered
    rw [hrelates .less rfl, hrelates .eq rfl, hrelates .greater rfl]
    exact ⟨exactlyOne_lt_eq_gt _ _, Iff.rfl, Iff.rfl⟩
  · intro hnan op hop
    exact Operator.affirms_iff_of_unordered hbool hv hw hop hnan
  · have hcast := Symbol.apply_cast .bool v
    rw [hv] at hcast
    refine ⟨(Scalar.bool false).cast k, Symbol.apply_cast k (.bool false), ?_⟩
    rw [hcast, Operator.apply_notEq_zero hbool hv]
    cases v <;> rfl

/-- the two zeros of the narrow kind are equal, the least subnormal is below infinity, and a NaN differs from itself -/
theorem comparisons_follow_exact_order_edges :
    let kind : Kind := .float .f32
    let zero : Scalar := .float .f32 0
    let negativeZero : Scalar := .float .f32 0x80000000
    let least : Scalar := .float .f32 1
    let infinity : Scalar := .float .f32 0x7F800000
    let nan : Scalar := .float .f32 0x7FC00001
    (∀ op : Operator, op.isComparison = true → op.supports kind = true) ∧
    (zero.isNaN = false ∧ negativeZero.isNaN = false ∧ zero.exactValue = negativeZero.exactValue ∧
      Operator.eq.Affirms kind zero negativeZero) ∧
    (least.isNaN = false ∧ infinity.isNaN = false ∧ least.exactValue < infinity.exactValue ∧
      Operator.less.Affirms kind least infinity) ∧
    (nan.isNaN = true ∧ Operator.notEq.Affirms kind nan nan ∧ ¬ Operator.eq.Affirms kind nan nan) := by
  intro kind zero negativeZero least infinity nan
  have hkind : ∀ op : Operator, op.isComparison = true → op.supports kind = true := by
    intro op
    cases op <;> decide
  have hzeros : Operator.eq.Affirms kind zero negativeZero := by decide +kernel
  have hless : Operator.less.Affirms kind least infinity := by decide +kernel
  obtain ⟨-, -, -, -, -, -, hequal, -⟩ := comparisons_follow_exact_order kind hkind zero negativeZero rfl rfl
  obtain ⟨-, -, -, -, -, -, horder, -⟩ := comparisons_follow_exact_order kind hkind least infinity rfl rfl
  obtain ⟨-, -, -, -, -, -, -, hnan, -⟩ := comparisons_follow_exact_order kind hkind nan nan rfl rfl
  have hnumbers : zero.isNaN = false ∧ negativeZero.isNaN = false ∧ least.isNaN = false ∧ infinity.isNaN = false ∧
      nan.isNaN = true := by decide
  obtain ⟨hzero, hnegativeZero, hleast, hinfinity, hnan'⟩ := hnumbers
  refine ⟨hkind, ⟨hzero, hnegativeZero, (hequal hzero hnegativeZero).2.2.1 hzeros, hzeros⟩,
    ⟨hleast, hinfinity, (horder hleast hinfinity).2.1.1 hless, hless⟩, hnan', ?_, ?_⟩
  · exact (hnan (Or.inl hnan') .notEq rfl).2 rfl
  · rw [hnan (Or.inl hnan') .eq rfl]
    decide

end CallSurface
