/-
Casts between kinds.

Between integer kinds a cast keeps the residue modulo the target's width. Into a float kind it rounds the exact value
once. From a float it truncates toward zero and clamps to the target's range, NaN giving zero. `bool` is zero or one,
and every value but zero is true.
-/
import CallSurface.Binary.Nearest
import CallSurface.Integer
import CallSurface.Scalar

namespace CallSurface

/-- an integer kept modulo the target's width -/
def IntKind.toInt (a b : IntKind) (x : BitVec a.bits) : BitVec b.bits :=
  b.wrap (a.value x)

namespace FloatKind

/-- the float nearest to an integer -/
def ofInteger (k : FloatKind) (n : Int) : BitVec k.bits :=
  k.nearest (decide (n < 0)) (n.natAbs * k.stepsPerOne) 1

/-- toward zero, then into the range of the target -/
def toInt (a : FloatKind) (b : IntKind) (x : BitVec a.bits) : BitVec b.bits :=
  if a.isNaN x then 0
  else if a.isInfinite x then b.wrap (if a.negative x then b.minValue else b.maxValue)
  else b.clamp ((a.signedSteps x).tdiv a.stepsPerOne)

/-- the value of the target kind nearest to `x`; the sign stays, also on zero -/
def toFloat (a b : FloatKind) (x : BitVec a.bits) : BitVec b.bits :=
  if a.isNaN x then b.quietNaN
  else if a.isInfinite x then b.infinity (a.negative x)
  else b.nearest (a.negative x) (a.steps x * b.stepsPerOne) a.stepsPerOne

end FloatKind

namespace Scalar

/-- is the scalar different from zero? NaN is, both zeros are not -/
def truth : Scalar → Bool
  | int k x => k.value x != 0
  | float k x => !k.isZero x
  | bool b => b

/-- the scalar as a value of kind `target` -/
def cast (target : Kind) (s : Scalar) : Scalar :=
  match target, s with
  | .int b, int a x => int b (a.toInt b x)
  | .int b, float a x => int b (a.toInt b x)
  | .int b, bool v => int b (b.wrap v.toNat)
  | .float b, int a x => float b (b.ofInteger (a.value x))
  | .float b, float a x => float b (a.toFloat b x)
  | .float b, bool v => float b (b.ofInteger v.toNat)
  | .bool, s => bool s.truth

end Scalar

end CallSurface
