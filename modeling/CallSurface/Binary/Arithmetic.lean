/-
Float arithmetic: the exact result, rounded once.

Operands are taken in least steps, so that the exact sum, product or quotient is a quotient of naturals. A NaN result
is always the positive quiet NaN; negation only flips the sign bit and keeps a NaN's payload.
-/
import CallSurface.Binary.Nearest

namespace CallSurface.FloatKind

variable (k : FloatKind) (x y : BitVec k.bits)

/-- flips the sign bit -/
def neg : BitVec k.bits :=
  x ^^^ BitVec.intMin k.bits

/-- the value nearest to a whole number of least steps; an exact zero has the sign that is asked for -/
def ofSteps (zeroNegative : Bool) (s : Int) : BitVec k.bits :=
  k.nearest (if s = 0 then zeroNegative else decide (s < 0)) s.natAbs 1

/-- an exact zero sum is positive unless both operands are negative -/
def add : BitVec k.bits :=
  if k.isNaN x || k.isNaN y then k.quietNaN
  else if k.isInfinite x then
    if k.isInfinite y && k.negative x != k.negative y then k.quietNaN else x
  else if k.isInfinite y then y
  else k.ofSteps (k.negative x && k.negative y) (k.signedSteps x + k.signedSteps y)

/-- an exact zero difference is positive unless `x` is negative and `y` is not -/
def sub : BitVec k.bits :=
  if k.isNaN x || k.isNaN y then k.quietNaN
  else if k.isInfinite x then
    if k.isInfinite y && k.negative x == k.negative y then k.quietNaN else x
  else if k.isInfinite y then k.neg y
  else k.ofSteps (k.negative x && !k.negative y) (k.signedSteps x - k.signedSteps y)

def mul : BitVec k.bits :=
  let sign := k.negative x != k.negative y
  if k.isNaN x || k.isNaN y then k.quietNaN
  else if k.isInfinite x || k.isInfinite y then
    if k.isZero x || k.isZero y then k.quietNaN else k.infinity sign
  else k.nearest sign (k.steps x * k.steps y) k.stepsPerOne

def div : BitVec k.bits :=
  let sign := k.negative x != k.negative y
  if k.isNaN x || k.isNaN y then k.quietNaN
  else if k.isInfinite x then
    if k.isInfinite y then k.quietNaN else k.infinity sign
  else if k.isInfinite y then k.zero sign
  else if k.isZero y then
    if k.isZero x then k.quietNaN else k.infinity sign
  else k.nearest sign (k.steps x * k.stepsPerOne) (k.steps y)

/-- remainder of the truncated quotient: exact, with the sign of `x` -/
def mod : BitVec k.bits :=
  if k.isNaN x || k.isInfinite x || k.isNaN y || k.isZero y then k.quietNaN
  else if k.isInfinite y then x
  else k.nearest (k.negative x) (k.steps x % k.steps y) 1

/-- order of two values; a NaN has none -/
def order : Option Ordering :=
  if k.isNaN x || k.isNaN y then none else some (compare (k.rank x) (k.rank y))

end CallSurface.FloatKind
