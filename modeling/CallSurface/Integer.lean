/-
Integer arithmetic of a kind.

A value is a bit pattern of the kind's width, and `value` is the exact integer it denotes. Arithmetic keeps the residue of
the exact result modulo `2 ^ bits`, and a shift moves bits; only division and remainder can fail, on a zero divisor and
on the one quotient that the kind cannot hold.
-/
import CallSurface.Kind
import CallSurface.Power

namespace CallSurface

/-- why an integer division stops the program -/
inductive Trap where
  | divideByZero
  | divideOverflow
  | remainderByZero
  | remainderOverflow
  deriving DecidableEq, Repr

def Trap.message : Trap → String
  | divideByZero => "attempt to divide by zero"
  | divideOverflow => "attempt to divide with overflow"
  | remainderByZero => "attempt to calculate the remainder with a divisor of zero"
  | remainderOverflow => "attempt to calculate the remainder with overflow"

namespace IntKind

/-- the exact integer that a bit pattern denotes -/
def value (k : IntKind) (x : BitVec k.bits) : Int :=
  if k.signed then x.toInt else x.toNat

/-- the bit pattern of the value congruent to `n` modulo `2 ^ k.bits` -/
def wrap (k : IntKind) (n : Int) : BitVec k.bits :=
  BitVec.ofInt k.bits n

/-- least value of the kind -/
def minValue (k : IntKind) : Int :=
  if k.signed then -(twoPow (k.bits - 1) : Int) else 0

/-- greatest value of the kind -/
def maxValue (k : IntKind) : Int :=
  if k.signed then (twoPow (k.bits - 1) : Int) - 1 else (twoPow k.bits : Int) - 1

/-- the value of the kind that is nearest to `n` -/
def clamp (k : IntKind) (n : Int) : BitVec k.bits :=
  k.wrap (max k.minValue (min k.maxValue n))

/-- the quotient of these two is one more than the greatest value -/
def overflows (k : IntKind) (x y : BitVec k.bits) : Bool :=
  k.value x == k.minValue && k.value y == -1

/-- quotient, truncated toward zero -/
def div (k : IntKind) (x y : BitVec k.bits) : Except Trap (BitVec k.bits) :=
  if k.value y = 0 then .error .divideByZero
  else if k.overflows x y then .error .divideOverflow
  else .ok (k.wrap ((k.value x).tdiv (k.value y)))

/-- remainder, zero or with the sign of `x`; it fails exactly where the quotient does -/
def mod (k : IntKind) (x y : BitVec k.bits) : Except Trap (BitVec k.bits) :=
  if k.value y = 0 then .error .remainderByZero
  else if k.overflows x y then .error .remainderOverflow
  else .ok (k.wrap ((k.value x).tmod (k.value y)))

/-- how far a shift by `c` goes: the count is cut to 32 bits, and of these the low ones that number a bit are kept -/
def shiftCount (k : IntKind) (c : BitVec k.bits) : Nat :=
  (c.setWidth 32).toNat &&& (k.bits - 1)

def lshift (k : IntKind) (x c : BitVec k.bits) : BitVec k.bits :=
  x <<< k.shiftCount c

/-- the sign moves in from above for signed kinds, zeros for the others -/
def rshift (k : IntKind) (x c : BitVec k.bits) : BitVec k.bits :=
  if k.signed then x.sshiftRight (k.shiftCount c) else x >>> k.shiftCount c

/-- order of the exact values -/
def order (k : IntKind) (x y : BitVec k.bits) : Ordering :=
  compare (k.value x) (k.value y)

end IntKind

end CallSurface
