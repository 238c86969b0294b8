/-
The float nearest to an exact quotient.

`nearestCode` is the one place where a float is rounded: to nearest, ties to the even significand, gradually down to
zero, and to infinity from the midpoint beyond the greatest finite value on. A significand that rounds up to the next
power of two carries into the exponent field by itself, because codes are consecutive.
-/
import CallSurface.Binary.Format
import CallSurface.Rounding

namespace CallSurface.FloatKind

/-- binary exponent, above the least one, of a magnitude with `n / d` least steps -/
def exponentOf (k : FloatKind) (n d : Nat) : Nat :=
  (n / d).log2 - k.fractionBits

/-- code of the magnitude nearest to `n / d` least steps -/
def nearestCode (k : FloatKind) (n d : Nat) : Nat :=
  let q := k.exponentOf n d
  min k.infinityCode (q * k.codesPerExponent + roundDiv n (d * twoPow q))

/-- the value nearest to `n / d` least steps, with the given sign (also on zero) -/
def nearest (k : FloatKind) (neg : Bool) (n d : Nat) : BitVec k.bits :=
  k.ofCode neg (k.nearestCode n d)

end CallSurface.FloatKind
