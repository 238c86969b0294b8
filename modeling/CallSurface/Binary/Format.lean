/-
Binary floating-point values as bit patterns.

Below the sign bit stands the code of the magnitude. Codes grow with the magnitude: zero is code 0, the least positive
value is code 1, infinity is `infinityCode`, and the codes above it are NaNs. Every finite value is a whole number of
least steps (`steps`), where the least step is the least positive value and one is `2 ^ scale` steps. So sums,
products, quotients and decimals of finite values are exact quotients of naturals.
-/
import CallSurface.Kind
import CallSurface.Power

namespace CallSurface.FloatKind

/-- one is `2 ^ scale` least steps -/
def scale (k : FloatKind) : Nat :=
  twoPow (k.exponentBits - 1) - 2 + k.fractionBits

/-- number of least steps in one -/
def stepsPerOne (k : FloatKind) : Nat :=
  twoPow k.scale

/-- the weight of the sign bit -/
def signBit (k : FloatKind) : Nat :=
  twoPow (k.bits - 1)

/-- number of codes with the same exponent field -/
def codesPerExponent (k : FloatKind) : Nat :=
  twoPow k.fractionBits

/-- code of infinity: exponent field all ones, fraction zero -/
def infinityCode (k : FloatKind) : Nat :=
  (twoPow k.exponentBits - 1) * k.codesPerExponent

/-- the bits below the sign -/
def code (k : FloatKind) (x : BitVec k.bits) : Nat :=
  x.toNat % k.signBit

/-- is the sign bit set? -/
def negative (k : FloatKind) (x : BitVec k.bits) : Bool :=
  x.msb

/-- the bit pattern of a sign and a code -/
def ofCode (k : FloatKind) (neg : Bool) (c : Nat) : BitVec k.bits :=
  BitVec.ofNat k.bits ((if neg then k.signBit else 0) + c)

/-- the quiet NaN with a clear payload and the given sign -/
def nanWithSign (k : FloatKind) (neg : Bool) : BitVec k.bits :=
  k.ofCode neg (k.infinityCode + twoPow (k.fractionBits - 1))

/-- the NaN that operations give: quiet and positive -/
def quietNaN (k : FloatKind) : BitVec k.bits :=
  k.nanWithSign false

def infinity (k : FloatKind) (neg : Bool) : BitVec k.bits :=
  k.ofCode neg k.infinityCode

def zero (k : FloatKind) (neg : Bool) : BitVec k.bits :=
  k.ofCode neg 0

def isNaN (k : FloatKind) (x : BitVec k.bits) : Bool :=
  k.infinityCode < k.code x

def isInfinite (k : FloatKind) (x : BitVec k.bits) : Bool :=
  k.code x == k.infinityCode

def isFinite (k : FloatKind) (x : BitVec k.bits) : Bool :=
  k.code x < k.infinityCode

def isZero (k : FloatKind) (x : BitVec k.bits) : Bool :=
  k.code x == 0

/-- the magnitude of a finite code, in least steps -/
def codeSteps (k : FloatKind) (c : Nat) : Nat :=
  let e := c / k.codesPerExponent
  let f := c % k.codesPerExponent
  if e = 0 then f else (k.codesPerExponent + f) * twoPow (e - 1)

/-- the magnitude of a finite value, in least steps -/
def steps (k : FloatKind) (x : BitVec k.bits) : Nat :=
  k.codeSteps (k.code x)

/-- a finite value, in least steps -/
def signedSteps (k : FloatKind) (x : BitVec k.bits) : Int :=
  if k.negative x then -(k.steps x : Int) else k.steps x

/-- place of a value among those that are not NaN, infinities at the ends; the two zeros share one -/
def rank (k : FloatKind) (x : BitVec k.bits) : Int :=
  if k.negative x then -(k.code x : Int) else k.code x

end CallSurface.FloatKind
