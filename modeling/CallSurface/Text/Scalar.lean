/-
The canonical text of a scalar.

Integers are written in decimal, truth values as 0 and 1, a `char` as its one raw byte. Floats have six places: the
multiple of a millionth nearest to the exact value, ties to the even digit, with a minus sign wherever the sign bit is
set.
-/
import CallSurface.Binary.Format
import CallSurface.Integer
import CallSurface.Rounding
import CallSurface.Scalar
import CallSurface.Text.Decimal

namespace CallSurface

namespace FloatKind

/-- places of a float's text -/
def textPlaces : Nat := 6

/-- a finite magnitude in units of the last place -/
def lastPlaceUnits (k : FloatKind) (x : BitVec k.bits) : Nat :=
  roundDiv (k.steps x * tenPow textPlaces) k.stepsPerOne

/-- text of a magnitude -/
def magnitudeText (k : FloatKind) (x : BitVec k.bits) : Bytes :=
  if k.isNaN x then asciiBytes "nan"
  else if k.isInfinite x then asciiBytes "inf"
  else Decimal.fixed textPlaces (k.lastPlaceUnits x)

def text (k : FloatKind) (x : BitVec k.bits) : Bytes :=
  (if k.negative x then asciiBytes "-" else []) ++ k.magnitudeText x

end FloatKind

namespace Scalar

/-- the canonical text -/
def text : Scalar → Bytes
  | int .char x => [UInt8.ofBitVec x]
  | int k x => Decimal.integer (k.value x)
  | float k x => k.text x
  | bool b => Decimal.digits b.toNat

/-- what arrives when the text goes to a place with room for `limit` bytes, and whether all of it did -/
def textWithin (limit : Nat) (s : Scalar) : Bytes × Bool :=
  (s.text.take limit, s.text.length ≤ limit)

end Scalar

end CallSurface
