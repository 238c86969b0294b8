/-
Tokens: what a scan takes from the input for a number, and the number it denotes.

A token keeps the bytes of its parts, so that its text can be shown when it denotes nothing. The value of a float token
is rounded once, from the exact decimal into the kind that is asked for.
-/
import CallSurface.Binary.Nearest
import CallSurface.Text.Decimal

namespace CallSurface

/-- bytes that separate numbers: tab, line feed, form feed, carriage return and blank -/
def isBlank (b : UInt8) : Bool :=
  b == 9 || b == 10 || b == 12 || b == 13 || b == 32

def isDigit (b : UInt8) : Bool :=
  48 ≤ b && b ≤ 57

def isMinus (b : UInt8) : Bool :=
  b == 45

def isSign (b : UInt8) : Bool :=
  b == 43 || isMinus b

def isPoint (b : UInt8) : Bool :=
  b == 46

/-- the small letter of a capital one, other bytes as they are -/
def lowerCase (b : UInt8) : UInt8 :=
  if 65 ≤ b && b ≤ 90 then b + 32 else b

def isLetter (b : UInt8) : Bool :=
  97 ≤ lowerCase b && lowerCase b ≤ 122

/-- `e` in either case -/
def isExponentMark (b : UInt8) : Bool :=
  lowerCase b == 101

/-- `i` or `n` in either case: a float written as a word begins so -/
def startsWord (b : UInt8) : Bool :=
  lowerCase b == 105 || lowerCase b == 110

/-- an optional sign, with digits behind it -/
structure IntToken where
  sign : Option UInt8
  digits : Bytes
  deriving DecidableEq, Repr

namespace IntToken

def text (t : IntToken) : Bytes :=
  t.sign.toList ++ t.digits

/-- the number written, of any size; a token without digits denotes none -/
def value? (t : IntToken) : Option Int :=
  if t.digits.isEmpty then none
  else if t.sign.any isMinus then some (-(Decimal.ofDigits t.digits : Int))
  else some (Decimal.ofDigits t.digits)

end IntToken

/-- the exponent part of a decimal -/
structure Exponent where
  mark : UInt8
  sign : Option UInt8
  digits : Bytes
  deriving DecidableEq, Repr

namespace Exponent

def text (e : Exponent) : Bytes :=
  e.mark :: e.sign.toList ++ e.digits

/-- an exponent that reaches this size takes no further digits -/
def saturation : Nat := 65536

def magnitude (e : Exponent) : Nat :=
  e.digits.foldl (fun v b => if v < saturation then 10 * v + Decimal.digitValue b else v) 0

def value (e : Exponent) : Int :=
  if e.sign.any isMinus then -(e.magnitude : Int) else e.magnitude

end Exponent

/-- a float as it stands in the input: a word such as `inf`, or a decimal -/
inductive FloatToken where
  | word (sign : Option UInt8) (letters : Bytes)
  | decimal (sign : Option UInt8) (whole : Bytes) (fraction : Option Bytes) (exponent : Option Exponent)
  deriving DecidableEq, Repr

namespace FloatToken

def text : FloatToken → Bytes
  | word sign letters => sign.toList ++ letters
  | decimal sign whole fraction exponent =>
    sign.toList ++ whole ++ (fraction.map (asciiBytes "." ++ ·)).getD [] ++ (exponent.map Exponent.text).getD []

/-- the float that a word names, letter case apart -/
def wordValue? (k : FloatKind) (neg : Bool) (letters : Bytes) : Option (BitVec k.bits) :=
  let w := letters.map lowerCase
  if w = asciiBytes "inf" || w = asciiBytes "infinity" then some (k.infinity neg)
  else if w = asciiBytes "nan" then some (k.nanWithSign neg)
  else none

/-- the float nearest to `m * 10 ^ e` -/
def decimalValue (k : FloatKind) (neg : Bool) (m : Nat) (e : Int) : BitVec k.bits :=
  k.nearest neg (m * tenPow e.toNat * k.stepsPerOne) (tenPow (-e).toNat)

/-- the float that the token denotes; a decimal needs a digit before or behind the point -/
def value? (k : FloatKind) : FloatToken → Option (BitVec k.bits)
  | word sign letters => wordValue? k (sign.any isMinus) letters
  | decimal sign whole fraction exponent =>
    let places := fraction.getD []
    let digits := whole ++ places
    if digits.isEmpty then none
    else some (decimalValue k (sign.any isMinus) (Decimal.ofDigits digits)
      ((exponent.map Exponent.value).getD 0 - places.length))

end FloatToken

end CallSurface
