/-
Decimal notation over bytes.

`digits` writes a natural number without superfluous zeros, `lastDigits` writes a fixed number of places, and
`ofDigits` is the positional value of a digit string of any length.
-/
import CallSurface.Power

namespace CallSurface

/-- raw bytes, as they pass through standard input and output -/
abbrev Bytes := List UInt8

/-- the bytes of an ASCII text -/
def asciiBytes (s : String) : Bytes :=
  s.toList.map fun c => UInt8.ofNat c.toNat

/-- the text of ASCII bytes -/
def asciiText (bs : Bytes) : String :=
  String.ofList (bs.map fun b => Char.ofNat b.toNat)

namespace Decimal

/-- the byte of a digit -/
def digitByte (d : Nat) : UInt8 :=
  UInt8.ofNat (48 + d)

/-- the digit of a byte -/
def digitValue (b : UInt8) : Nat :=
  b.toNat - 48

/-- decimal notation of `n`, most significant digit first, without superfluous zeros -/
def digits (n : Nat) : Bytes :=
  if n < 10 then [digitByte n] else digits (n / 10) ++ [digitByte (n % 10)]
termination_by n

/-- the last `places` digits of `n`, with leading zeros -/
def lastDigits : (places n : Nat) → Bytes
  | 0, _ => []
  | places + 1, n => lastDigits places (n / 10) ++ [digitByte (n % 10)]

/-- the number that a digit string denotes -/
def ofDigits (ds : Bytes) : Nat :=
  ds.foldl (fun v b => 10 * v + digitValue b) 0

/-- decimal notation of an integer: a minus sign for negative ones only -/
def integer (n : Int) : Bytes :=
  if n < 0 then asciiBytes "-" ++ digits n.natAbs else digits n.natAbs

/-- `n / 10 ^ places`, written with exactly that many places -/
def fixed (places n : Nat) : Bytes :=
  digits (n / tenPow places) ++ asciiBytes "." ++ lastDigits places n

end Decimal

end CallSurface
