/-
Scanning one value of a kind from a reader, and reading a line.

A number may have blanks before it and ends at the first byte that cannot go on with it. What a scan has consumed stays
consumed, also when it denotes no value; an exponent without digits is consumed and then ignored.
-/
import CallSurface.Input.Reader
import CallSurface.Input.Token
import CallSurface.Integer
import CallSurface.Scalar

namespace CallSurface

namespace Scanner

def skipBlanks : Scanner Unit := do
  let _ ← takeWhile isBlank

def intToken : Scanner IntToken := do
  skipBlanks
  let sign ← nextIf isSign
  let digits ← takeWhile isDigit
  return ⟨sign, digits⟩

/-- the exponent of a decimal, if it has digits -/
def exponent : Scanner (Option Exponent) := do
  match ← nextIf isExponentMark with
  | none => return none
  | some mark =>
    let sign ← nextIf isSign
    let digits ← takeWhile isDigit
    return if digits.isEmpty then none else some ⟨mark, sign, digits⟩

/-- the digits behind a point, if there is a point -/
def fraction : Scanner (Option Bytes) := do
  match ← nextIf isPoint with
  | none => return none
  | some _ => return some (← takeWhile isDigit)

def floatToken : Scanner FloatToken := do
  skipBlanks
  let sign ← nextIf isSign
  let next ← peek
  if next.any startsWord then
    return .word sign (← takeWhile isLetter)
  else
    let whole ← takeWhile isDigit
    let places ← fraction
    return .decimal sign whole places (← exponent)

/-- an integer, kept modulo the width of the kind -/
def integer (k : IntKind) : Scanner (Option (BitVec k.bits)) := do
  let t ← intToken
  match t.value? with
  | some n => return some (k.wrap n)
  | none =>
    report (.noInteger t.text)
    return none

def float (k : FloatKind) : Scanner (Option (BitVec k.bits)) := do
  let t ← floatToken
  match t.value? k with
  | some x => return some x
  | none =>
    report (.noFloat t.text)
    return none

/-- the next byte, whatever it is -/
def byte : Scanner (Option UInt8) :=
  nextIf fun _ => true

/-- one value of the kind; a truth value has no written form -/
def scalar : Kind → Scanner (Option Scalar)
  | .int .char => return (← byte).map fun b => .int .char b.toBitVec
  | .int k => return (← integer k).map (.int k)
  | .float k => return (← float k).map (.float k)
  | .bool => return none

end Scanner

/-- one scan as an observer sees it: the value, the number of bytes still unread, and what was logged -/
structure ScanReport where
  value : Option Scalar
  left : Nat
  log : List Event
  deriving DecidableEq, Repr

/-- scans one value of each kind in order -/
def Reader.scanAll (r : Reader) : List Kind → List ScanReport × Reader
  | [] => ([], r)
  | k :: kinds =>
    let (v, f) := Scanner.scalar k ⟨r, []⟩
    let (reports, last) := f.reader.scanAll kinds
    (⟨v, f.reader.unread.length, f.log⟩ :: reports, last)

/-- reads to the next line feed, which is dropped, or to the end of the input; `none` if there was nothing to read -/
def Scanner.line : Scanner (Option Bytes) := do
  let line ← takeLine
  if line.isEmpty then return none
  else return some (if line.getLast? = some 10 then line.dropLast else line)

end CallSurface
