/-
Character arrays: an address and a length in bytes.

Arrays that the library makes end in a NUL byte, which the length counts. The text of an array stops before its first
NUL.
-/
import CallSurface.Heap

namespace CallSurface

structure CharArray where
  address : Address
  length : BitVec IntKind.usize.bits
  deriving DecidableEq, Repr

namespace CharArray

/-- the array without an address -/
def null : CharArray :=
  ⟨0, 0⟩

def isNull (c : CharArray) : Bool :=
  c.address == 0

/-- the first bytes of the array, at most `n` -/
def shorten (c : CharArray) (n : Nat) : CharArray :=
  { c with length := BitVec.ofNat _ (min n c.length.toNat) }

/-- the bytes before the first NUL -/
def textOf (bytes : Bytes) : Bytes :=
  bytes.takeWhile (· != 0)

end CharArray

namespace Heap

/-- a fresh array with a copy of `bytes` and a NUL behind it -/
def newCharArray (h : Heap) (origin : Nat) (bytes : Bytes) : Option (CharArray × Heap) :=
  let copy := bytes.toArray
  (h.allocate origin (bytes.length + 1) (copy.getD · 0)).map fun (a, g) =>
    (⟨a, BitVec.ofNat _ (bytes.length + 1)⟩, g)

/-- the whole array, NUL included; the null array has no bytes -/
def bytesOf (h : Heap) (c : CharArray) : Option Bytes :=
  if c.isNull then some [] else h.load c.address c.length.toNat

end Heap

end CallSurface
