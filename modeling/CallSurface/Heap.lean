/-
The heap: live blocks of bytes at machine addresses.

A block is named by the step that allocated it. Where blocks go and what lies in them at first is the choice of an
`Allocator`, of which no more is fixed than what programs can see; `Allocator.ascending` places each block on a 16-byte
boundary above all live ones. Who runs a program may clear fresh blocks before it sees them (`Allocator.cleared`).
Access outside the live blocks has no meaning and gives `none`.
-/
import CallSurface.Integer
import CallSurface.Text.Decimal

namespace CallSurface

/-- a machine address; zero is null -/
abbrev Address := BitVec IntKind.usize.bits

structure Block where
  base : Nat
  size : Nat
  /-- the step that allocated the block -/
  origin : Nat
  /-- the byte at an offset -/
  contents : Nat → UInt8

namespace Block

/-- the first address behind the block; an empty block still takes one -/
def limit (b : Block) : Nat :=
  b.base + max b.size 1

/-- does an address point into the block? Into an empty one only its first address does -/
def holds (b : Block) (a : Nat) : Bool :=
  b.base ≤ a && a < b.limit

/-- do `n` bytes from address `a` on lie in the block? -/
def covers (b : Block) (a n : Nat) : Bool :=
  b.base ≤ a && a + n ≤ b.base + b.size

/-- the block with `bytes` written from offset `i` on -/
def write (b : Block) (i : Nat) (bytes : Array UInt8) : Block :=
  { b with contents := fun j => if i ≤ j then bytes.getD (j - i) (b.contents j) else b.contents j }

/-- the block after bytes were written from address `a` on, into it or elsewhere -/
def writeAt (b : Block) (a : Nat) (bytes : Bytes) : Block :=
  if b.covers a bytes.length then b.write (a - b.base) bytes.toArray else b

/-- `n` bytes from offset `i` on -/
def read (b : Block) (i n : Nat) : Bytes :=
  (List.range n).map fun j => b.contents (i + j)

end Block

/-- decides where a fresh block goes and what lies in it -/
structure Allocator where
  /-- the first address of a block of `size` bytes that step `step` asks for beside the live blocks, if there is room -/
  place : (step : Nat) → (blocks : List Block) → (size : Nat) → Option Nat
  /-- the byte that lies at an offset of this block before anything is written there -/
  leftover : (step : Nat) → (blocks : List Block) → (size : Nat) → (offset : Nat) → UInt8

namespace Allocator

/-- the ascending allocator keeps above this address -/
def start : Nat := 0x55d3a61c8010

/-- every block begins at a multiple of this -/
def alignment : Nat := 16

/-- requests of this size or more fail -/
def sizeLimit : Nat := twoPow 63

/-- addresses end here -/
def addressLimit : Nat := twoPow IntKind.usize.bits

/-- no live block reaches above this address -/
def top (blocks : List Block) : Nat :=
  blocks.foldr (fun b t => max b.limit t) start

/-- the first aligned address above `a` -/
def alignedAbove (a : Nat) : Nat :=
  (a / alignment + 1) * alignment

/-- places blocks in ascending order, as far as addresses go, and leaves in them a byte that is easily recognised -/
def ascending : Allocator where
  place _ blocks size :=
    let base := alignedAbove (top blocks)
    if size < sizeLimit ∧ base + max size 1 ≤ addressLimit then some base else none
  leftover _ _ _ _ := 0xAB

end Allocator

structure Heap where
  /-- live blocks, the newest first -/
  blocks : List Block
  allocator : Allocator

namespace Heap

def empty (allocator : Allocator) : Heap :=
  ⟨[], allocator⟩

/-- a fresh block of `size` bytes with the given contents, if there is room -/
def allocate (h : Heap) (origin size : Nat) (contents : Nat → UInt8) : Option (Address × Heap) :=
  (h.allocator.place origin h.blocks size).map fun base =>
    (BitVec.ofNat _ base, { h with blocks := ⟨base, size, origin, contents⟩ :: h.blocks })

/-- gives a block back; the address has to be its first one -/
def free (h : Heap) (a : Address) : Option Heap :=
  if h.blocks.any (·.base == a.toNat) then
    some { h with blocks := h.blocks.filter (·.base != a.toNat) }
  else none

/-- `n` bytes from an address on, all of one live block -/
def load (h : Heap) (a : Address) (n : Nat) : Option Bytes :=
  if n = 0 then some []
  else (h.blocks.find? (·.covers a.toNat n)).map fun b => b.read (a.toNat - b.base) n

/-- writes bytes from an address on, all into one live block -/
def store (h : Heap) (a : Address) (bytes : Bytes) : Option Heap :=
  if bytes.isEmpty then some h
  else if h.blocks.any (·.covers a.toNat bytes.length) then
    some { h with blocks := h.blocks.map (·.writeAt a.toNat bytes) }
  else none

/-- the block that an address points into, by its origin, and the offset there -/
def locate (h : Heap) (a : Address) : Option (Nat × Nat) :=
  (h.blocks.find? (·.holds a.toNat)).map fun b => (b.origin, a.toNat - b.base)

/-- number of live blocks -/
def live (h : Heap) : Nat :=
  h.blocks.length

end Heap

end CallSurface
