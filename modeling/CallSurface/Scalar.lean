/-
Scalars: a kind together with a value of it.
-/
import CallSurface.Kind

namespace CallSurface

/-- a value of one of the nine kinds; integers and floats are bit patterns -/
inductive Scalar where
  | int (k : IntKind) (x : BitVec k.bits)
  | float (k : FloatKind) (x : BitVec k.bits)
  | bool (b : Bool)
  deriving DecidableEq, Repr

namespace Scalar

def kind : Scalar → Kind
  | int k _ => .int k
  | float k _ => .float k
  | bool _ => .bool

/-- the bits of a scalar of integer kind `k` -/
def asInt? (k : IntKind) : Scalar → Option (BitVec k.bits)
  | int l x => if h : l = k then some (h ▸ x) else none
  | _ => none

/-- the bits of a scalar of float kind `k` -/
def asFloat? (k : FloatKind) : Scalar → Option (BitVec k.bits)
  | float l x => if h : l = k then some (h ▸ x) else none
  | _ => none

/-- zero of a kind: all bits clear -/
def zero : Kind → Scalar
  | .int k => int k 0
  | .float k => float k 0
  | .bool => bool false

@[simp] theorem asInt?_int (k : IntKind) (x : BitVec k.bits) : (int k x).asInt? k = some x := by
  simp [asInt?]

@[simp] theorem asFloat?_float (k : FloatKind) (x : BitVec k.bits) : (float k x).asFloat? k = some x := by
  simp [asFloat?]

end Scalar

end CallSurface
