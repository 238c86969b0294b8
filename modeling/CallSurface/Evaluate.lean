/-
What the operator and cast symbols compute.

`Symbol.apply` is `none` where the arguments are not of the kinds that the symbol takes, or no function is linked for the
operator on this kind; otherwise it is a scalar or a trap.
-/
import CallSurface.Binary.Arithmetic
import CallSurface.Cast
import CallSurface.LinkTable

namespace CallSurface

namespace Operator

/-- does the comparison hold of two values in this order? Values without an order only differ -/
def holds (op : Operator) (o : Option Ordering) : Bool :=
  match op with
  | less => o == some .lt
  | lessEq => o == some .lt || o == some .eq
  | greater => o == some .gt
  | greaterEq => o == some .gt || o == some .eq
  | eq => o == some .eq
  | notEq => o != some .eq
  | _ => false

/-- operators on two integers -/
def onInts (op : Operator) (k : IntKind) (x y : BitVec k.bits) : Option (Except Trap Scalar) :=
  match op with
  | add => some (.ok (.int k (x + y)))
  | sub => some (.ok (.int k (x - y)))
  | mul => some (.ok (.int k (x * y)))
  | div => some ((k.div x y).map (.int k))
  | mod => some ((k.mod x y).map (.int k))
  | and => some (.ok (.int k (x &&& y)))
  | or => some (.ok (.int k (x ||| y)))
  | xor => some (.ok (.int k (x ^^^ y)))
  | lshift => some (.ok (.int k (k.lshift x y)))
  | rshift => some (.ok (.int k (k.rshift x y)))
  | less | lessEq | greater | greaterEq | eq | notEq => some (.ok (.bool (op.holds (some (k.order x y)))))
  | not | unaryMinus => none

/-- operators on two floats -/
def onFloats (op : Operator) (k : FloatKind) (x y : BitVec k.bits) : Option (Except Trap Scalar) :=
  match op with
  | add => some (.ok (.float k (k.add x y)))
  | sub => some (.ok (.float k (k.sub x y)))
  | mul => some (.ok (.float k (k.mul x y)))
  | div => some (.ok (.float k (k.div x y)))
  | mod => some (.ok (.float k (k.mod x y)))
  | less | lessEq | greater | greaterEq | eq | notEq => some (.ok (.bool (op.holds (k.order x y))))
  | _ => none

/-- operators on two truth values -/
def onBools (op : Operator) (x y : Bool) : Option (Except Trap Scalar) :=
  match op with
  | and => some (.ok (.bool (x && y)))
  | or => some (.ok (.bool (x || y)))
  | eq => some (.ok (.bool (x == y)))
  | notEq => some (.ok (.bool (x != y)))
  | _ => none

/-- the operator on operands of kind `k` -/
def apply (op : Operator) (k : Kind) (args : List Scalar) : Option (Except Trap Scalar) :=
  if op.isLinked k then
    match k, args with
    | .int k, [a, b] => do op.onInts k (← a.asInt? k) (← b.asInt? k)
    | .float k, [a, b] => do op.onFloats k (← a.asFloat? k) (← b.asFloat? k)
    | .bool, [.bool x, .bool y] => op.onBools x y
    | .int k, [a] => do if op = unaryMinus then some (.ok (.int k (-(← a.asInt? k)))) else none
    | .float k, [a] => do if op = unaryMinus then some (.ok (.float k (k.neg (← a.asFloat? k)))) else none
    | .bool, [.bool x] => if op = not then some (.ok (.bool !x)) else none
    | _, _ => none
  else none

end Operator

/-- what an operator or cast symbol gives on these arguments -/
def Symbol.apply (s : Symbol) (args : List Scalar) : Option (Except Trap Scalar) :=
  match s, args with
  | operator op k, args => op.apply k args
  | cast a b, [v] => if v.kind = a then some (.ok (v.cast b)) else none
  | _, _ => none

end CallSurface
