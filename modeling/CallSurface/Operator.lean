/-
Operators of the call surface: which kinds have them and what kind they give back.

Six comparisons give `bool`, every other operator gives the kind of its operands. `not` and `unaryMinus` take one
operand, all others two of the same kind.
-/
import CallSurface.Kind

namespace CallSurface

inductive Operator where
  | add
  | sub
  | mul
  | div
  | and
  | or
  | xor
  | mod
  | lshift
  | rshift
  | less
  | lessEq
  | greater
  | greaterEq
  | eq
  | notEq
  | not
  | unaryMinus
  deriving DecidableEq, Repr

namespace Operator

/-- every operator, in the order of every listing -/
def all : List Operator :=
  [add, sub, mul, div, and, or, xor, mod, lshift, rshift, less, lessEq, greater, greaterEq, eq, notEq, not, unaryMinus]

def name : Operator → String
  | add => "add"
  | sub => "sub"
  | mul => "mul"
  | div => "div"
  | and => "and"
  | or => "or"
  | xor => "xor"
  | mod => "mod"
  | lshift => "lshift"
  | rshift => "rshift"
  | less => "less"
  | lessEq => "less_eq"
  | greater => "greater"
  | greaterEq => "greater_eq"
  | eq => "eq"
  | notEq => "not_eq"
  | not => "not"
  | unaryMinus => "unary_minus"

/-- the operator of that name -/
def ofName? (s : String) : Option Operator :=
  all.find? (·.name == s)

/-- number of operands -/
def arity : Operator → Nat
  | not | unaryMinus => 1
  | _ => 2

def isComparison : Operator → Bool
  | less | lessEq | greater | greaterEq | eq | notEq => true
  | _ => false

/-- arithmetic that floats have too -/
def isArithmetic : Operator → Bool
  | add | sub | mul | div | mod => true
  | _ => false

/-- does the kind have the operator? Negation needs a sign; bits and shifts need an integer kind -/
def supports (op : Operator) : Kind → Bool
  | .int .char => op.isComparison
  | .int k => op != not && (op != unaryMinus || k.signed)
  | .float _ => op.isArithmetic || op.isComparison || op == unaryMinus
  | .bool => op == and || op == or || op == eq || op == notEq || op == not

/-- the kind of the result on operands of kind `k` -/
def resultKind (op : Operator) (k : Kind) : Kind :=
  if op.isComparison then .bool else k

end Operator

end CallSurface
