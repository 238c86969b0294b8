/-
C signatures and their prototypes.

`Signature.prototype` is the C declaration of a function without the closing semicolon: return type, name, and the
parameters in order, or `void` where there are none.
-/
import CallSurface.Kind

namespace CallSurface

/-- the types that cross the call boundary -/
inductive CType where
  | void
  | scalar (k : Kind)
  | charArray
  | address
  deriving DecidableEq, Repr

/-- how C spells the type -/
def CType.spelling : CType → String
  | void => "void"
  | scalar k => k.cType
  | charArray => "struct __c_char_arr"
  | address => "void*"

structure Param where
  name : String
  type : CType
  deriving DecidableEq, Repr

/-- a parameter as C declares it: type, blank, name -/
def Param.declaration (p : Param) : String :=
  p.type.spelling ++ " " ++ p.name

structure Signature where
  params : List Param
  ret : CType
  deriving DecidableEq, Repr

namespace Signature

/-- the parameter list between the brackets -/
def parameterText (s : Signature) : String :=
  if s.params.isEmpty then "void" else ", ".intercalate (s.params.map Param.declaration)

/-- the C declaration of a function `name` with this signature -/
def prototype (s : Signature) (name : String) : String :=
  s.ret.spelling ++ " " ++ name ++ "(" ++ s.parameterText ++ ")"

/-- the scalar kinds among parameters and result -/
def kinds (s : Signature) : List Kind :=
  (s.params.map Param.type ++ [s.ret]).filterMap fun
    | .scalar k => some k
    | _ => none

end Signature

end CallSurface
