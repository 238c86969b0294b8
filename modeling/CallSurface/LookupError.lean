/-
What goes wrong when a name is looked up, and the wording of each case.
-/
import CallSurface.Kind

namespace CallSurface

/-- a name that denotes nothing, kept unchanged -/
inductive LookupError where
  | unknownKind (name : String)
  | unknownSymbol (name : String)
  | unknownFamily (name : String)
  deriving DecidableEq, Repr

/-- the text shown to a user; an unknown kind comes with the list of those that exist -/
def LookupError.message : LookupError → String
  | unknownKind n => "unknown kind `" ++ n ++ "` (expected one of: " ++ ", ".intercalate (Kind.all.map Kind.name) ++ ")"
  | unknownSymbol n => "unknown symbol `" ++ n ++ "`"
  | unknownFamily n => "unknown symbol family `" ++ n ++ "`"

/-- the kind of that name, or the reason why there is none -/
def Kind.lookup (s : String) : Except LookupError Kind :=
  match Kind.ofName? s with
  | some k => .ok k
  | none => .error (.unknownKind s)

end CallSurface
