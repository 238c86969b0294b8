/-
The catalogue: every symbol of the surface, in listing order.

`catalogue` groups by family. `Symbol.lookup` finds a symbol by its link name.
-/
import CallSurface.Symbol

namespace CallSurface

/-- the operators that a kind has -/
def operatorsOf (k : Kind) : List Operator :=
  Operator.all.filter (·.supports k)

/-- a cast for every ordered pair of different kinds -/
def castSymbols : List Symbol :=
  Kind.all.flatMap fun a => (Kind.all.filter (· != a)).map (Symbol.cast a)

/-- printing and reading, kind by kind, and of text -/
def ioSymbols : List Symbol :=
  Kind.all.flatMap (fun k => [.print k, .println k]) ++ [.printChars, .printlnChars] ++
    (Kind.all.filter Kind.hasInput).map Symbol.input ++ [.inputLine]

def memorySymbols : List Symbol :=
  [.malloc, .free, .addressToUsize, .usizeToAddress]

/-- every symbol of the surface, in listing order -/
def catalogue : List Symbol :=
  Kind.all.flatMap (fun k => (operatorsOf k).map (Symbol.operator · k)) ++ castSymbols ++ ioSymbols ++ memorySymbols ++
    [.exit]

/-- the catalogued symbol of that link name, or the reason why there is none -/
def Symbol.lookup (s : String) : Except LookupError Symbol :=
  match catalogue.find? (·.name == s) with
  | some y => .ok y
  | none => .error (.unknownSymbol s)

end CallSurface
