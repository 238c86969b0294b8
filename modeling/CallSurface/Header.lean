/-
Listings of the surface: the prototypes of a selection of symbols, and the C header with all of them.
-/
import CallSurface.Catalogue

namespace CallSurface

/-- which symbols to list; an absent part accepts all -/
structure Selection where
  family : Option Family
  kind : Option Kind
  deriving DecidableEq, Repr

namespace Selection

def accepts (f : Selection) (s : Symbol) : Bool :=
  f.family.all (s.family == ·) && f.kind.all (s.mentions ·)

/-- prototypes of the accepted symbols, in listing order -/
def prototypes (f : Selection) : List String :=
  (catalogue.filter f.accepts).map Symbol.prototype

end Selection

namespace Header

def guardName : String := "FATLANG_RUNTIME_H"

def opening : String :=
  "/* Generated by `fatlang header`. Do not edit. */\n" ++
  "#ifndef " ++ guardName ++ "\n#define " ++ guardName ++ "\n\n" ++
  "#include <stdbool.h>\n#include <stddef.h>\n#include <stdint.h>\n\n"

/-- a C name for each kind; `char` and `bool` are C type names already -/
def typedefs : String :=
  String.join ((Kind.all.filter fun k => k != .int .char && k != .bool).map fun k =>
    "typedef " ++ k.cType ++ " " ++ k.name ++ ";\n")

def charArrayStruct : String :=
  "\nstruct __c_char_arr \x7b\n    void* ptr;\n    size_t len;\n\x7d;\n"

/-- one family: a heading and its prototypes -/
def familyBlock (f : Family) : String :=
  "/* " ++ f.name ++ " */\n" ++ String.join ((Selection.prototypes ⟨some f, none⟩).map (· ++ ";\n"))

/-- the whole header -/
def text : String :=
  opening ++ typedefs ++ charArrayStruct ++ String.join (Family.all.map fun f => "\n" ++ familyBlock f) ++
    "\n#endif /* " ++ guardName ++ " */\n"

end Header

end CallSurface
