/-
Call symbols: one per function that generated code may link against.

A symbol has a link name, a family and a signature. `Symbol` can also name combinations that no function stands
behind, such as `xor` on a float; the catalogue says which ones exist.
-/
import CallSurface.LookupError
import CallSurface.Operator
import CallSurface.Signature

namespace CallSurface

/-- the groups in which symbols are listed -/
inductive Family where
  | operator
  | cast
  | io
  | memory
  | process
  deriving DecidableEq, Repr

namespace Family

def all : List Family :=
  [operator, cast, io, memory, process]

def name : Family → String
  | operator => "operator"
  | cast => "cast"
  | io => "io"
  | memory => "memory"
  | process => "process"

/-- the family of that name, or the reason why there is none -/
def lookup (s : String) : Except LookupError Family :=
  match all.find? (·.name == s) with
  | some f => .ok f
  | none => .error (.unknownFamily s)

end Family

inductive Symbol where
  | operator (op : Operator) (kind : Kind)
  | cast (source target : Kind)
  | print (kind : Kind)
  | println (kind : Kind)
  | printChars
  | printlnChars
  | input (kind : Kind)
  | inputLine
  | malloc
  | free
  | addressToUsize
  | usizeToAddress
  | exit
  deriving DecidableEq, Repr

namespace Symbol

/-- link name without the common head `__ext_` -/
def stem : Symbol → String
  | operator op k => op.name ++ "_" ++ k.name
  | cast a b => "cast_" ++ a.name ++ "_" ++ b.name
  | print k => "print_" ++ k.name
  | println k => "println_" ++ k.name
  | printChars => "print_char_arr"
  | printlnChars => "println_char_arr"
  | input k => "input_" ++ k.name
  | inputLine => "input_string"
  | malloc => "malloc"
  | free => "free"
  | addressToUsize => "cast_voidptr_usize"
  | usizeToAddress => "cast_usize_voidptr"
  | exit => "exit"

/-- the name the linker sees -/
def name (s : Symbol) : String :=
  "__ext_" ++ s.stem

def family : Symbol → Family
  | operator .. => .operator
  | cast .. => .cast
  | print _ | println _ | printChars | printlnChars | input _ | inputLine => .io
  | malloc | free | addressToUsize | usizeToAddress => .memory
  | exit => .process

/-- is the kind one that the symbol takes or gives back? -/
def mentions (s : Symbol) (k : Kind) : Bool :=
  match s with
  | operator op l => l == k || op.resultKind l == k
  | cast a b => a == k || b == k
  | print l | println l | input l => l == k
  | addressToUsize | usizeToAddress | malloc => k == .int .usize
  | exit => k == .int .i32
  | printChars | printlnChars | inputLine | free => false

def signature : Symbol → Signature
  | operator op k =>
    ⟨if op.arity = 1 then [⟨"x", .scalar k⟩] else [⟨"x", .scalar k⟩, ⟨"y", .scalar k⟩], .scalar (op.resultKind k)⟩
  | cast a b => ⟨[⟨"v", .scalar a⟩], .scalar b⟩
  | print k | println k => ⟨[⟨"v", .scalar k⟩], .void⟩
  | printChars | printlnChars => ⟨[⟨"chars", .charArray⟩], .void⟩
  | input k => ⟨[], .scalar k⟩
  | inputLine => ⟨[], .charArray⟩
  | malloc => ⟨[⟨"s", .scalar (.int .usize)⟩], .address⟩
  | free => ⟨[⟨"ptr", .address⟩], .void⟩
  | addressToUsize => ⟨[⟨"p", .address⟩], .scalar (.int .usize)⟩
  | usizeToAddress => ⟨[⟨"addr", .scalar (.int .usize)⟩], .address⟩
  | exit => ⟨[⟨"code", .scalar (.int .i32)⟩], .void⟩

/-- the C declaration of the symbol; the call that never returns says so -/
def prototype (s : Symbol) : String :=
  match s with
  | exit => "_Noreturn " ++ s.signature.prototype s.name
  | _ => s.signature.prototype s.name

end Symbol

end CallSurface
