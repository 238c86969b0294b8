/-
Scalar kinds: the nine value types that calls take and return.

An integer kind is a width and a signedness (`char` is an unsigned byte), a float kind is one of the two binary
interchange formats, and `bool` stands alone. `Kind.all` fixes the order of every listing.
-/

namespace CallSurface

/-- integer kinds; `char` is an unsigned byte and has comparisons only -/
inductive IntKind where
  | i32
  | ui32
  | i64
  | ui64
  | usize
  | char
  deriving DecidableEq, Repr

/-- float kinds: binary32 and binary64 -/
inductive FloatKind where
  | f32
  | f64
  deriving DecidableEq, Repr

/-- scalar kinds -/
inductive Kind where
  | int (k : IntKind)
  | float (k : FloatKind)
  | bool
  deriving DecidableEq, Repr

namespace IntKind

/-- width of a value in bits -/
@[reducible] def bits : IntKind → Nat
  | i32 | ui32 => 32
  | i64 | ui64 | usize => 64
  | char => 8

/-- does the kind have negative values? -/
def signed : IntKind → Bool
  | i32 | i64 => true
  | ui32 | ui64 | usize | char => false

def name : IntKind → String
  | i32 => "i32"
  | ui32 => "ui32"
  | i64 => "i64"
  | ui64 => "ui64"
  | usize => "usize"
  | char => "char"

/-- the C type that carries the kind -/
def cType : IntKind → String
  | i32 => "int32_t"
  | ui32 => "uint32_t"
  | i64 => "int64_t"
  | ui64 => "uint64_t"
  | usize => "size_t"
  | char => "uint8_t"

end IntKind

namespace FloatKind

/-- width of the exponent field -/
@[reducible] def exponentBits : FloatKind → Nat
  | f32 => 8
  | f64 => 11

/-- width of the fraction field; a significand has one bit more -/
@[reducible] def fractionBits : FloatKind → Nat
  | f32 => 23
  | f64 => 52

/-- width of a value: sign, exponent, fraction -/
@[reducible] def bits (k : FloatKind) : Nat :=
  1 + k.exponentBits + k.fractionBits

def name : FloatKind → String
  | f32 => "f32"
  | f64 => "f64"

/-- the C type that carries the kind -/
def cType : FloatKind → String
  | f32 => "float"
  | f64 => "double"

end FloatKind

namespace Kind

/-- every kind, in the order of every listing -/
def all : List Kind :=
  [.int .i32, .int .ui32, .int .i64, .int .ui64, .int .usize, .float .f32, .float .f64, .int .char, .bool]

def name : Kind → String
  | int k => k.name
  | float k => k.name
  | bool => "bool"

/-- the C type that carries the kind -/
def cType : Kind → String
  | int k => k.cType
  | float k => k.cType
  | bool => "bool"

/-- width of a value in memory, in bits -/
def bits : Kind → Nat
  | int k => k.bits
  | float k => k.bits
  | bool => 8

/-- does the kind have negative values? -/
def isSigned : Kind → Bool
  | int k => k.signed
  | float _ => true
  | bool => false

def isFloat : Kind → Bool
  | float _ => true
  | _ => false

/-- kinds with integer arithmetic; a `char` only compares -/
def isInteger : Kind → Bool
  | int .char => false
  | int _ => true
  | _ => false

/-- kinds that have an input call -/
def hasInput : Kind → Bool
  | bool => false
  | _ => true

/-- the kind of that name -/
def ofName? (s : String) : Option Kind :=
  all.find? (·.name == s)

end Kind

end CallSurface
