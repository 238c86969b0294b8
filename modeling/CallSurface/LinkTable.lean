/-
The link table: the functions there are, each under the name that the linker sees, in the order in which they are
linked.

The table is written down group by group, names included, and does not ask the catalogue. All kinds with integer
arithmetic have the same functions, and so do the two float kinds; a `char` compares only, and `bool` has a group of its
own. The negations stand behind all other operators. In the name of a group's function a tag stands for the kind.
-/
import CallSurface.Symbol

namespace CallSurface

/-- a linked function: the name that programs call it by, and what it does -/
structure LinkedFunction where
  name : String
  call : Symbol
  deriving DecidableEq, Repr

/-! ## Operators -/

/-- the functions of a kind with integer arithmetic -/
def integerFunctions (tag : String) (k : Kind) : List LinkedFunction :=
  [⟨"__ext_add_" ++ tag, .operator .add k⟩,
    ⟨"__ext_sub_" ++ tag, .operator .sub k⟩,
    ⟨"__ext_mul_" ++ tag, .operator .mul k⟩,
    ⟨"__ext_div_" ++ tag, .operator .div k⟩,
    ⟨"__ext_and_" ++ tag, .operator .and k⟩,
    ⟨"__ext_or_" ++ tag, .operator .or k⟩,
    ⟨"__ext_xor_" ++ tag, .operator .xor k⟩,
    ⟨"__ext_mod_" ++ tag, .operator .mod k⟩,
    ⟨"__ext_lshift_" ++ tag, .operator .lshift k⟩,
    ⟨"__ext_rshift_" ++ tag, .operator .rshift k⟩,
    ⟨"__ext_less_" ++ tag, .operator .less k⟩,
    ⟨"__ext_less_eq_" ++ tag, .operator .lessEq k⟩,
    ⟨"__ext_greater_" ++ tag, .operator .greater k⟩,
    ⟨"__ext_greater_eq_" ++ tag, .operator .greaterEq k⟩,
    ⟨"__ext_eq_" ++ tag, .operator .eq k⟩,
    ⟨"__ext_not_eq_" ++ tag, .operator .notEq k⟩]

/-- the functions of a float kind -/
def floatFunctions (tag : String) (k : Kind) : List LinkedFunction :=
  [⟨"__ext_add_" ++ tag, .operator .add k⟩,
    ⟨"__ext_sub_" ++ tag, .operator .sub k⟩,
    ⟨"__ext_mul_" ++ tag, .operator .mul k⟩,
    ⟨"__ext_div_" ++ tag, .operator .div k⟩,
    ⟨"__ext_mod_" ++ tag, .operator .mod k⟩,
    ⟨"__ext_less_" ++ tag, .operator .less k⟩,
    ⟨"__ext_less_eq_" ++ tag, .operator .lessEq k⟩,
    ⟨"__ext_greater_" ++ tag, .operator .greater k⟩,
    ⟨"__ext_greater_eq_" ++ tag, .operator .greaterEq k⟩,
    ⟨"__ext_eq_" ++ tag, .operator .eq k⟩,
    ⟨"__ext_not_eq_" ++ tag, .operator .notEq k⟩]

/-- characters compare, and no more -/
def charFunctions : List LinkedFunction :=
  [⟨"__ext_less_char", .operator .less (.int .char)⟩,
    ⟨"__ext_less_eq_char", .operator .lessEq (.int .char)⟩,
    ⟨"__ext_greater_char", .operator .greater (.int .char)⟩,
    ⟨"__ext_greater_eq_char", .operator .greaterEq (.int .char)⟩,
    ⟨"__ext_eq_char", .operator .eq (.int .char)⟩,
    ⟨"__ext_not_eq_char", .operator .notEq (.int .char)⟩]

def boolFunctions : List LinkedFunction :=
  [⟨"__ext_and_bool", .operator .and .bool⟩,
    ⟨"__ext_or_bool", .operator .or .bool⟩,
    ⟨"__ext_eq_bool", .operator .eq .bool⟩,
    ⟨"__ext_not_eq_bool", .operator .notEq .bool⟩,
    ⟨"__ext_not_bool", .operator .not .bool⟩]

/-- the negations; they are linked apart from the other operators of their kinds -/
def negations : List LinkedFunction :=
  [⟨"__ext_unary_minus_i32", .operator .unaryMinus (.int .i32)⟩,
    ⟨"__ext_unary_minus_i64", .operator .unaryMinus (.int .i64)⟩,
    ⟨"__ext_unary_minus_f32", .operator .unaryMinus (.float .f32)⟩,
    ⟨"__ext_unary_minus_f64", .operator .unaryMinus (.float .f64)⟩]

/-- the operators that are linked for a kind, negation excepted -/
def Kind.operatorFunctions : Kind → List LinkedFunction
  | .int .i32 => integerFunctions "i32" (.int .i32)
  | .int .ui32 => integerFunctions "ui32" (.int .ui32)
  | .int .i64 => integerFunctions "i64" (.int .i64)
  | .int .ui64 => integerFunctions "ui64" (.int .ui64)
  | .int .usize => integerFunctions "usize" (.int .usize)
  | .float .f32 => floatFunctions "f32" (.float .f32)
  | .float .f64 => floatFunctions "f64" (.float .f64)
  | .int .char => charFunctions
  | .bool => boolFunctions

/-- is there a function for the operator on this kind? -/
def Operator.isLinked (op : Operator) (k : Kind) : Bool :=
  (k.operatorFunctions ++ negations).any (·.call == .operator op k)

/-! ## Casts -/

/-- one row of the cast matrix: the casts from a kind to others, which are given with their tags -/
def castRow (tag : String) (source : Kind) (targets : List (String × Kind)) : List LinkedFunction :=
  targets.map fun t => ⟨"__ext_cast_" ++ tag ++ "_" ++ t.1, .cast source t.2⟩

/-- the casts that are linked for a kind -/
def Kind.castFunctions : Kind → List LinkedFunction
  | .int .i32 => castRow "i32" (.int .i32)
      [("ui32", .int .ui32), ("i64", .int .i64), ("ui64", .int .ui64), ("usize", .int .usize), ("f32", .float .f32),
        ("f64", .float .f64), ("char", .int .char), ("bool", .bool)]
  | .int .ui32 => castRow "ui32" (.int .ui32)
      [("i32", .int .i32), ("i64", .int .i64), ("ui64", .int .ui64), ("usize", .int .usize), ("f32", .float .f32),
        ("f64", .float .f64), ("char", .int .char), ("bool", .bool)]
  | .int .i64 => castRow "i64" (.int .i64)
      [("i32", .int .i32), ("ui32", .int .ui32), ("ui64", .int .ui64), ("usize", .int .usize), ("f32", .float .f32),
        ("f64", .float .f64), ("char", .int .char), ("bool", .bool)]
  | .int .ui64 => castRow "ui64" (.int .ui64)
      [("i32", .int .i32), ("ui32", .int .ui32), ("i64", .int .i64), ("usize", .int .usize), ("f32", .float .f32),
        ("f64", .float .f64), ("char", .int .char), ("bool", .bool)]
  | .int .usize => castRow "usize" (.int .usize)
      [("i32", .int .i32), ("ui32", .int .ui32), ("i64", .int .i64), ("ui64", .int .ui64), ("f32", .float .f32),
        ("f64", .float .f64), ("char", .int .char), ("bool", .bool)]
  | .float .f32 => castRow "f32" (.float .f32)
      [("i32", .int .i32), ("ui32", .int .ui32), ("i64", .int .i64), ("ui64", .int .ui64), ("usize", .int .usize),
        ("f64", .float .f64), ("char", .int .char), ("bool", .bool)]
  | .float .f64 => castRow "f64" (.float .f64)
      [("i32", .int .i32), ("ui32", .int .ui32), ("i64", .int .i64), ("ui64", .int .ui64), ("usize", .int .usize),
        ("f32", .float .f32), ("char", .int .char), ("bool", .bool)]
  | .int .char => castRow "char" (.int .char)
      [("i32", .int .i32), ("ui32", .int .ui32), ("i64", .int .i64), ("ui64", .int .ui64), ("usize", .int .usize),
        ("f32", .float .f32), ("f64", .float .f64), ("bool", .bool)]
  | .bool => castRow "bool" .bool
      [("i32", .int .i32), ("ui32", .int .ui32), ("i64", .int .i64), ("ui64", .int .ui64), ("usize", .int .usize),
        ("f32", .float .f32), ("f64", .float .f64), ("char", .int .char)]

/-! ## Printing, reading, memory and exit -/

/-- the two functions that print a scalar -/
def printPair (tag : String) (k : Kind) : List LinkedFunction :=
  [⟨"__ext_print_" ++ tag, .print k⟩, ⟨"__ext_println_" ++ tag, .println k⟩]

def printFunctions : List LinkedFunction :=
  printPair "i32" (.int .i32) ++ printPair "ui32" (.int .ui32) ++ printPair "i64" (.int .i64) ++
    printPair "ui64" (.int .ui64) ++ printPair "usize" (.int .usize) ++ printPair "f32" (.float .f32) ++
    printPair "f64" (.float .f64) ++ printPair "char" (.int .char) ++ printPair "bool" .bool ++
    [⟨"__ext_print_char_arr", .printChars⟩, ⟨"__ext_println_char_arr", .printlnChars⟩]

/-- the function that reads a scalar -/
def inputFunction (tag : String) (k : Kind) : LinkedFunction :=
  ⟨"__ext_input_" ++ tag, .input k⟩

def inputFunctions : List LinkedFunction :=
  [inputFunction "i32" (.int .i32), inputFunction "ui32" (.int .ui32), inputFunction "i64" (.int .i64),
    inputFunction "ui64" (.int .ui64), inputFunction "usize" (.int .usize), inputFunction "f32" (.float .f32),
    inputFunction "f64" (.float .f64), inputFunction "char" (.int .char), ⟨"__ext_input_string", .inputLine⟩]

def memoryFunctions : List LinkedFunction :=
  [⟨"__ext_malloc", .malloc⟩,
    ⟨"__ext_free", .free⟩,
    ⟨"__ext_cast_voidptr_usize", .addressToUsize⟩,
    ⟨"__ext_cast_usize_voidptr", .usizeToAddress⟩]

def processFunctions : List LinkedFunction :=
  [⟨"__ext_exit", .exit⟩]

/-! ## The whole table -/

/-- the kinds in the order in which their functions are linked -/
def linkedKinds : List Kind :=
  [.int .i32, .int .ui32, .int .i64, .int .ui64, .int .usize, .float .f32, .float .f64, .int .char, .bool]

/-- every function, in link order -/
def linkTable : List LinkedFunction :=
  linkedKinds.flatMap Kind.operatorFunctions ++ negations ++ linkedKinds.flatMap Kind.castFunctions ++ printFunctions ++
    inputFunctions ++ memoryFunctions ++ processFunctions

/-- the function that is linked under a name -/
def LinkedFunction.find? (name : String) : Option LinkedFunction :=
  linkTable.find? (·.name == name)

end CallSurface
