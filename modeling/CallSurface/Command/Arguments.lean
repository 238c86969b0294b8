/-
The command line as words, and the command they spell.

The program itself only declares its subcommands, with the options of each; an option-parsing library that is no part of
it reads the words. The usage rules of that library are an assumption, here and in everything said of command lines:
- a subcommand comes first, then its options;
- a long option takes its value behind `=` or as the next word, a short one also glued on, with or without `=`;
- a word that begins with `-` is no value of its own, `-` alone excepted, and `--` ends the options;
- every option may be given once, and a path is not empty;
- `help`, `--help` and `-h` ask for help, and the first word out of place decides, such a request included.
-/

namespace CallSurface

/-- what the command line asks for, names not yet looked up -/
inductive Command where
  /-- the header, to a file or to standard output -/
  | header (output : Option String)
  /-- the prototypes of a family and of a kind -/
  | symbols (family kind : Option String)
  deriving DecidableEq, Repr

/-- why there is no command to run -/
inductive Refusal where
  /-- help was asked for -/
  | help
  | missingSubcommand
  | unknownSubcommand (name : String)
  | unknownOption (name : String)
  | unexpectedArgument (text : String)
  | missingValue (name : String)
  | repeatedOption (name : String)
  | emptyPath
  deriving DecidableEq, Repr

/-- asking for help is a success, every other refusal is a usage error -/
def Refusal.exitCode : Refusal → Nat
  | help => 0
  | _ => 2

/-- a word of the command line, by its shape -/
inductive Word where
  | plain (text : String)
  | long (name : String) (value : Option String)
  | short (letter : Char) (rest : List Char)
  deriving DecidableEq, Repr

def Word.ofString (s : String) : Word :=
  match s.toList with
  | '-' :: '-' :: cs =>
    match cs.span (· != '=') with
    | (name, []) => .long (String.ofList name) none
    | (name, _ :: value) => .long (String.ofList name) (some (String.ofList value))
  | '-' :: c :: cs => .short c cs
  | _ => .plain s

inductive Opt where
  | output
  | family
  | kind
  deriving DecidableEq, Repr

namespace Opt

def name : Opt → String
  | output => "output"
  | family => "family"
  | kind => "kind"

def letter? : Opt → Option Char
  | output => some 'o'
  | family | kind => none

end Opt

namespace Command

/-- the value glued to a short option: an equals sign in front is dropped -/
def gluedValue : List Char → Option String
  | [] => none
  | '=' :: cs => some (String.ofList cs)
  | cs => some (String.ofList cs)

/-- an option, its value where the same word holds one, or the reason why the word is out of place -/
def optionOf (known : List Opt) (w : Word) : Except Refusal (Opt × Option String) :=
  match w with
  | .long name value =>
    match known.find? (·.name == name) with
    | some o => .ok (o, value)
    | none => .error (if name == "help" && value.isNone then .help else .unknownOption name)
  | .short c rest =>
    match known.find? (·.letter? == some c) with
    | some o => .ok (o, gluedValue rest)
    | none => .error (if c == 'h' then .help else .unknownOption c.toString)
  | .plain s => .error (.unexpectedArgument s)

/-- one more option beside those given; each may be given once, and a path is not empty -/
def give (given : List (Opt × String)) (o : Opt) (v : String) : Except Refusal (List (Opt × String)) :=
  if given.any (·.1 == o) then .error (.repeatedOption o.name)
  else if o = .output ∧ v = "" then .error .emptyPath
  else .ok (given ++ [(o, v)])

/-- nothing may follow the end of the options -/
def noneAfter (given : List (Opt × String)) : List String → Except Refusal (List (Opt × String))
  | [] => .ok given
  | s :: _ => .error (.unexpectedArgument s)

/-- the options with their values, in the order given, after those in `given`; the first word out of place decides -/
def assignments (known : List Opt) (given : List (Opt × String)) :
    List String → Except Refusal (List (Opt × String))
  | [] => .ok given
  | s :: rest =>
    if s = "--" then noneAfter given rest
    else match optionOf known (.ofString s) with
      | .error e => .error e
      | .ok (o, some v) =>
        match give given o v with
        | .error e => .error e
        | .ok given => assignments known given rest
      | .ok (o, none) =>
        match rest with
        | [] => .error (.missingValue o.name)
        | v :: rest =>
          match Word.ofString v with
          | .plain v =>
            match give given o v with
            | .error e => .error e
            | .ok given => assignments known given rest
          | _ => .error (.missingValue o.name)

def parseHeader (args : List String) : Except Refusal Command := do
  let given ← assignments [.output] [] args
  return .header (given.lookup .output)

def parseSymbols (args : List String) : Except Refusal Command := do
  let given ← assignments [.family, .kind] [] args
  return .symbols (given.lookup .family) (given.lookup .kind)

def subcommands : List String :=
  ["header", "symbols", "ls", "help"]

/-- the words behind `help` lead to a subcommand, and no subcommand has one of its own -/
def parseHelp : List String → Refusal
  | [] => .help
  | name :: rest =>
    if !subcommands.contains name then .unknownSubcommand name
    else match rest with
      | [] => .help
      | inner :: _ => .unknownSubcommand inner

/-- the command that the words spell -/
def parse : List String → Except Refusal Command
  | [] => .error .missingSubcommand
  | "header" :: args => parseHeader args
  | "symbols" :: args => parseSymbols args
  | "ls" :: args => parseSymbols args
  | "help" :: args => .error (parseHelp args)
  | name :: _ =>
    match Word.ofString name with
    | .plain s => .error (.unknownSubcommand s)
    | w => .error (match optionOf [] w with
      | .error e => e
      | .ok _ => .missingSubcommand)

end Command

end CallSurface
