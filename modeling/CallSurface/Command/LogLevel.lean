/-
Levels of the command line's own log.
-/

namespace CallSurface

/-- from the finest level to the coarsest; `off` silences the log -/
inductive LogLevel where
  | trace
  | debug
  | info
  | warn
  | error
  | off
  deriving DecidableEq, Repr

namespace LogLevel

def all : List LogLevel :=
  [trace, debug, info, warn, error, off]

def name : LogLevel → String
  | trace => "TRACE"
  | debug => "DEBUG"
  | info => "INFO"
  | warn => "WARN"
  | error => "ERROR"
  | off => "OFF"

/-- place from coarse to fine, which may also be written for the level -/
def fineness : LogLevel → Nat
  | trace => 5
  | debug => 4
  | info => 3
  | warn => 2
  | error => 1
  | off => 0

/-- the number that a row of decimal digits writes -/
def digits? : List Char → Option Nat
  | [] => none
  | cs => if cs.all Char.isDigit then some (cs.foldl (fun n c => 10 * n + (c.toNat - '0'.toNat)) 0) else none

/-- the number of a level: digits, a plus sign in front allowed -/
def number? : List Char → Option Nat
  | '+' :: cs => digits? cs
  | cs => digits? cs

/-- the level of this text: its number, or its name in any letter case -/
def ofText? (s : String) : Option LogLevel :=
  match number? s.toList with
  | some n => all.find? (·.fineness == n)
  | none => all.find? (·.name == s.toUpper)

/-- does a threshold of this level let an event of that level through? -/
def admits (threshold event : LogLevel) : Bool :=
  event.fineness ≤ threshold.fineness

end LogLevel

end CallSurface
