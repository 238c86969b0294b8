/-
Log events that calls leave behind, and their lines.
-/
import CallSurface.SystemError
import CallSurface.Text.Decimal

namespace CallSurface

inductive Event where
  /-- a read from standard input failed -/
  | readFailed (cause : SystemError)
  /-- the input does not go on with an integer; `token` is what was taken for one -/
  | noInteger (token : Bytes)
  /-- the input does not go on with a float; `token` is what was taken for one -/
  | noFloat (token : Bytes)
  | allocationFailed (size : Nat)
  | exit (code : Int)
  | writeFailed (cause : SystemError)
  | flushFailed (cause : SystemError)
  deriving DecidableEq, Repr

/-- level, message and fields -/
def Event.line : Event → String
  | readFailed e => "DEBUG stdin read failed err=" ++ e.message
  | noInteger t => "DEBUG no integer on stdin token=" ++ asciiText t
  | noFloat t => "DEBUG no float on stdin token=" ++ asciiText t
  | allocationFailed n => "DEBUG allocation failed size=" ++ asciiText (Decimal.digits n)
  | exit c => "DEBUG exit code=" ++ asciiText (Decimal.integer c)
  | writeFailed e => "WARN failed to write to stdout err=" ++ e.message
  | flushFailed e => "WARN failed to flush stdout err=" ++ e.message

end CallSurface
