/-
Standard output, on a device that takes everything or nothing.

Output is line-buffered. A piece that holds a line feed, or is as long as the buffer, goes to the device at once when
nothing waits before it; any other piece waits in the buffer until the next flush. Every print ends with a flush. On a
full device waiting output can never leave, so that every later flush fails as well.
-/
import CallSurface.Event

namespace CallSurface

structure Stdout where
  /-- does the device refuse every byte? -/
  full : Bool
  /-- is there output in the buffer that the device has refused? -/
  waiting : Bool := false
  deriving DecidableEq, Repr

namespace Stdout

/-- a piece of this length passes by the buffer -/
def bufferSize : Nat := 1024

/-- does a piece wait in an empty buffer? -/
def waits (piece : Bytes) : Bool :=
  !piece.contains 10 && piece.length < bufferSize

/-- prints pieces one after the other: what reaches the device, the events, and the state afterwards -/
def print (o : Stdout) (pieces : List Bytes) : Bytes × List Event × Stdout :=
  if o.full then
    if o.waiting then ([], [.writeFailed .noSpace], o)
    else match pieces.find? (!·.isEmpty) with
      | none => ([], [], o)
      | some piece => ([], [.writeFailed .noSpace], { o with waiting := waits piece })
  else (pieces.flatten, [], o)

/-- the events of a flush -/
def flush (o : Stdout) : List Event :=
  if o.full && o.waiting then [.flushFailed .noSpace] else []

end Stdout

end CallSurface
