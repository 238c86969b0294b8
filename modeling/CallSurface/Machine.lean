/-
The machine that calls run on: standard input, standard output and the heap.

`Machine.call` is the effect of one call. A call returns, or it ends the program: by a trap, by `exit`, or because its
arguments break the contract of the call (`invalid`).
-/
import CallSurface.CharArray
import CallSurface.Evaluate
import CallSurface.Input.Scan
import CallSurface.Stdout
import CallSurface.Text.Scalar

namespace CallSurface

/-- what calls take and give back -/
inductive Value where
  | void
  | scalar (s : Scalar)
  | address (a : Address)
  | chars (c : CharArray)
  deriving DecidableEq, Repr

def Value.scalar? : Value → Option Scalar
  | scalar s => some s
  | _ => none

/-- what comes behind the data on standard input -/
inductive StdinEnd where
  | endOfFile
  /-- one failing read, then the end of the file -/
  | reset
  /-- standard input is a directory: no data, and every read fails -/
  | directory
  deriving DecidableEq, Repr

def Reader.ofStdin (data : Bytes) : StdinEnd → Reader
  | .endOfFile => ⟨[.data data], none⟩
  | .reset => ⟨[.data data, .failure .connectionReset], none⟩
  | .directory => ⟨[], some .isDirectory⟩

structure Machine where
  stdin : Reader
  stdout : Stdout
  heap : Heap

/-- why a program ends -/
inductive Ending where
  /-- all steps are done -/
  | finished
  | trapped (t : Trap)
  | unknownSymbol (e : LookupError)
  | exited (status : Nat) (log : List Event)
  /-- a step outside the contract: arguments of wrong type, or access outside the live blocks -/
  | invalid
  deriving DecidableEq, Repr

/-- what a step gives back, writes and logs -/
structure Reply where
  value : Value
  output : Bytes := []
  log : List Event := []
  deriving DecidableEq, Repr

inductive Outcome where
  | returned (r : Reply) (m : Machine)
  | ended (e : Ending)

namespace Machine

/-- the machine that a program starts on -/
def start (allocator : Allocator) (data : Bytes) (last : StdinEnd) (full : Bool) : Machine :=
  ⟨.ofStdin data last, { full }, .empty allocator⟩

/-- prints pieces one after the other -/
def print (m : Machine) (pieces : List Bytes) : Outcome :=
  let (output, log, stdout) := m.stdout.print pieces
  .returned ⟨.void, output, log⟩ { m with stdout }

/-- reads with standard output flushed before: the events of the flush come first -/
def scan {α : Type} (m : Machine) (s : Scanner α) : α × Feed :=
  let (a, f) := s ⟨m.stdin, []⟩
  (a, ⟨f.reader, m.stdout.flush ++ f.log⟩)

/-- a scalar of the kind from standard input, zero where there is none -/
def input (m : Machine) (k : Kind) : Outcome :=
  let (v, f) := m.scan (Scanner.scalar k)
  .returned ⟨.scalar (v.getD (.zero k)), [], f.log⟩ { m with stdin := f.reader }

/-- a line from standard input in a fresh array, the null array at the end -/
def inputLine (m : Machine) (step : Nat) : Outcome :=
  let (line, f) := m.scan Scanner.line
  match line with
  | none => .returned ⟨.chars .null, [], f.log⟩ { m with stdin := f.reader }
  | some bytes =>
    match m.heap.newCharArray step bytes with
    | some (c, heap) => .returned ⟨.chars c, [], f.log⟩ { m with stdin := f.reader, heap }
    | none =>
      .returned ⟨.chars .null, [], f.log ++ [.allocationFailed (bytes.length + 1)]⟩ { m with stdin := f.reader }

/-- a fresh block with what the allocator left in it, null where there is no room -/
def malloc (m : Machine) (step size : Nat) : Outcome :=
  match m.heap.allocate step size (m.heap.allocator.leftover step m.heap.blocks size) with
  | some (a, heap) => .returned ⟨.address a, [], []⟩ { m with heap }
  | none => .returned ⟨.address 0, [], [.allocationFailed size]⟩ m

/-- gives a block back; null is ignored -/
def free (m : Machine) (a : Address) : Outcome :=
  if a = 0 then .returned ⟨.void, [], []⟩ m
  else match m.heap.free a with
    | some heap => .returned ⟨.void, [], []⟩ { m with heap }
    | none => .ended .invalid

/-- ends the program; the status is the code modulo 256 -/
def exit (m : Machine) (code : Int) : Outcome :=
  .ended (.exited (code % 256).toNat (.exit code :: m.stdout.flush))

/-- an operator or a cast -/
def compute (m : Machine) (s : Symbol) (args : List Value) : Outcome :=
  match (args.mapM Value.scalar?).bind s.apply with
  | some (.ok v) => .returned ⟨.scalar v, [], []⟩ m
  | some (.error t) => .ended (.trapped t)
  | none => .ended .invalid

/-- the effect of a call in step number `step` -/
def call (m : Machine) (step : Nat) (s : Symbol) (args : List Value) : Outcome :=
  match s, args with
  | .print k, [.scalar v] => if v.kind = k then m.print [v.text] else .ended .invalid
  | .println k, [.scalar v] => if v.kind = k then m.print [v.text, [10]] else .ended .invalid
  | .printChars, [.chars c] =>
    match m.heap.bytesOf c with
    | some bytes => m.print [CharArray.textOf bytes]
    | none => .ended .invalid
  | .printlnChars, [.chars c] =>
    match m.heap.bytesOf c with
    | some bytes => m.print [CharArray.textOf bytes, [10]]
    | none => .ended .invalid
  | .input k, [] => m.input k
  | .inputLine, [] => m.inputLine step
  | .malloc, [.scalar (.int .usize n)] => m.malloc step n.toNat
  | .free, [.address a] => m.free a
  | .addressToUsize, [.address a] => .returned ⟨.scalar (.int .usize a), [], []⟩ m
  | .usizeToAddress, [.scalar (.int .usize a)] => .returned ⟨.address a, [], []⟩ m
  | .exit, [.scalar (.int .i32 code)] => m.exit (IntKind.i32.value code)
  | .operator .., args => m.compute s args
  | .cast .., args => m.compute s args
  | _, _ => .ended .invalid

end Machine

end CallSurface
