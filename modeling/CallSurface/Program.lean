/-
Programs: steps that run in order, each with the results of the steps before it at hand.

A step calls a linked function by its name or acts on memory. The run reports every step that returned, as an observer
sees it (`View`): an address by the block it points into, an array by its bytes at that moment.
-/
import CallSurface.Machine

namespace CallSurface

/-- an argument: a value, or the result of an earlier step -/
inductive Arg where
  | value (v : Value)
  | result (step : Nat)
  deriving DecidableEq, Repr

inductive Step where
  | call (name : String) (args : List Arg)
  /-- writes bytes from an address on -/
  | store (target : Arg) (bytes : Bytes)
  /-- reads one byte -/
  | load (source : Arg)
  /-- an array of an address and a length -/
  | pair (address : Arg) (length : Nat)
  /-- the address of an array -/
  | addressOf (chars : Arg)
  /-- the length of an array -/
  | lengthOf (chars : Arg)
  deriving DecidableEq, Repr

/-- a result as an observer sees it -/
inductive View where
  | void
  | scalar (s : Scalar)
  | null
  /-- inside the live block that step `origin` allocated -/
  | place (origin offset : Nat)
  /-- an address outside all live blocks -/
  | address (a : Address)
  | chars (isNull : Bool) (length : Nat) (bytes : Bytes)
  deriving DecidableEq, Repr

/-- how a value looks on this heap; an array outside the live blocks has no bytes to show -/
def Heap.view (h : Heap) : Value → Option View
  | .void => some .void
  | .scalar (.int .usize a) =>
    match h.locate a with
    | some (origin, offset) => some (.place origin offset)
    | none => some (.scalar (.int .usize a))
  | .scalar s => some (.scalar s)
  | .address a =>
    if a = 0 then some .null
    else match h.locate a with
      | some (origin, offset) => some (.place origin offset)
      | none => some (.address a)
  | .chars c => (h.bytesOf c).map (.chars c.isNull c.length.toNat)

def Arg.resolve (results : List Value) : Arg → Option Value
  | value v => some v
  | result i => results[i]?

namespace Step

/-- the argument as an address -/
def address? (results : List Value) (a : Arg) : Option Address :=
  match a.resolve results with
  | some (.address p) => some p
  | _ => none

/-- the argument as an array -/
def chars? (results : List Value) (a : Arg) : Option CharArray :=
  match a.resolve results with
  | some (.chars c) => some c
  | _ => none

/-- a value that leaves the machine as it is -/
def give (m : Machine) (v : Option Value) : Outcome :=
  match v with
  | some v => .returned ⟨v, [], []⟩ m
  | none => .ended .invalid

/-- the effect of a step, given the results of the steps before it -/
def perform (m : Machine) (results : List Value) : Step → Outcome
  | call name args =>
    match LinkedFunction.find? name with
    | none => .ended (.unknownSymbol (.unknownSymbol name))
    | some f =>
      match args.mapM (Arg.resolve results) with
      | some values => m.call results.length f.call values
      | none => .ended .invalid
  | store target bytes =>
    match (address? results target).bind (m.heap.store · bytes) with
    | some heap => .returned ⟨.void, [], []⟩ { m with heap }
    | none => .ended .invalid
  | load source =>
    match (address? results source).bind (m.heap.load · 1) with
    | some [b] => .returned ⟨.scalar (.int .char b.toBitVec), [], []⟩ m
    | _ => .ended .invalid
  | pair a length => give m ((address? results a).map fun p => .chars ⟨p, BitVec.ofNat _ length⟩)
  | addressOf a => give m ((chars? results a).map fun c => .address c.address)
  | lengthOf a => give m ((chars? results a).map fun c => .scalar (.int .usize c.length))

end Step

/-- a step that returned: what it gave, wrote and logged -/
structure Report where
  result : View
  output : Bytes
  log : List Event
  deriving DecidableEq, Repr

/-- a whole run: the steps that returned, why it ended, and the machine at the end -/
structure Run where
  reports : List Report
  ending : Ending
  machine : Machine

/-- runs steps from a machine on, behind steps with the given results -/
def Program.runFrom (m : Machine) (results : List Value) : List Step → Run
  | [] => ⟨[], .finished, m⟩
  | s :: steps =>
    match s.perform m results with
    | .ended e => ⟨[], e, m⟩
    | .returned r m' =>
      match m'.heap.view r.value with
      | none => ⟨[], .invalid, m'⟩
      | some v =>
        let rest := runFrom m' (results ++ [r.value]) steps
        { rest with reports := ⟨v, r.output, r.log⟩ :: rest.reports }

/-- runs a program on a fresh machine -/
def Program.run (m : Machine) (steps : List Step) : Run :=
  runFrom m [] steps

end CallSurface
