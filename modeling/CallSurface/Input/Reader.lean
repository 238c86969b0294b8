/-
A byte reader that delivers its data in pieces and may fail in between.

Empty pieces and interrupted reads are passed over silently. Any other failure is taken off the reader, logged, and
ends the run of bytes that was being read; data behind it can be read by the next call. `Front.after` is the one place
that walks over pieces: it takes the longest run of accepted bytes and says what stands behind it. So the way in which
data is cut into pieces never shows.

A scan is a function of the `Feed`, the reader together with the log so far.
-/
import CallSurface.Event

namespace CallSurface

/-- a part of what a reader has to deliver: data, or a read that fails. The reader skips data that is empty or used up and
never takes it for the end of the input -/
inductive Piece where
  | data (bytes : Bytes)
  | interrupted
  | failure (cause : SystemError)
  deriving DecidableEq, Repr

/-- the bytes of a piece -/
def Piece.bytes : Piece → Bytes
  | data bs => bs
  | interrupted | failure _ => []

structure Reader where
  pieces : List Piece
  /-- why every read behind the last piece fails, or `none` at the end of the input -/
  broken : Option SystemError := none
  deriving DecidableEq, Repr

/-- the data not yet consumed -/
def Reader.unread (r : Reader) : Bytes :=
  r.pieces.flatMap Piece.bytes

/-- what stands at the front of a reader: a byte, a failure, or nothing any more -/
inductive Front where
  | byte (b : UInt8) (bs : Bytes) (rest : List Piece)
  | failed (cause : SystemError) (rest : List Piece)
  | bare
  deriving DecidableEq, Repr

namespace Front

/-- the longest run of bytes that `p` accepts, and what stands behind it -/
def after (p : UInt8 → Bool) : List Piece → Bytes × Front
  | [] => ([], .bare)
  | .interrupted :: ps => after p ps
  | .failure e :: ps => ([], .failed e ps)
  | .data bs :: ps =>
    match bs.dropWhile p with
    | b :: rest => (bs.takeWhile p, .byte b rest ps)
    | [] =>
      let (more, front) := after p ps
      (bs ++ more, front)

end Front

/-- a reader and the events that reading has logged, oldest first -/
structure Feed where
  reader : Reader
  log : List Event
  deriving DecidableEq, Repr

/-- the feed once its reader has come to this front: a failure is taken off and logged -/
def Feed.settle (f : Feed) : Front → Feed
  | .byte b bs rest => { f with reader.pieces := .data (b :: bs) :: rest }
  | .failed e rest => ⟨{ f.reader with pieces := rest }, f.log ++ [.readFailed e]⟩
  | .bare => ⟨{ f.reader with pieces := [] }, f.log ++ (f.reader.broken.map Event.readFailed).toList⟩

/-- a computation that reads from a feed and logs to it -/
def Scanner (α : Type) : Type :=
  Feed → α × Feed

namespace Scanner

instance : Monad Scanner where
  pure a := fun f => (a, f)
  bind m g := fun f =>
    match m f with
    | (a, f') => g a f'

@[simp] theorem pure_apply {α : Type} (a : α) (f : Feed) : (pure a : Scanner α) f = (a, f) :=
  rfl

@[simp] theorem bind_apply {α β : Type} (m : Scanner α) (g : α → Scanner β) (f : Feed) :
    (m >>= g) f = g (m f).1 (m f).2 :=
  rfl

def report (e : Event) : Scanner Unit := fun f =>
  ((), { f with log := f.log ++ [e] })

/-- takes bytes as long as `p` accepts them -/
def takeWhile (p : UInt8 → Bool) : Scanner Bytes := fun f =>
  let (bs, front) := Front.after p f.reader.pieces
  (bs, f.settle front)

/-- the next byte, which stays in the reader; a failed read sees no byte -/
def peek : Scanner (Option UInt8) := fun f =>
  match (Front.after (fun _ => false) f.reader.pieces).2 with
  | .byte b bs rest => (some b, f.settle (.byte b bs rest))
  | front => (none, f.settle front)

/-- takes the next byte if `p` accepts it; a failed read sees no byte -/
def nextIf (p : UInt8 → Bool) : Scanner (Option UInt8) := fun f =>
  match (Front.after (fun _ => false) f.reader.pieces).2 with
  | .byte b bs rest =>
    if p b then (some b, { f with reader.pieces := .data bs :: rest }) else (none, f.settle (.byte b bs rest))
  | front => (none, f.settle front)

/-- takes the bytes up to a line feed and the line feed itself, or as far as the input goes -/
def takeLine : Scanner Bytes := fun f =>
  match Front.after (· != 10) f.reader.pieces with
  | (line, .byte feed bs rest) => (line ++ [feed], { f with reader.pieces := .data bs :: rest })
  | (line, front) => (line, f.settle front)

end Scanner

end CallSurface
