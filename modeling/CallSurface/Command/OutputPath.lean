/-
Where a file lands that is written from the empty working directory.

The path is walked component by component. Every component but the last must be a directory; the last is created where
it does not exist yet. Names and paths have a greatest length, in bytes.
-/
import CallSurface.Command.Place
import CallSurface.Text.Character

namespace CallSurface

/-- where the bytes of a written file are afterwards -/
inductive Landing where
  /-- in a new file of the working directory -/
  | inside (name : String)
  /-- out of sight -/
  | outside
  | stdout
  | stderr
  deriving DecidableEq, Repr

namespace OutputPath

/-- greatest length of a component -/
def nameLimit : Nat := 255

/-- a path of this length or more is refused -/
def pathLimit : Nat := 4096

/-- the components of a path; slashes in a row count as one -/
def components (path : String) : List String :=
  (Text.pieces '/' path).filter (· != "")

/-- writes to what exists -/
def overwrite : Place → Except SystemError Landing
  | .workingDirectory | .directory .. => .error .isDirectory
  | .file | .device .sink => .ok .outside
  | .device .full => .error .noSpace
  | .device .terminal => .error .noDevice
  | .device .stdout => .ok .stdout
  | .device .stderr => .ok .stderr

/-- writes to a new name -/
def createIn (name : String) : Place → Except SystemError Landing
  | .workingDirectory => .ok (.inside name)
  | .directory false _ => .ok .outside
  | .directory true _ => .error .noSuchFile
  | .file | .device _ => .error .notDirectory

/-- walks on from `here`, a place below the places `above`; `slash` tells that a slash follows the last component -/
def walk (slash : Bool) (here : Place) (above : List Place) : List String → Except SystemError Landing
  | [] => .error .isDirectory
  | name :: rest =>
    match here.entries? with
    | none => .error .notDirectory
    | some entries =>
      if name = "." then walk slash here above rest
      else if name = ".." then
        match above with
        | [] => walk slash here [] rest
        | parent :: above => walk slash parent above rest
      else if rest.isEmpty && slash then .error .isDirectory
      else if nameLimit < name.utf8ByteSize then .error .nameTooLong
      else match entries.lookup name with
        | some place => if rest.isEmpty then overwrite place else walk slash place (here :: above) rest
        | none => if rest.isEmpty then createIn name here else .error .noSuchFile

/-- writes a file at `path`, seen from the working directory -/
def write (path : String) : Except SystemError Landing :=
  if path.isEmpty then .error .noSuchFile
  else if pathLimit ≤ path.utf8ByteSize then .error .nameTooLong
  else
    let slash := path.endsWith "/"
    if path.startsWith "/" then walk slash .root [] (components path)
    else walk slash .workingDirectory [.elsewhere] (components path)

end OutputPath

end CallSurface
