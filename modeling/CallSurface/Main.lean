/-
The command line program: decodes the arguments, runs the command and writes what it gives.
-/
import CallSurface.Command.Run

namespace CallSurface

/-- a failed write, in the system's words -/
def SystemError.ofWrite : IO.Error → SystemError
  | .noFileOrDirectory .. => .noSuchFile
  | .inappropriateType _ 20 _ => .notDirectory
  | .inappropriateType .. => .isDirectory
  | .resourceExhausted .. => .noSpace
  | .invalidArgument .. => .nameTooLong
  | e => .other (toString e)

/-- writes the header to a file -/
def writeHeader (filter : LogFilter) (path : String) : IO CommandResult := do
  try
    IO.FS.writeFile path Header.text
    return { code := 0, stderr := filter.lines (Command.headerRecord path) }
  catch e =>
    return Command.failure (.system (.ofWrite e))

/-- runs the command line, files included -/
def runProgram (setting : Option String) (args : List String) : IO CommandResult := do
  let filter := LogFilter.ofSetting setting
  match Command.parse args with
  | .ok (.header (some path)) => return (← writeHeader filter path).after filter.complaints
  | _ => return Command.runWords setting args

end CallSurface

def main (args : List String) : IO UInt32 := do
  let setting ← IO.getEnv "RUST_LOG"
  let r ← CallSurface.runProgram setting args
  for line in r.stderr do
    IO.eprintln line
  IO.print r.stdout
  return r.code.toUInt32
