/-
Running a command in an empty directory.

The run is all or nothing: it succeeds with its output, or it fails with a message and leaves nothing behind. An
unknown family is reported before an unknown kind.
-/
import CallSurface.Command.Arguments
import CallSurface.Command.LogFilter
import CallSurface.Command.OutputPath
import CallSurface.Header

namespace CallSurface

/-- why a command fails -/
inductive CommandError where
  | lookup (e : LookupError)
  | system (e : SystemError)
  deriving DecidableEq, Repr

def CommandError.message : CommandError → String
  | lookup e => e.message
  | system e => "I/O error: " ++ e.message

/-- what is left of a run: exit code, standard output, files of the directory, lines of standard error -/
structure CommandResult where
  code : Nat
  stdout : String := ""
  files : List (String × String) := []
  stderr : List String := []
  deriving DecidableEq, Repr

/-- the same with lines of standard error in front -/
def CommandResult.after (lines : List String) (r : CommandResult) : CommandResult :=
  { r with stderr := lines ++ r.stderr }

namespace Selection

def familyTag : Family → String
  | .operator => "Operator"
  | .cast => "Cast"
  | .io => "Io"
  | .memory => "Memory"
  | .process => "Process"

def kindTag : Kind → String
  | .int .i32 => "I32"
  | .int .ui32 => "Ui32"
  | .int .i64 => "I64"
  | .int .ui64 => "Ui64"
  | .int .usize => "Usize"
  | .int .char => "Char"
  | .float .f32 => "F32"
  | .float .f64 => "F64"
  | .bool => "Bool"

/-- an optional part, as the log shows it -/
def partText (tag : Option String) : String :=
  match tag with
  | some t => "Some(" ++ t ++ ")"
  | none => "None"

/-- the selection, as the log shows it -/
def logText (f : Selection) : String :=
  "SymbolFilter \x7b family: " ++ partText (f.family.map familyTag) ++ ", kind: " ++ partText (f.kind.map kindTag) ++
    " \x7d"

/-- the selection of these names -/
def ofNames (family kind : Option String) : Except LookupError Selection := do
  let f ← family.mapM Family.lookup
  let k ← kind.mapM Kind.lookup
  return ⟨f, k⟩

end Selection

namespace Command

/-- the target of every record -/
def logTarget : String := "fatlang"

def failure (e : CommandError) : CommandResult :=
  { code := 1, stderr := Text.pieces '\n' ("error: " ++ e.message) }

/-- logged when the header was written to a file -/
def headerRecord (path : String) : LogRecord :=
  { level := .info, target := logTarget, message := "Wrote header"
    fields := [("path", path), ("bytes", toString Header.text.utf8ByteSize)] }

/-- logged when symbols are listed -/
def listingRecord (f : Selection) : LogRecord :=
  { level := .debug, target := logTarget, message := "Listing symbols"
    fields := [("count", toString f.prototypes.length), ("filter", f.logText)] }

/-- one line per prototype -/
def listing (f : Selection) : String :=
  String.join (f.prototypes.map (· ++ "\n"))

/-- what is left when the header was written and landed there, and `log` was logged -/
def headerWritten (log : List String) : Landing → CommandResult
  | .inside name => { code := 0, files := [(name, Header.text)], stderr := log }
  | .outside => { code := 0, stderr := log }
  | .stdout => { code := 0, stdout := Header.text, stderr := log }
  | .stderr => { code := 0, stderr := (Text.pieces '\n' Header.text).dropLast ++ log }

/-- runs a command; `filter` selects what is logged -/
def run (filter : LogFilter) : Command → CommandResult
  | header none => { code := 0, stdout := Header.text }
  | header (some path) =>
    match OutputPath.write path with
    | .error e => failure (.system e)
    | .ok landing => headerWritten (filter.lines (headerRecord path)) landing
  | symbols family kind =>
    match Selection.ofNames family kind with
    | .error e => failure (.lookup e)
    | .ok f => { code := 0, stdout := listing f, stderr := filter.lines (listingRecord f) }

/-- runs a command line under a log setting; where it spells no command, only the exit code says so -/
def runWords (setting : Option String) (args : List String) : CommandResult :=
  let filter := LogFilter.ofSetting setting
  match parse args with
  | .error r => { code := r.exitCode, stderr := filter.complaints }
  | .ok c => (c.run filter).after filter.complaints

end Command

end CallSurface
