/-
Which records of the command line's own log appear.

The program hands its setting to a logging library that is no part of it. How the library reads a setting is an
assumption:
- a setting is a list of directives between commas. A directive is a level, or a target with or without a level; in
  brackets behind the target it may name a span and a field. A directive without a level lets everything through;
- a directive governs the records whose target begins with its own and which carry its field. Of several that govern a
  record the most specific decides, and of equally specific ones the last;
- a directive that cannot be read is reported and left out.
-/
import CallSurface.Command.LogLevel
import CallSurface.Text.Character

namespace CallSurface

/-- an entry of the log -/
structure LogRecord where
  level : LogLevel
  target : String
  message : String
  fields : List (String × String)
  deriving DecidableEq, Repr

namespace LogRecord

def line (r : LogRecord) : String :=
  r.level.name ++ " " ++ r.target ++ ": " ++ r.message ++ String.join (r.fields.map fun (k, v) => " " ++ k ++ "=" ++ v)

/-- the names of its parts; the message is one of them -/
def fieldNames (r : LogRecord) : List String :=
  "message" :: r.fields.map (·.1)

end LogRecord

/-- why a directive cannot be read -/
inductive DirectiveError where
  | malformed
  | unknownLevel
  deriving DecidableEq, Repr

def DirectiveError.message : DirectiveError → String
  | malformed => "invalid filter directive"
  | unknownLevel => "error parsing level filter: expected one of \"off\", \"error\", \"warn\", \"info\", \"debug\", " ++
      "\"trace\", or a number 0-5"

/-- a threshold, and the records that it is for -/
structure Directive where
  level : LogLevel
  /-- governs the targets that begin so; all of them if there is none -/
  target : Option String := none
  /-- governs the records that carry this field -/
  field : Option String := none
  /-- is it tied to a span, or to the value that a field has in one? -/
  inSpan : Bool := false
  deriving DecidableEq, Repr

namespace Directive

/-- the level behind an equals sign; nothing there means everything -/
def levelOf (cs : List Char) : Except DirectiveError LogLevel :=
  if cs.isEmpty then .ok .trace
  else match LogLevel.ofText? (String.ofList cs) with
    | some l => .ok l
    | none => .error .unknownLevel

/-- a level by itself, or a target by itself -/
def levelOrTarget (cs : List Char) : Directive :=
  match LogLevel.ofText? (String.ofList cs) with
  | some l => { level := l }
  | none => { level := .trace, target := some (String.ofList cs) }

/-- `d` with the level behind the closing bracket, which stands just before place `pos` of `cs` and is followed by
`rest` -/
def closed (d : Directive) (cs : List Char) (pos : Nat) (rest : List Char) : Except DirectiveError Directive :=
  match rest with
  | [] => .ok d
  | '=' :: _ => (levelOf (cs.drop (pos + 1))).map fun l => { d with level := l }
  | _ => .error .malformed

/-- `d` with a field behind a name of `n` characters: braces around a name, or around a name and a value; `rest`
follows the opening brace, from place `pos` of `cs` on -/
def braced (d : Directive) (n : Nat) (cs : List Char) (pos : Nat) (rest : List Char) :
    Except DirectiveError Directive :=
  let m := (rest.takeWhile (· != '\x7d')).length
  match rest.drop m with
  | '\x7d' :: ']' :: rest =>
    let field := (cs.drop pos).take m
    let name := field.takeWhile (· != '=')
    if field.isEmpty then .error .malformed
    else closed { d with field := some (String.ofList name), inSpan := n != 0 || name.length < m } cs (pos + m + 2) rest
  | _ => .error .malformed

/-- `d` with the span and field that brackets name; `rest` follows the opening bracket, from place `pos` of `cs` on -/
def bracketed (d : Directive) (cs : List Char) (pos : Nat) (rest : List Char) : Except DirectiveError Directive :=
  let n := (rest.takeWhile fun c => c != ']' && c != '\x7b').length
  match rest.drop n with
  | ']' :: rest => closed { d with inSpan := true } cs (pos + n + 1) rest
  | '\x7b' :: rest => braced d n cs (pos + n + 1) rest
  | _ => .error .malformed

/-- what a target or a level may begin with -/
def isInitial (c : Char) : Bool :=
  c == '-' || c == ':' || c == '_' || Text.isAlphanumeric c

/-- reads a directive. White space around it does not count when its parts are told apart, yet the parts are cut by
their places from the beginning of the whole text -/
def ofText (s : String) : Except DirectiveError Directive :=
  let cs := s.toList
  match Text.trim cs with
  | [] => .error .malformed
  | '[' :: rest => bracketed { level := .trace } cs 1 rest
  | c :: rest =>
    if !isInitial c then .error .malformed
    else
      let n := ((c :: rest).takeWhile fun c => c != '=' && c != '[').length
      let target := some (String.ofList (cs.take n))
      match (c :: rest).drop n with
      | [] => .ok (levelOrTarget cs)
      | '=' :: _ => (levelOf (cs.drop (n + 1))).map fun l => { level := l, target := target }
      | _ :: rest => bracketed { level := .trace, target := target } cs (n + 1) rest

/-- does the directive speak about this record? There are no spans, so that one tied to a span never does -/
def governs (d : Directive) (r : LogRecord) : Bool :=
  !d.inSpan && d.target.all (·.toList.isPrefixOf r.target.toList) && d.field.all (r.fieldNames.contains ·)

/-- by the length of the target, then by the field -/
def compareSpecific (d e : Directive) : Ordering :=
  let size (d : Directive) := d.target.elim 0 (·.utf8ByteSize + 1)
  (compare (size d) (size e)).then (compare (d.field.getD "") (e.field.getD ""))

/-- the directive to go by, after one more -/
def prefer (best : Option Directive) (d : Directive) : Option Directive :=
  match best with
  | none => some d
  | some b => if (d.compareSpecific b).isGE then some d else some b

end Directive

/-- what a setting says: its directives, and what is reported about the ones that cannot be read -/
structure LogFilter where
  directives : List Directive
  complaints : List String
  deriving DecidableEq, Repr

namespace LogFilter

/-- the directives of a setting, as they are written -/
def items (setting : Option String) : List String :=
  (Text.pieces ',' (setting.getD "")).filter (· != "")

def complaint (item : String) (e : DirectiveError) : List String :=
  Text.pieces '\n' ("ignoring `" ++ item ++ "`: " ++ e.message)

def ofSetting (setting : Option String) : LogFilter :=
  { directives := (items setting).filterMap fun s => (Directive.ofText s).toOption
    complaints := (items setting).flatMap fun s =>
      match Directive.ofText s with
      | .ok _ => []
      | .error e => complaint s e }

/-- the level from which on a record like `r` appears: without directives errors do, ungoverned records never do -/
def threshold (f : LogFilter) (r : LogRecord) : LogLevel :=
  if f.directives.isEmpty then .error
  else match (f.directives.filter (·.governs r)).foldl Directive.prefer none with
    | some d => d.level
    | none => .off

/-- the lines of a record, if it appears -/
def lines (f : LogFilter) (r : LogRecord) : List String :=
  if (f.threshold r).admits r.level then Text.pieces '\n' r.line else []

end LogFilter

end CallSurface
