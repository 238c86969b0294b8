/-
What a path can come by: the empty working directory, and the part of the file system around it that every system has.
-/
import CallSurface.SystemError

namespace CallSurface

/-- a device, by what becomes of the bytes written to it -/
inductive Device where
  /-- takes them and keeps nothing -/
  | sink
  /-- has no room for them -/
  | full
  /-- cannot be opened, as no terminal is attached -/
  | terminal
  | stdout
  | stderr
  deriving DecidableEq, Repr

inductive Place where
  | workingDirectory
  /-- holds the entries, and perhaps others; new ones can be made in it unless it is `closed` -/
  | directory (closed : Bool) (entries : List (String × Place))
  | file
  | device (d : Device)

namespace Place

/-- a directory of which nothing is known -/
def elsewhere : Place := directory false []

/-- the streams of a process, by number -/
def streams : Place :=
  directory true [("0", device .sink), ("1", device .stdout), ("2", device .stderr)]

def devices : Place :=
  directory false [("null", device .sink), ("zero", device .sink), ("random", device .sink),
    ("urandom", device .sink), ("full", device .full), ("tty", device .terminal), ("stdin", device .sink),
    ("stdout", device .stdout), ("stderr", device .stderr), ("fd", streams), ("pts", directory true []),
    ("shm", elsewhere), ("mqueue", elsewhere)]

def processes : Place :=
  directory true [("self", directory true [("fd", streams)])]

def settings : Place :=
  directory false [("passwd", file), ("group", file), ("hosts", file), ("hostname", file)]

def root : Place :=
  directory false ([("dev", devices), ("proc", processes), ("etc", settings), ("sys", directory true [])] ++
    ["bin", "boot", "home", "lib", "lib64", "media", "mnt", "opt", "root", "run", "sbin", "srv", "tmp", "usr",
      "var"].map (·, elsewhere))

/-- the known entries, if it is a directory -/
def entries? : Place → Option (List (String × Place))
  | workingDirectory => some []
  | directory _ entries => some entries
  | file | device _ => none

end Place

end CallSurface
