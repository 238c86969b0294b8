/-
Failures of the operating system, and its wording of them.
-/

namespace CallSurface

/-- why a system call failed -/
inductive SystemError where
  | noSuchFile
  | noDevice
  | notDirectory
  | isDirectory
  | noSpace
  | nameTooLong
  | connectionReset
  /-- any other cause, with its text -/
  | other (text : String)
  deriving DecidableEq, Repr

def SystemError.message : SystemError → String
  | noSuchFile => "No such file or directory (os error 2)"
  | noDevice => "No such device or address (os error 6)"
  | notDirectory => "Not a directory (os error 20)"
  | isDirectory => "Is a directory (os error 21)"
  | noSpace => "No space left on device (os error 28)"
  | nameTooLong => "File name too long (os error 36)"
  | connectionReset => "Connection reset by peer (os error 104)"
  | other text => text

end CallSurface
