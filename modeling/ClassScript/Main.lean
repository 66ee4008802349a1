import ClassScript.Command.Run

/-!
# The command line program
-/

namespace ClassScript.Command

/-- The cause of a failed file operation. The error number may come with either
sign. -/
def FileError.ofError : IO.Error → FileError
  | .noFileOrDirectory .. => .notFound
  | .inappropriateType _ code _ => if code = 20 ∨ code = -20 then .notDirectory else .isDirectory
  | .invalidArgument _ code _ =>
    if code = 36 ∨ code = -36 then .nameTooLong else .other "Invalid argument (os error 22)"
  | .permissionDenied .. => .other "Permission denied (os error 13)"
  | e => .other (toString e)

/-- The files of the machine. -/
def machineFiles : FileAccess IO where
  read path := do
    try
      return decodeText (← IO.FS.readBinFile path)
    catch e => return .error (.ofError e)
  write path text := do
    try
      IO.FS.writeFile path text
      return .ok ()
    catch e => return .error (.ofError e)

end ClassScript.Command

open ClassScript.Command in
/-- Runs the command on the arguments of the process. -/
def main (args : List String) : IO UInt32 := do
  let report ← run machineFiles args
  (← IO.getStderr).putStr report.stderr
  (← IO.getStdout).putStr report.stdout
  return report.exitCode.toUInt32
