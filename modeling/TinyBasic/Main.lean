import TinyBasic.Command.Standard
/-!
# The executable

Runs the command on the real file system and prints what it printed.
-/

namespace TinyBasic

/-- The system's refusal as a reason the command reports. -/
def osErrorOf : IO.Error → OsError
  | .noFileOrDirectory .. => .noEntry
  | .inappropriateType _ 21 _ => .isDirectory
  | .inappropriateType _ 20 _ => .notDirectory
  | .otherError 21 _ => .isDirectory
  | .otherError 20 _ => .notDirectory
  | .invalidArgument _ 36 _ => .nameTooLong
  | .otherError 36 _ => .nameTooLong
  | e => .other (toString e)

/-- The command's view of the real file system. -/
def realFiles : Files IO where
  isDirectory p := do
    try
      let h ← IO.FS.Handle.mk p .read
      let _ ← h.read 1
      return false
    catch e => return osErrorOf e == .isDirectory
  read p := do
    try return .ok (← IO.FS.readBinFile p.render).toList
    catch e => return .error (osErrorOf e)
  write p bytes := do
    try
      IO.FS.writeBinFile p.render (ByteArray.mk bytes.toArray)
      return .ok ()
    catch e => return .error (osErrorOf e)

end TinyBasic

open TinyBasic in
/-- Runs `b2c` with the process's arguments. -/
def main (args : List String) : IO UInt32 := do
  let con : Console := ⟨← (← IO.getStdout).isTty, ← (← IO.getStderr).isTty⟩
  let o ← Command.run CommandLine.standard realFiles con "b2c" args
  IO.print o.out
  IO.eprint o.err
  if o.usage then
    IO.eprintln "Usage: b2c [OPTIONS] INPUT_FILE\nTry 'b2c --help' for help."
  return o.code.toUInt32
