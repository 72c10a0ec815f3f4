import ModalFitch.CommandLine.Run

/-! The program: it reads the file that the command line asks for, and prints. -/

open ModalFitch

namespace ModalFitch.Program
set_option autoImplicit false

/-- The number of a system error, whose sign may be turned. -/
def errorNumber (code : UInt32) : Nat := min code.toNat (0 - code).toNat

/-- The reason why a file cannot be read, from the error of the system. -/
def fileError (plain : String) (e : IO.Error) : CommandLine.FileError :=
  match e with
  | .noFileOrDirectory .. => .notFound plain
  | .inappropriateType _ code _ =>
    if errorNumber code = 20 then .notDirectory plain else .isDirectory plain
  | .invalidArgument _ code _ =>
    if errorNumber code = 36 then .nameTooLong plain else .other (toString e)
  | _ => .other (toString e)

/-- The bytes of a file, or why it cannot be read. -/
def content (path : String) : IO (Except CommandLine.FileError (List UInt8)) := do
  let plain := CommandLine.plainPath path
  if path.toList.contains '\x00' then return .error .zeroByte
  try
    let bytes ← IO.FS.readBinFile plain
    return .ok bytes.toList
  catch e => return .error (fileError plain e)

def outcome (args : List String) : IO CommandLine.Outcome :=
  match CommandLine.plan args with
  | .finished o => pure o
  | .reading path next => do return next (← content path)

end ModalFitch.Program

def main (args : List String) : IO UInt32 := do
  match ← Program.outcome args with
  | .ok o =>
    (← IO.getStderr).putStr o.stderr
    (← IO.getStdout).putStr o.stdout
    return UInt32.ofNat o.exitCode
  | .error e =>
    (← IO.getStderr).putStrLn e.message
    return 1
