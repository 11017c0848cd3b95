import HyperCard.CommandLine.Run

/-!
# The program

Reads the stack that the command line names, carries out its action, and prints and writes what
the action reports. The exit code is 0, or 1 after a failure, or 2 if the command line is not
well formed.
-/
namespace HyperCard.CommandLine

/-- The contents of a file, if there is one. -/
def contents? (path : String) : IO (Option (Array UInt8)) := do
  match ← (IO.FS.readBinFile path).toBaseIO with
  | .ok bytes => return some bytes.data
  | .error _ => return none

/-- Print and write what an action reports. -/
def publish (report : Report) : IO UInt32 := do
  if let some (path, bytes) := report.written then
    IO.FS.writeBinFile path ⟨bytes.toArray⟩
  IO.print report.printed
  match report.failure with
  | none => return 0
  | some message =>
    IO.eprintln ("Error: " ++ message)
    return 1

end HyperCard.CommandLine

open HyperCard.CommandLine in
/-- Carry out a command line. -/
def main (arguments : List String) : IO UInt32 := do
  match Invocation.parse? arguments with
  | none =>
    IO.eprintln "the arguments are not well formed"
    return 2
  | some invocation =>
    match invocation.action.stack? with
    | none => publish (run (fun _ => none) invocation)
    | some path =>
      let contents ← contents? path
      publish (run (fun wanted => if wanted = path then contents else none) invocation)
