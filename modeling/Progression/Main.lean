import Progression.CommandLine

/-! The program on the command line. -/

namespace Progression

/-- The contents of a file, if it can be read. -/
def readFile? (path : String) : IO (Option String) := do
  try
    return some (← IO.FS.readFile path)
  catch _ =>
    return none

end Progression

open Progression

/-- Reads the arguments, carries out the command and writes its response. -/
def main (arguments : List String) : IO UInt32 := do
  match Command.ofArguments? arguments with
  | none =>
      (← IO.getStderr).putStr Command.usage
      return 2
  | some command =>
      let file ← if command.fromFile then readFile? command.input else pure none
      let response := command.run file
      (← IO.getStdout).putStr response.output
      (← IO.getStderr).putStr response.errors
      return if response.success then 0 else 1
