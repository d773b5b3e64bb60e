import TickMachine.Simulation

/-!
# The program

Reads the file that the command line names, simulates, and prints the log. The variable `LOG_LEVEL`
holds the verbosity.
-/

namespace TickMachine

/-- The failure that the system reported. -/
def ReadFailure.ofError : IO.Error → ReadFailure
  | .noFileOrDirectory _ code _ | .noSuchThing _ code _ => ⟨notFound.reason, code.toNat⟩
  | .inappropriateType _ code _ | .resourceBusy code _ | .illegalOperation code _ =>
    if code.toNat = isDirectory.code then isDirectory else ⟨"Input/output error", code.toNat⟩
  | .permissionDenied _ code _ => ⟨"Permission denied", code.toNat⟩
  | _ => ⟨"Input/output error", 5⟩

/-- A path, and what the file there holds. -/
def readFile (path : String) : IO (String × Except ReadFailure Program) := do
  try return (path, .ok ⟨(← IO.FS.readBinFile path).data⟩)
  catch e => return (path, .error (.ofError e))

def usage : String :=
  "usage: tickmachine [PROGRAM] [--frames N] [--frame-time T] [--start-time T] [--strict]"

end TickMachine

open TickMachine in
def main (args : List String) : IO UInt32 := do
  match Invocation.ofArguments args with
  | .help =>
    IO.println usage
    return 0
  | .invalid =>
    IO.eprintln usage
    return 2
  | .run settings =>
    let wanted := (← IO.getEnv "LOG_LEVEL").bind Verbosity.ofText?
    let source := Source.ofFile (← settings.program.mapM readFile)
    let (status, log) := Simulation.run settings source (wanted.getD (.upTo .info))
    log.lines.forM fun line => IO.println line
    return status.toUInt32
