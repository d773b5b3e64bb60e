import TickMachine.Assembler
import TickMachine.CommandLine
import TickMachine.Log
import TickMachine.QuotedText

/-!
# The simulation

A machine is ticked once a frame, until the frames are used up or a tick fails. The simulation adds
one line of its own to the log, the last one, and answers an exit status.
-/

namespace TickMachine

/-- Why a file could not be read: the reason and number of the system. -/
structure ReadFailure where
  reason : String
  code : Nat
  deriving DecidableEq, Repr

namespace ReadFailure

def notFound : ReadFailure := ⟨"No such file or directory", 2⟩
def isDirectory : ReadFailure := ⟨"Is a directory", 21⟩

end ReadFailure

/-- The program of a simulation, or the file that could not be read. -/
abbrev Source := Except (String × ReadFailure) Program

/-- The program of the file that the command line names, or why it could not be read; where no file
is named, the demonstration. -/
def Source.ofFile : Option (String × Except ReadFailure Program) → Source
  | none => .ok Assembler.demo
  | some (path, contents) => contents.mapError (path, ·)

/-- A failed tick. -/
structure FrameFailure where
  fault : Fault
  frame : Nat
  now : Binary64
  deriving DecidableEq, Repr

namespace Simulation

/-! ## The line of its own -/

def line (level : Level) (message : String) : LogLine := ⟨level, none, "main", message⟩

def unreadableLine (path : String) (failure : ReadFailure) : LogLine :=
  line .error
    s!"failed to read program {quote path}: {failure.reason} (os error {failure.code})"

def failedLine (f : FrameFailure) : LogLine :=
  line .error s!"{f.fault.message} frame={f.frame} now={f.now.fieldText}"

/-- The bytes of a stack, the bottom first. -/
def stackText (s : Stack) : String :=
  "[" ++ ", ".intercalate (s.toList.map fun b => toString b.toNat) ++ "]"

def doneLine (m : Machine) : LogLine :=
  line .info s!"done ip={m.ip} stack={stackText m.stack} wake={wakeText m.wake}"

/-! ## Frames -/

/-- The time of a frame. -/
def timeOf (s : Settings) (frame : Nat) : Binary64 := s.startTime + .ofNat frame * s.frameTime

variable {σ : Type} [Sink σ]

/-- Ticks for the given number of frames from `frame` on, until one fails. -/
def runFrames (settings : Settings) (frame : Nat) (session : Session σ) :
    Nat → Except FrameFailure Unit × Session σ
  | 0 => (.ok (), session)
  | n + 1 =>
    let now := timeOf settings frame
    match session.perform (.tick now) with
    | (.ok (), next) => runFrames settings (frame + 1) next n
    | (.error fault, next) => (.error ⟨fault, frame, now⟩, next)

/-- Loads the program into a machine of the wanted policy and runs all frames. -/
def start (settings : Settings) (p : Program) (sink : σ) : Except FrameFailure Unit × Session σ :=
  let m := Machine.empty.configure (if settings.strict then .fatal else .ignore)
  let session := (Session.perform ⟨m, sink⟩ (.load p)).2
  runFrames settings 0 session settings.frames

/-- The whole simulation: the exit status and the log. -/
def run (settings : Settings) (source : Source) (verbosity : Verbosity) : Nat × TraceLog :=
  match source with
  | .error (path, failure) => (1, (TraceLog.empty verbosity).write (unreadableLine path failure))
  | .ok p =>
    match start settings p (TraceLog.empty verbosity) with
    | (.ok (), session) => (0, session.sink.write (doneLine session.machine))
    | (.error f, session) => (1, session.sink.write (failedLine f))

end Simulation

end TickMachine
