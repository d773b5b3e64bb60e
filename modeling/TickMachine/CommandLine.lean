import TickMachine.Decimal.Text

/-!
# The command line

`[PROGRAM] [--frames N] [--frame-time T] [--start-time T] [--strict]`, read from left to right.

The value of an option follows it, as an argument of its own or behind an equals sign; an argument
of its own must not look like an option. Nothing may be given twice. Behind `--` there are no
options.
-/

namespace TickMachine

/-- What is to be simulated. -/
structure Settings where
  /-- The file with the program; without one the demonstration runs. -/
  program : Option String
  frames : Nat
  frameTime : Binary64
  startTime : Binary64
  strict : Bool
  deriving DecidableEq, Repr

inductive Invocation where
  | run (settings : Settings)
  /-- The usage was asked for. -/
  | help
  /-- The arguments make no sense. -/
  | invalid
  deriving DecidableEq, Repr

namespace CommandLine

/-- The options that have a value. -/
inductive Setting where
  | frames
  | frameTime
  | startTime
  deriving DecidableEq, Repr

/-- What an argument is by itself, before `--`. -/
inductive Argument where
  | positional
  | endOfOptions
  | help
  | strict
  | setting (s : Setting) (value : Option String)
  | unknown
  deriving DecidableEq, Repr

/-- The option of a long name, with the value behind the equals sign. -/
def Argument.ofName (name : String) (value : Option String) : Argument :=
  match name, value with
  | "help", none => help
  | "strict", none => strict
  | "frames", v => setting .frames v
  | "frame-time", v => setting .frameTime v
  | "start-time", v => setting .startTime v
  | _, _ => unknown

def Argument.ofText (s : String) : Argument :=
  match s.toList with
  | ['-', '-'] => endOfOptions
  | '-' :: '-' :: cs =>
    let value := match cs.dropWhile (· != '=') with
      | [] => none
      | _ :: v => some (String.ofList v)
    ofName (String.ofList (cs.takeWhile (· != '='))) value
  | '-' :: 'h' :: _ => help
  | '-' :: _ :: _ => unknown
  | _ => positional

/-- What has been given so far. -/
structure Given where
  program : Option String
  frames : Option Nat
  frameTime : Option Binary64
  startTime : Option Binary64
  strict : Bool
  deriving DecidableEq, Repr

namespace Given

def nothing : Given := ⟨none, none, none, none, false⟩

/-- The settings, with defaults for what has not been given. -/
def settings (g : Given) : Settings where
  program := g.program
  frames := g.frames.getD 8
  frameTime := g.frameTime.getD (.ofNat 1)
  startTime := g.startTime.getD (.ofNat 0)
  strict := g.strict

/-- A number of frames, of at most 32 bits. -/
def framesOfText? (s : String) : Option Nat := do
  let n ← Decimal.intOfChars? s.toList
  if 0 ≤ n ∧ n < 4294967296 then some n.toNat else none

/-- Takes in the value of an option, if it has none yet and the value can be read. -/
def set? (g : Given) (s : Setting) (value : String) : Option Given :=
  match s with
  | .frames =>
    if g.frames.isSome then none
    else (framesOfText? value).map fun n => { g with frames := some n }
  | .frameTime =>
    if g.frameTime.isSome then none
    else (Binary.ofText? value).map fun t => { g with frameTime := some t }
  | .startTime =>
    if g.startTime.isSome then none
    else (Binary.ofText? value).map fun t => { g with startTime := some t }

/-- Takes in the name of the program, if there is none yet and the name is not empty. -/
def setProgram? (g : Given) (path : String) : Option Given :=
  if g.program.isSome || path.isEmpty then none else some { g with program := some path }

/-- Takes in the flag, if it has not been given yet. -/
def setStrict? (g : Given) : Option Given :=
  if g.strict then none else some { g with strict := true }

end Given

/-- Reads arguments behind `--`. -/
def readPositionals (g : Given) : List String → Invocation
  | [] => .run g.settings
  | s :: rest =>
    match g.setProgram? s with
    | some g => readPositionals g rest
    | none => .invalid

/-- Reads arguments. -/
def read (g : Given) : List String → Invocation
  | [] => .run g.settings
  | s :: rest =>
    match Argument.ofText s with
    | .positional =>
      match g.setProgram? s with
      | some g => read g rest
      | none => .invalid
    | .endOfOptions => readPositionals g rest
    | .help => .help
    | .strict =>
      match g.setStrict? with
      | some g => read g rest
      | none => .invalid
    | .setting o (some v) =>
      match g.set? o v with
      | some g => read g rest
      | none => .invalid
    | .setting o none =>
      match rest with
      | [] => .invalid
      | v :: rest =>
        if Argument.ofText v = .positional then
          match g.set? o v with
          | some g => read g rest
          | none => .invalid
        else .invalid
    | .unknown => .invalid

end CommandLine

/-- What the arguments of the program ask for. -/
def Invocation.ofArguments (args : List String) : Invocation := CommandLine.read .nothing args

end TickMachine
