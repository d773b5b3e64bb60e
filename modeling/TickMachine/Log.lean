import TickMachine.Session

/-!
# The log

A record becomes one line: its level, the tick it belongs to, its target, a message and fields. A
verbosity admits the lines of a level and of the more severe ones. Ticks are themselves of level
`debug`, so a line names its tick only where that level is admitted.
-/

namespace TickMachine

/-! ## Levels -/

inductive Level where
  | error
  | warn
  | info
  | debug
  | trace
  deriving DecidableEq, Repr

namespace Level

/-- Counts up from the most severe level. -/
def rank : Level → Nat
  | error => 1
  | warn => 2
  | info => 3
  | debug => 4
  | trace => 5

def name : Level → String
  | error => "ERROR"
  | warn => "WARN"
  | info => "INFO"
  | debug => "DEBUG"
  | trace => "TRACE"

end Level

/-- The lines that are wanted: none, or all up to a level. -/
inductive Verbosity where
  | off
  | upTo (least : Level)
  deriving DecidableEq, Repr

namespace Verbosity

def admits : Verbosity → Level → Bool
  | off, _ => false
  | upTo least, level => level.rank ≤ least.rank

/-- Reads a verbosity: the name of a level or `off`, in either case, or its number. -/
def ofText? (s : String) : Option Verbosity :=
  match String.ofList (s.toList.map Char.toLower) with
  | "off" | "0" => some off
  | "error" | "1" => some (upTo .error)
  | "warn" | "2" => some (upTo .warn)
  | "info" | "3" => some (upTo .info)
  | "debug" | "4" => some (upTo .debug)
  | "trace" | "5" => some (upTo .trace)
  | _ => none

end Verbosity

/-! ## Lines -/

structure LogLine where
  level : Level
  now : Option Binary64
  target : String
  message : String
  deriving DecidableEq, Repr

namespace LogLine

/-- The tick that a line belongs to, as it is written before the target. -/
def span (line : LogLine) : String :=
  match line.now with
  | some now => s!"tick\x7bnow={now.fieldText}\x7d: "
  | none => ""

/-- The line as it is written, if it is wanted. -/
def render? (verbosity : Verbosity) (line : LogLine) : Option String :=
  if verbosity.admits line.level then
    let span := if verbosity.admits .debug then line.span else ""
    some s!"{line.level.name} {span}{line.target}: {line.message}"
  else none

end LogLine

/-- The text of the time of a pending wait. -/
def wakeText : Option Binary64 → String
  | none => "None"
  | some wake => s!"Some({wake.fieldText})"

namespace Record

def level : Record → Level
  | loaded _ | resuming _ | suspended _ _ => .debug
  | dispatch _ _ => .trace
  | event _ => .info
  | ignored _ _ => .warn
  | faulted _ _ => .error

/-- Events have a target of their own. -/
def target : Record → String
  | event _ => "bytevm::event"
  | _ => "bytevm::vm"

def message : Record → String
  | loaded size => s!"program loaded len={size}"
  | resuming wake => s!"resuming wake={wake.fieldText}"
  | dispatch ip op => s!"dispatch ip={ip} op={op.name}"
  | event e => e.text
  | ignored ip byte => s!"ignoring unknown opcode ip={ip} byte={byte.toNat}"
  | suspended ip wake => s!"suspended ip={ip} wake={wakeText wake}"
  | faulted fault ip => s!"machine faulted err={fault.message} ip={ip}"

/-- The log line of a record. -/
def line (r : Record) (now : Option Binary64) : LogLine := ⟨r.level, now, r.target, r.message⟩

end Record

/-! ## Collecting lines -/

/-- The wanted lines of a session, from the first on. -/
structure TraceLog where
  verbosity : Verbosity
  lines : Array String
  deriving DecidableEq, Repr

namespace TraceLog

def empty (verbosity : Verbosity) : TraceLog := ⟨verbosity, #[]⟩

/-- Adds a line if it is wanted. -/
def write (log : TraceLog) (line : LogLine) : TraceLog :=
  match line.render? log.verbosity with
  | some text => { log with lines := log.lines.push text }
  | none => log

/-- The text of a record that is not wanted is never made. -/
instance : Sink TraceLog where
  accept log now r := if log.verbosity.admits r.level then log.write (r.line now) else log

end TraceLog

end TickMachine
