import TickMachine.Event
import TickMachine.Fault

/-!
# Records

Everything a machine notes about its work, in the order of the work. The events for the host are
among the records; the others serve the log.
-/

namespace TickMachine

inductive Record where
  /-- A program of so many bytes was loaded. -/
  | loaded (size : Nat)
  /-- The wait is over. -/
  | resuming (wake : Binary64)
  /-- The opcode at `ip` is about to be executed. -/
  | dispatch (ip : Nat) (op : Opcode)
  | event (e : Event)
  /-- The unknown byte at `ip` is skipped. -/
  | ignored (ip : Nat) (byte : UInt8)
  /-- The tick ends before the bytes do; the next one goes on at `ip`. -/
  | suspended (ip : Nat) (wake : Option Binary64)
  /-- The machine stops with a fault, its pointer at `ip`. -/
  | faulted (fault : Fault) (ip : Nat)
  deriving DecidableEq, Repr

namespace Record

def event? : Record → Option Event
  | event e => some e
  | _ => none

/-- The events among the records. -/
def events (rs : List Record) : List Event := rs.filterMap event?

@[simp] theorem events_nil : events [] = [] := rfl

@[simp] theorem events_append (rs ss : List Record) : events (rs ++ ss) = events rs ++ events ss :=
  List.filterMap_append

end Record

end TickMachine
