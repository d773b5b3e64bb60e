import TickMachine.Decimal.Text

/-!
# Events

What a machine tells its host, and the line of text for each event.
-/

namespace TickMachine

/-- Where the bytes of a printed number came from. -/
inductive FloatSource where
  | stack
  | operand
  deriving DecidableEq, Repr

inductive Event where
  | helloWorld
  | set (value : UInt8)
  | add (a b sum : UInt8)
  | printFloat (value : Binary32) (source : FloatSource)
  | wait (amount : UInt8)
  | restart
  /-- The machine found no further byte. -/
  | finished
  /-- The machine is asleep for so long still, in whole units of time. -/
  | waiting (remaining : Binary64)
  deriving DecidableEq, Repr

namespace Event

/-- Whether the machine pauses after the event. -/
def suspends : Event → Bool
  | wait _ | restart => true
  | _ => false

def text : Event → String
  | helloWorld => "Hello World"
  | set value => s!"Set (READ & PUSH: {value.toNat})"
  | add a b sum => s!"Add (POP: {a.toNat}) + (POP: {b.toNat}) = (PUSH: {sum.toNat})"
  | printFloat value .stack => s!"Print Float (POP 4x = {value.text})"
  | printFloat value .operand => s!"Print Float (READ 4x FOLLOWING BYTES = {value.text})"
  | wait amount => s!"Wait (POP: {amount.toNat})"
  | restart => "Repeat"
  | finished => "Finished"
  | waiting remaining => s!"Waiting {remaining.text} seconds..."

end Event

end TickMachine
