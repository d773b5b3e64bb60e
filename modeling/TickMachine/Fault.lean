import TickMachine.Opcode

/-!
# Faults

What stops a machine until a program is loaded, and the messages that say so.
-/

namespace TickMachine

inductive Fault where
  /-- A push onto a full stack. -/
  | stackOverflow (capacity : Nat)
  /-- The stack holds fewer bytes than an instruction takes. -/
  | stackUnderflow (needed size : Nat)
  /-- An operand from `pos` on runs past the end of the program. -/
  | outOfRange (pos needed size : Nat)
  /-- A byte that is no opcode, where none is tolerated. -/
  | unknownOpcode (ip : Nat) (byte : UInt8)
  /-- The machine had a fault before. -/
  | faulted
  deriving DecidableEq, Repr

namespace Fault

/-- Two hexadecimal digits in lower case. -/
def hexByte (byte : UInt8) : String :=
  String.ofList [Nat.digitChar (byte.toNat / 16), Nat.digitChar (byte.toNat % 16)]

def message : Fault → String
  | stackOverflow capacity => s!"stack overflow: all {capacity} slots are occupied"
  | stackUnderflow needed size =>
    s!"stack underflow: needed {needed} value(s) but the stack holds {size}"
  | outOfRange pos needed size =>
    s!"operand of {needed} byte(s) at {pos} runs past the end of a {size}-byte program"
  | unknownOpcode ip byte => s!"unknown opcode 0x{hexByte byte} at {ip}"
  | faulted => "machine is faulted, load a program to reset it"

end Fault

end TickMachine
