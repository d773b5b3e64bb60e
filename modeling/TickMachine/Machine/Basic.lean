import TickMachine.Program
import TickMachine.Record
import TickMachine.Stack

/-!
# The machine

A machine runs a program a slice at a time. All its state is in its fields, so nothing is lost
between two slices.

An instruction acts on the stack alone and yields the event it reports (`Instruction.execute`). The
clock and the pointer see no more of it than that event (`Machine.heed`).
-/

namespace TickMachine

/-- What becomes of a byte that is no opcode. -/
inductive UnknownPolicy where
  /-- It is skipped. -/
  | ignore
  /-- It is a fault. -/
  | fatal
  deriving DecidableEq, Repr

/-! ## Instructions on the stack -/

/-- The work of an instruction on the stack, and the event it reports. The byte pushed last is the
right operand of a sum and the least significant byte of a number. -/
def Instruction.execute : Instruction → StackM Event
  | greet => return .helloWorld
  | set value => do
    Stack.push value
    return .set value
  | add => do
    Stack.require 2
    let b ← Stack.pop
    let a ← Stack.pop
    Stack.push (a + b)
    return .add a b (a + b)
  | printFloat => do
    Stack.require 4
    let b3 ← Stack.pop
    let b2 ← Stack.pop
    let b1 ← Stack.pop
    let b0 ← Stack.pop
    return .printFloat (Binary.ofBytes b0 b1 b2 b3) .stack
  | printInline operand => return .printFloat (Binary.ofVector operand) .operand
  | wait => do
    let amount ← Stack.pop
    return .wait amount
  | restart => do
    Stack.clear
    return .restart

/-! ## State -/

structure Machine where
  program : Program
  /-- The position of the next byte; the size of the program when it has run out. -/
  ip : Nat
  stack : Stack
  /-- The time that a pending wait is over. -/
  wake : Option Binary64
  faulted : Bool
  policy : UnknownPolicy
  deriving DecidableEq, Repr

namespace Machine

/-- A machine with an empty program. -/
def empty : Machine := ⟨.empty, 0, .empty, none, false, .ignore⟩

instance : Inhabited Machine := ⟨empty⟩

/-- The machine with a new program, which it is to run from the start. Only the policy is kept. -/
def load (m : Machine) (p : Program) : Machine := ⟨p, 0, .empty, none, false, m.policy⟩

/-- The machine with a new policy. All else is kept. -/
def configure (m : Machine) (policy : UnknownPolicy) : Machine := { m with policy }

/-- Whether no byte is left. -/
def isFinished (m : Machine) : Bool := m.program.size ≤ m.ip

/-! ## One step -/

/-- A wait sets the time to wake, a restart moves the pointer to the first byte. -/
def heed (m : Machine) (now : Binary64) : Event → Machine
  | .wait amount => { m with wake := some (now + .ofNat amount.toNat) }
  | .restart => { m with ip := 0 }
  | _ => m

/-- What one step comes to. -/
inductive Step where
  /-- No byte was left. -/
  | ended
  /-- The tick goes on. -/
  | continued (m : Machine) (records : List Record)
  /-- The tick is over. -/
  | suspended (m : Machine) (records : List Record)
  /-- The step failed, and left the machine so. -/
  | failed (fault : Fault) (m : Machine) (records : List Record)

/-- Executes the instruction at the pointer. The pointer is moved behind the instruction before its
work begins, but behind the opcode alone if the operand cannot be read. -/
def step (m : Machine) (now : Binary64) : Step :=
  match m.program.decode m.ip with
  | .ended => .ended
  | .unknown byte =>
    let next := { m with ip := m.ip + 1 }
    match m.policy with
    | .ignore => .continued next [.ignored m.ip byte]
    | .fatal => .failed (.unknownOpcode m.ip byte) next []
  | .truncated op =>
    .failed (.outOfRange (m.ip + 1) op.operandWidth m.program.size) { m with ip := m.ip + 1 }
      [.dispatch m.ip op]
  | .instruction i =>
    match i.execute m.stack with
    | .error fault stack =>
      .failed fault { m with ip := m.ip + i.width, stack } [.dispatch m.ip i.opcode]
    | .ok event stack =>
      let next := heed { m with ip := m.ip + i.width, stack } now event
      let records := [.dispatch m.ip i.opcode, .event event]
      if event.suspends then .suspended next (records ++ [.suspended next.ip next.wake])
      else .continued next records

end Machine

end TickMachine
