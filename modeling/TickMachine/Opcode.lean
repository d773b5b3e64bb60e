/-!
# Opcodes

The instruction set by its byte encoding. `ofByte?_eq_some_iff` states that each opcode has exactly
one byte; all other bytes are unknown.
-/

namespace TickMachine

inductive Opcode where
  /-- Greets. -/
  | greet
  /-- Pushes the byte that follows. -/
  | set
  /-- Replaces the two topmost bytes by their sum. -/
  | add
  /-- Takes four bytes off the stack and prints them as one number. -/
  | printFloat
  /-- Prints the four bytes that follow as one number. -/
  | printInline
  /-- Takes a byte off the stack and sleeps for so many units of time. -/
  | wait
  /-- Starts over with an empty stack. -/
  | restart
  deriving DecidableEq, Repr

namespace Opcode

/-- Every opcode, in the order of the encoding. -/
def all : List Opcode := [greet, set, add, printFloat, printInline, wait, restart]

theorem mem_all (op : Opcode) : op ∈ all := by cases op <;> decide

def byte : Opcode → UInt8
  | greet => 0
  | set => 1
  | add => 2
  | printFloat => 3
  | printInline => 4
  | wait => 5
  | restart => 6

def ofByte? (b : UInt8) : Option Opcode := all.find? fun op => op.byte == b

theorem ofByte?_eq_some_iff {b : UInt8} {op : Opcode} : ofByte? b = some op ↔ op.byte = b := by
  constructor
  · intro h
    simpa using List.find?_some h
  · rintro rfl
    cases op <;> rfl

@[simp] theorem ofByte?_byte (op : Opcode) : ofByte? op.byte = some op :=
  ofByte?_eq_some_iff.2 rfl

theorem byte_inj {o op : Opcode} : o.byte = op.byte ↔ o = op := by
  constructor
  · intro h
    have ho := ofByte?_byte o
    rw [h, ofByte?_byte] at ho
    exact (Option.some.inj ho).symm
  · rintro rfl
    rfl

/-- The unknown bytes are those from seven on. -/
theorem ofByte?_eq_none_iff {b : UInt8} : ofByte? b = none ↔ 7 ≤ b := by
  simp only [ofByte?, all, List.find?_eq_none, List.mem_cons, List.not_mem_nil, or_false,
    forall_eq_or_imp, forall_eq, byte, beq_iff_eq]
  grind

/-- The number of operand bytes that follow the opcode. -/
def operandWidth : Opcode → Nat
  | set => 1
  | printInline => 4
  | greet | add | printFloat | wait | restart => 0

/-- The name that logs use. -/
def name : Opcode → String
  | greet => "PrintHelloWorld"
  | set => "Set"
  | add => "Add"
  | printFloat => "PrintFloat"
  | printInline => "PrintFloatNoStack"
  | wait => "Wait"
  | restart => "Repeat"

end Opcode

end TickMachine
