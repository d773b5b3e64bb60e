import TickMachine.Opcode

/-!
# Instructions

An instruction is an opcode with its operand. `length_encode` gives the number of its bytes.
-/

namespace TickMachine

inductive Instruction where
  | greet
  | set (value : UInt8)
  | add
  | printFloat
  | printInline (operand : Vector UInt8 4)
  | wait
  | restart
  deriving DecidableEq, Repr

namespace Instruction

def opcode : Instruction → Opcode
  | greet => .greet
  | set _ => .set
  | add => .add
  | printFloat => .printFloat
  | printInline _ => .printInline
  | wait => .wait
  | restart => .restart

def operand : Instruction → List UInt8
  | set value => [value]
  | printInline operand => operand.toList
  | greet | add | printFloat | wait | restart => []

/-- The bytes of the instruction: the opcode, then the operand in its order. -/
def encode (i : Instruction) : List UInt8 := i.opcode.byte :: i.operand

/-- The number of bytes of the instruction. -/
def width (i : Instruction) : Nat := 1 + i.opcode.operandWidth

theorem width_pos (i : Instruction) : 0 < i.width := by unfold width; omega

@[simp] theorem length_operand (i : Instruction) : i.operand.length = i.opcode.operandWidth := by
  cases i <;> simp [operand, opcode, Opcode.operandWidth]

@[simp] theorem length_encode (i : Instruction) : i.encode.length = i.width := by
  simp [encode, width, Nat.add_comm]

/-- Opcode and operand together determine the instruction. -/
theorem encode_injective {i j : Instruction} (h : i.encode = j.encode) : i = j := by
  simp only [encode, List.cons.injEq] at h
  have hop : i.opcode = j.opcode := Opcode.byte_inj.1 h.1
  cases i <;> cases j <;> simp_all [opcode, operand, Vector.toList_inj]

end Instruction

end TickMachine
