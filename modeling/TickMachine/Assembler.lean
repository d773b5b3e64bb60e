import TickMachine.Program
import TickMachine.Binary.Basic

/-!
# The assembler

A program is assembled from statements. A statement stands for a run of bytes; most stand for one
instruction. `toList_assemble` states that the program is their concatenation.
-/

namespace TickMachine

inductive Statement where
  | greet
  | set (value : UInt8)
  | add
  | printFloat
  /-- Pushes the bytes of a number so that `printFloat` prints it. -/
  | pushFloat (value : Binary32)
  | printInline (operand : Vector UInt8 4)
  | wait
  | restart
  /-- Bytes as they are. -/
  | raw (bytes : List UInt8)
  deriving DecidableEq, Repr

namespace Statement

/-- The instructions that a statement stands for; raw bytes stand for none. -/
def instructions? : Statement → Option (List Instruction)
  | greet => some [.greet]
  | set value => some [.set value]
  | add => some [.add]
  | printFloat => some [.printFloat]
  | pushFloat value => some (value.bytes.toList.map .set)
  | printInline operand => some [.printInline operand]
  | wait => some [.wait]
  | restart => some [.restart]
  | raw _ => none

def encode (s : Statement) : List UInt8 :=
  match s with
  | raw bytes => bytes
  | s => (s.instructions?.getD []).flatMap Instruction.encode

end Statement

/-- A program under construction. -/
structure Assembler where
  bytes : Array UInt8
  deriving DecidableEq, Repr

namespace Assembler

def empty : Assembler := ⟨#[]⟩

/-- Adds the bytes of a statement at the end. -/
def emit (a : Assembler) (s : Statement) : Assembler := ⟨a.bytes ++ s.encode⟩

def size (a : Assembler) : Nat := a.bytes.size

def finish (a : Assembler) : Program := ⟨a.bytes⟩

/-- The program that the statements make up. -/
def assemble (ss : List Statement) : Program := (ss.foldl emit empty).finish

theorem toList_foldl_emit (a : Assembler) (ss : List Statement) :
    (ss.foldl emit a).finish.toList = a.bytes.toList ++ ss.flatMap Statement.encode := by
  induction ss generalizing a with
  | nil => simp [finish, Program.toList]
  | cons s ss ih => simp [ih, emit]

@[simp] theorem toList_assemble (ss : List Statement) :
    (assemble ss).toList = ss.flatMap Statement.encode :=
  toList_foldl_emit empty ss

/-- The number that the demonstration prints: 1234567. -/
def demoFloat : Binary32 := .ofPattern 0x4996b438

/-- Greets, adds two and one, prints a number in both ways, waits for the sum and starts over. -/
def demo : Program :=
  assemble [.greet, .set 2, .set 1, .add, .pushFloat demoFloat, .printFloat,
    .printInline demoFloat.bytes, .wait, .restart]

end Assembler

end TickMachine
