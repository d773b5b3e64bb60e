import TickMachine.Instruction

/-!
# Programs

A program is a run of bytes, instructions one after the other with nothing between them. `decode`
reads the instruction at a position; where the bytes end inside an operand it says so.

`isSome_fetchN?` states when several bytes can be read, `fetch?_of_fetchN?` that they are the single
ones.
-/

namespace TickMachine

structure Program where
  bytes : Array UInt8
  deriving DecidableEq, Repr

/-- What stands at a position of a program. -/
inductive Decoded where
  /-- The bytes end here. -/
  | ended
  /-- A byte that is no opcode. -/
  | unknown (byte : UInt8)
  /-- An opcode whose operand runs past the last byte. -/
  | truncated (op : Opcode)
  | instruction (i : Instruction)
  deriving DecidableEq, Repr

namespace Program

def empty : Program := ⟨#[]⟩

instance : Inhabited Program := ⟨empty⟩

def ofList (bytes : List UInt8) : Program := ⟨bytes.toArray⟩

def toList (p : Program) : List UInt8 := p.bytes.toList

def size (p : Program) : Nat := p.bytes.size

def isEmpty (p : Program) : Bool := p.size == 0

@[simp] theorem toList_ofList (bytes : List UInt8) : (ofList bytes).toList = bytes := rfl

@[simp] theorem ofList_toList (p : Program) : ofList p.toList = p := rfl

@[simp] theorem length_toList (p : Program) : p.toList.length = p.size := by simp [toList, size]

/-! ## Fetching -/

/-- The byte at a position, if there is one. -/
def fetch? (p : Program) (pos : Nat) : Option UInt8 := p.bytes[pos]?

/-- The `n` bytes from a position on, if there are so many. No byte at all can be read up to the
position behind the last one. -/
def fetchN? (p : Program) (n pos : Nat) : Option (Vector UInt8 n) :=
  if h : pos + n ≤ p.bytes.size then some (Vector.ofFn fun i : Fin n => p.bytes[pos + i.val])
  else none

theorem isSome_fetchN? (p : Program) (n pos : Nat) :
    (p.fetchN? n pos).isSome ↔ pos + n ≤ p.size := by
  unfold fetchN? size
  split <;> simp_all

theorem fetch?_of_fetchN? {p : Program} {n pos : Nat} {v : Vector UInt8 n}
    (h : p.fetchN? n pos = some v) (i : Nat) (hi : i < n) : p.fetch? (pos + i) = some v[i] := by
  unfold fetchN? at h
  split at h
  · cases h
    simp [fetch?]
  · cases h

/-! ## Decoding -/

/-- The instruction whose opcode is `op`, its operand read from `pos`. -/
def operandAt (p : Program) (pos : Nat) (op : Opcode) : Decoded :=
  match op with
  | .greet => .instruction .greet
  | .set =>
    match p.fetchN? 1 pos with
    | some v => .instruction (.set v[0])
    | none => .truncated .set
  | .add => .instruction .add
  | .printFloat => .instruction .printFloat
  | .printInline =>
    match p.fetchN? 4 pos with
    | some v => .instruction (.printInline v)
    | none => .truncated .printInline
  | .wait => .instruction .wait
  | .restart => .instruction .restart

/-- What stands at a position. -/
def decode (p : Program) (pos : Nat) : Decoded :=
  match p.fetch? pos with
  | none => .ended
  | some byte =>
    match Opcode.ofByte? byte with
    | none => .unknown byte
    | some op => p.operandAt (pos + 1) op

end Program

end TickMachine
