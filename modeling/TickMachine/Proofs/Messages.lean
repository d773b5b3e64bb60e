import TickMachine.Fault
import TickMachine.Proofs.Reader

/-!
# Fault messages

`Fault.message_unambiguous`: a message tells which fault it is and all of its fields. `reader` reads
them back. Every field is a number that ends where other words begin or the text ends, and the byte
always has two digits.
-/

namespace TickMachine.Fault

open Reader

/-! ## Hexadecimal digits -/

/-- The value of a hexadecimal digit in lower case. -/
def hexDigit? (c : Char) : Option Nat := "0123456789abcdef".toList.idxOf? c

/-- Reads a byte in two hexadecimal digits. -/
def hexReader : Reader UInt8
  | c :: d :: cs => do
    let high ← hexDigit? c
    let low ← hexDigit? d
    return (.ofNat (high * 16 + low), cs)
  | _ => none

theorem hexDigit?_digitChar {k : Nat} (h : k < 16) : hexDigit? (Nat.digitChar k) = some k := by
  decide +revert

theorem run_hexReader_bind {α : Type} {f : UInt8 → Reader α} (byte : UInt8) (cs : List Char) :
    (hexReader >>= f).run ((hexByte byte).toList ++ cs) = (f byte).run cs := by
  have hhigh : byte.toNat / 16 < 16 := Nat.div_lt_of_lt_mul byte.toNat_lt
  have hlow : byte.toNat % 16 < 16 := Nat.mod_lt _ (by decide)
  apply run_bind_of_run
  rw [hexByte, String.toList_ofList]
  show (do
    let high ← hexDigit? (Nat.digitChar (byte.toNat / 16))
    let low ← hexDigit? (Nat.digitChar (byte.toNat % 16))
    return (UInt8.ofNat (high * 16 + low), cs)) = _
  rw [hexDigit?_digitChar hhigh, hexDigit?_digitChar hlow]
  show some (UInt8.ofNat (byte.toNat / 16 * 16 + byte.toNat % 16), cs) = _
  rw [Nat.div_add_mod', UInt8.ofNat_toNat]

/-- A byte has as many digits as it needs, and two at least. -/
theorem hexByte_eq (byte : UInt8) :
    hexByte byte = String.ofList ((Nat.toDigits 16 byte.toNat).leftpad 2 '0') := by
  have hbyte := byte.toNat_lt
  rw [hexByte]
  generalize byte.toNat = n at hbyte ⊢
  obtain h | h := Nat.lt_or_ge n 16
  · rw [Nat.toDigits_of_lt_base h, Nat.div_eq_of_lt h, Nat.mod_eq_of_lt h]
    rfl
  · have hdiv : n / 16 < 16 := Nat.div_lt_of_lt_mul hbyte
    rw [Nat.toDigits_of_base_le (by decide) h, Nat.toDigits_of_lt_base hdiv]
    rfl

/-! ## Messages -/

/-- The messages by the words that they begin with, and what follows those. -/
def forms : List (String × Reader Fault) :=
  [("stack overflow: all ", do
      let capacity ← number
      exactly " slots are occupied"
      return .stackOverflow capacity),
    ("stack underflow: needed ", do
      let needed ← number
      exactly " value(s) but the stack holds "
      let size ← number
      return .stackUnderflow needed size),
    ("operand of ", do
      let needed ← number
      exactly " byte(s) at "
      let pos ← number
      exactly " runs past the end of a "
      let size ← number
      exactly "-byte program"
      return .outOfRange pos needed size),
    ("unknown opcode 0x", do
      let byte ← hexReader
      exactly " at "
      let ip ← number
      return .unknownOpcode ip byte),
    ("machine is faulted, load a program to reset it", return .faulted)]

/-- Reads a message. -/
def reader : Reader Fault := oneOf forms

theorem distinct_forms : Distinct (forms.map Prod.fst) := by
  decide +kernel

theorem toList_stackOverflow (capacity : Nat) (cs : List Char) :
    (stackOverflow capacity).message.toList ++ cs = "stack overflow: all ".toList ++
      (Nat.toDigits 10 capacity ++ (" slots are occupied".toList ++ cs)) := by
  -- By `show` here and below: to derive the equations of `message` Lean runs through its words.
  show ("stack overflow: all " ++ toString capacity ++ " slots are occupied").toList ++ cs = _
  simp only [String.toList_append, toList_toString, List.append_assoc]

theorem toList_stackUnderflow (needed size : Nat) (cs : List Char) :
    (stackUnderflow needed size).message.toList ++ cs = "stack underflow: needed ".toList ++
      (Nat.toDigits 10 needed ++ (" value(s) but the stack holds ".toList ++
        (Nat.toDigits 10 size ++ cs))) := by
  show ("stack underflow: needed " ++ toString needed ++ " value(s) but the stack holds " ++
    toString size).toList ++ cs = _
  simp only [String.toList_append, toList_toString, List.append_assoc]

theorem toList_outOfRange (pos needed size : Nat) (cs : List Char) :
    (outOfRange pos needed size).message.toList ++ cs = "operand of ".toList ++
      (Nat.toDigits 10 needed ++ (" byte(s) at ".toList ++ (Nat.toDigits 10 pos ++
        (" runs past the end of a ".toList ++ (Nat.toDigits 10 size ++
          ("-byte program".toList ++ cs)))))) := by
  show ("operand of " ++ toString needed ++ " byte(s) at " ++ toString pos ++
    " runs past the end of a " ++ toString size ++ "-byte program").toList ++ cs = _
  simp only [String.toList_append, toList_toString, List.append_assoc]

theorem toList_unknownOpcode (ip : Nat) (byte : UInt8) (cs : List Char) :
    (unknownOpcode ip byte).message.toList ++ cs = "unknown opcode 0x".toList ++
      ((hexByte byte).toList ++ (" at ".toList ++ (Nat.toDigits 10 ip ++ cs))) := by
  show ("unknown opcode 0x" ++ hexByte byte ++ " at " ++ toString ip).toList ++ cs = _
  simp only [String.toList_append, toList_toString, List.append_assoc]

/-- A message is read up to what follows it, which must not prolong a number. -/
theorem run_reader (f : Fault) {cs : List Char} (h : Stops Char.isDigit cs) :
    reader.run (f.message.toList ++ cs) = some (f, cs) := by
  unfold reader
  cases f with
  | stackOverflow capacity =>
    rw [toList_stackOverflow, run_form distinct_forms 0 rfl,
      run_number_bind _ (by simp [Stops]), run_exactly_bind]
    rfl
  | stackUnderflow needed size =>
    rw [toList_stackUnderflow, run_form distinct_forms 1 rfl, run_number_bind _ (by simp [Stops]),
      run_exactly_bind, run_number_bind _ h]
    rfl
  | outOfRange pos needed size =>
    rw [toList_outOfRange, run_form distinct_forms 2 rfl,
      run_number_bind _ (by simp [Stops]), run_exactly_bind,
      run_number_bind _ (by simp [Stops]), run_exactly_bind,
      run_number_bind _ (by simp [Stops]), run_exactly_bind]
    rfl
  | unknownOpcode ip byte =>
    rw [toList_unknownOpcode, run_form distinct_forms 3 rfl, run_hexReader_bind, run_exactly_bind,
      run_number_bind _ h]
    rfl
  | faulted => exact run_form distinct_forms 4 rfl cs

theorem read?_message (f : Fault) : reader.read? f.message = some f := by
  have hrun := f.run_reader (stops_nil _)
  rw [List.append_nil] at hrun
  exact read?_of_run hrun

/-! ## The notation of the fields -/

/-- A number as its decimal digits. -/
def decimal (n : Nat) : String := String.ofList (Nat.toDigits 10 n)

/-- A byte as its hexadecimal digits in lower case, two at least. -/
def hexadecimal (byte : UInt8) : String :=
  "0x" ++ String.ofList ((Nat.toDigits 16 byte.toNat).leftpad 2 '0')

/-- A message with its fields as digits. -/
def spelling : Fault → String
  | stackOverflow capacity => "stack overflow: all " ++ decimal capacity ++ " slots are occupied"
  | stackUnderflow needed size =>
    "stack underflow: needed " ++ decimal needed ++ " value(s) but the stack holds " ++ decimal size
  | outOfRange pos needed size =>
    "operand of " ++ decimal needed ++ " byte(s) at " ++ decimal pos ++
      " runs past the end of a " ++ decimal size ++ "-byte program"
  | unknownOpcode ip byte => "unknown opcode " ++ hexadecimal byte ++ " at " ++ decimal ip
  | faulted => "machine is faulted, load a program to reset it"

theorem message_eq_spelling (f : Fault) : f.message = f.spelling := by
  cases f with
  | unknownOpcode ip byte =>
    have h : hexadecimal byte = "0x" ++ hexByte byte := by rw [hexByte_eq, hexadecimal]
    show _ = "unknown opcode " ++ hexadecimal byte ++ " at " ++ _
    rw [h, ← String.append_assoc]
    rfl
  | _ => rfl

/-- Two faults have the same message only if they are the same, and all that a fault holds is read
back from its message, where the byte stands in hexadecimal and every other field in decimal. -/
theorem message_unambiguous :
    (∀ f g : Fault, f.message = g.message ↔ f = g) ∧
    (∀ f : Fault, reader.read? f.message = some f) ∧
    ∀ f : Fault, f.message = f.spelling := by
  refine ⟨fun f g => ⟨fun h => ?_, congrArg message⟩, read?_message, message_eq_spelling⟩
  have hread : some f = some g := by rw [← read?_message f, h, read?_message g]
  exact Option.some.inj hread

end TickMachine.Fault
