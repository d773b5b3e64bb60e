import TickMachine.Proofs.Decode

/-!
# Listings

A listing is a program taken apart from its first byte on: instructions and bytes that are no
opcode, in a row, and at the end perhaps an opcode that lacks some of its operand.

Listings and lists of bytes correspond one to one (`encode_eq_iff`), so a program has one listing.
At the positions that the items begin at, `Program.decode` finds these items (`decode_position`).
-/

namespace TickMachine

inductive Item where
  /-- A byte that is no opcode. -/
  | unknown (byte : UInt8) (h : Opcode.ofByte? byte = none)
  | instruction (i : Instruction)

/-- An opcode with less than its operand. -/
structure Stump where
  op : Opcode
  operand : List UInt8
  short : operand.length < op.operandWidth

structure Listing where
  items : List Item
  stump : Option Stump

namespace Item

def encode : Item → List UInt8
  | unknown byte _ => [byte]
  | instruction i => i.encode

/-- What decoding finds where the item begins. -/
def decoded : Item → Decoded
  | unknown byte _ => .unknown byte
  | instruction i => .instruction i

/-- The number of bytes of the item. -/
def width (item : Item) : Nat := item.encode.length

end Item

/-- Only two opcodes have an operand to lack. -/
theorem Stump.op_eq (s : Stump) : s.op = .set ∨ s.op = .printInline := by
  have := s.short
  cases h : s.op <;> simp [h, Opcode.operandWidth] at this ⊢

def Stump.encode (s : Stump) : List UInt8 := s.op.byte :: s.operand

/-! ## Reading an operand -/

namespace Instruction

/-- Reads the operand of an opcode off the front of the bytes, if they reach. -/
def read? : Opcode → List UInt8 → Option (Instruction × List UInt8)
  | .greet, bs => some (greet, bs)
  | .set, v :: bs => some (set v, bs)
  | .add, bs => some (add, bs)
  | .printFloat, bs => some (printFloat, bs)
  | .printInline, b0 :: b1 :: b2 :: b3 :: bs => some (printInline #v[b0, b1, b2, b3], bs)
  | .wait, bs => some (wait, bs)
  | .restart, bs => some (restart, bs)
  | _, _ => none

theorem read?_operand (i : Instruction) (bs : List UInt8) :
    read? i.opcode (i.operand ++ bs) = some (i, bs) := by
  cases i with
  | printInline operand =>
    match operand with
    | ⟨⟨[_, _, _, _]⟩, _⟩ => rfl
  | _ => rfl

theorem eq_operand_of_read? {op : Opcode} {i : Instruction} {bs rest : List UInt8}
    (h : read? op bs = some (i, rest)) : i.opcode = op ∧ bs = i.operand ++ rest := by
  unfold read? at h
  split at h <;> cases h <;> exact ⟨rfl, rfl⟩

theorem read?_eq_none_iff {op : Opcode} {bs : List UInt8} :
    read? op bs = none ↔ bs.length < op.operandWidth := by
  cases op with
  | set => cases bs <;> simp [read?, Opcode.operandWidth]
  | printInline =>
    rcases bs with _ | ⟨b0, _ | ⟨b1, _ | ⟨b2, _ | ⟨b3, bs⟩⟩⟩⟩ <;>
      simp only [read?, Opcode.operandWidth, List.length_cons, List.length_nil, reduceCtorEq,
        false_iff, true_iff] <;> omega
  | _ => simp [read?, Opcode.operandWidth]

end Instruction

/-! ## Taking apart -/

namespace Listing

def cons (item : Item) (l : Listing) : Listing := { l with items := item :: l.items }

/-- The bytes of the listing. -/
def encode (l : Listing) : List UInt8 :=
  l.items.flatMap Item.encode ++ (l.stump.map Stump.encode).getD []

/-- Takes bytes apart, from the first on. -/
def ofBytes (bs : List UInt8) : Listing :=
  match bs with
  | [] => ⟨[], none⟩
  | b :: bs =>
    match ho : Opcode.ofByte? b with
    | none => (ofBytes bs).cons (.unknown b ho)
    | some op =>
      match hr : Instruction.read? op bs with
      | some (i, rest) => (ofBytes rest).cons (.instruction i)
      | none => ⟨[], some ⟨op, bs, Instruction.read?_eq_none_iff.1 hr⟩⟩
termination_by bs.length
decreasing_by
  · exact Nat.lt_succ_self _
  · obtain ⟨-, rfl⟩ := Instruction.eq_operand_of_read? hr
    rw [List.length_cons, List.length_append]
    omega

@[simp] theorem encode_cons (item : Item) (l : Listing) :
    (l.cons item).encode = item.encode ++ l.encode := by
  simp [encode, cons]

theorem ofBytes_nil : ofBytes [] = ⟨[], none⟩ := by rw [ofBytes]

theorem ofBytes_item (item : Item) (bs : List UInt8) :
    ofBytes (item.encode ++ bs) = (ofBytes bs).cons item := by
  cases item with
  | unknown b h =>
    rw [Item.encode, List.singleton_append, ofBytes]
    split
    · rfl
    · next op ho => rw [h] at ho; cases ho
  | instruction i =>
    rw [Item.encode, Instruction.encode, List.cons_append, ofBytes]
    split
    · next ho => rw [Opcode.ofByte?_byte] at ho; cases ho
    · next op ho =>
      rw [Opcode.ofByte?_byte] at ho
      cases ho
      split
      · next j rest hr =>
        rw [Instruction.read?_operand] at hr
        cases hr
        rfl
      · next hr => rw [Instruction.read?_operand] at hr; cases hr

theorem ofBytes_stump (s : Stump) : ofBytes s.encode = ⟨[], some s⟩ := by
  rw [Stump.encode, ofBytes]
  split
  · next ho => rw [Opcode.ofByte?_byte] at ho; cases ho
  · next op ho =>
    rw [Opcode.ofByte?_byte] at ho
    cases ho
    split
    · next i rest hr => rw [Instruction.read?_eq_none_iff.2 s.short] at hr; cases hr
    · rfl

theorem encode_ofBytes (bs : List UInt8) : (ofBytes bs).encode = bs := by
  fun_induction ofBytes bs with
  | case1 => rfl
  | case2 b bs ho ih => rw [encode_cons, ih]; rfl
  | case3 b bs op ho i rest hr ih =>
    obtain ⟨rfl, rfl⟩ := Instruction.eq_operand_of_read? hr
    rw [encode_cons, ih, ← Opcode.ofByte?_eq_some_iff.1 ho]
    rfl
  | case4 b bs op ho hr =>
    rw [← Opcode.ofByte?_eq_some_iff.1 ho]
    rfl

theorem ofBytes_encode (l : Listing) : ofBytes l.encode = l := by
  obtain ⟨items, stump⟩ := l
  induction items with
  | nil =>
    cases stump with
    | none => exact ofBytes_nil
    | some s => exact ofBytes_stump s
  | cons item items ih =>
    calc ofBytes (cons item ⟨items, stump⟩).encode
        = ofBytes (item.encode ++ (⟨items, stump⟩ : Listing).encode) := by rw [encode_cons]
      _ = cons item ⟨items, stump⟩ := by rw [ofBytes_item, ih]

/-- Bytes have one listing. -/
theorem encode_eq_iff {l : Listing} {bs : List UInt8} : l.encode = bs ↔ l = ofBytes bs := by
  constructor
  · rintro rfl
    exact (ofBytes_encode l).symm
  · rintro rfl
    exact encode_ofBytes bs

/-! ## Positions -/

/-- Where the item of an index begins; behind the items positions go on byte by byte. -/
def position (l : Listing) (k : Nat) : Nat :=
  ((l.items.take k).flatMap Item.encode).length + (k - l.items.length)

/-- Whether an item begins there, or the last one ends. -/
def IsBoundary (l : Listing) (pos : Nat) : Prop := ∃ k ≤ l.items.length, pos = l.position k

/-- What decoding finds at the position of an index. -/
def decoded (l : Listing) (k : Nat) : Decoded :=
  match l.items[k]? with
  | some item => item.decoded
  | none =>
    match l.stump with
    | some s => .truncated s.op
    | none => .ended

variable {l : Listing} {k : Nat} {item : Item}

@[simp] theorem position_zero (l : Listing) : l.position 0 = 0 := by simp [position]

theorem position_succ (h : l.items[k]? = some item) :
    l.position (k + 1) = l.position k + item.width := by
  obtain ⟨hk, -⟩ := List.getElem?_eq_some_iff.1 h
  have hbytes : (l.items.take (k + 1)).flatMap Item.encode =
      (l.items.take k).flatMap Item.encode ++ item.encode := by
    rw [List.take_add_one, h, List.flatMap_append]
    exact congrArg _ (List.append_nil _)
  rw [position, position, hbytes, List.length_append, Item.width]
  omega

theorem position_succ_length (l : Listing) :
    l.position (l.items.length + 1) = l.position l.items.length + 1 := by
  rw [position, position, List.take_of_length_le (Nat.le_succ _), List.take_length]
  omega

/-- From the position of an index on stand the bytes of the items from there on. -/
theorem drop_position (hk : k ≤ l.items.length) :
    l.encode.drop (l.position k) = encode ⟨l.items.drop k, l.stump⟩ := by
  have hlen : l.position k = ((l.items.take k).flatMap Item.encode).length := by
    rw [position, Nat.sub_eq_zero_of_le hk, Nat.add_zero]
  have hsplit : l.encode =
      (l.items.take k).flatMap Item.encode ++ encode ⟨l.items.drop k, l.stump⟩ := by
    rw [encode, encode, ← List.append_assoc, ← List.flatMap_append, List.take_append_drop]
  rw [hsplit, hlen, List.drop_left]

theorem decoded_eq_unknown {b : UInt8} (h : l.decoded k = .unknown b) :
    ∃ ho, l.items[k]? = some (.unknown b ho) := by
  unfold decoded at h
  split at h
  · next item hi =>
    cases item <;> cases h
    exact ⟨_, hi⟩
  · split at h <;> cases h

theorem decoded_eq_instruction {i : Instruction} (h : l.decoded k = .instruction i) :
    l.items[k]? = some (.instruction i) := by
  unfold decoded at h
  split at h
  · next item hi =>
    cases item <;> cases h
    exact hi
  · split at h <;> cases h

theorem decoded_eq_truncated {op : Opcode} (h : l.decoded k = .truncated op) :
    l.items[k]? = none ∧ ∃ s, l.stump = some s ∧ s.op = op := by
  unfold decoded at h
  split at h
  · next item _ => cases item <;> cases h
  · next hi =>
    split at h
    · next s hs =>
      cases h
      exact ⟨hi, s, hs, rfl⟩
    · cases h

theorem decoded_eq_ended_iff : l.decoded k = .ended ↔ l.items[k]? = none ∧ l.stump = none := by
  unfold decoded
  split
  · next item hi => cases item <;> simp [Item.decoded, hi]
  · next hi => split <;> simp_all

end Listing

/-- The listing of a program. -/
def Program.listing (p : Program) : Listing := .ofBytes p.toList

@[simp] theorem Program.encode_listing (p : Program) : p.listing.encode = p.toList :=
  Listing.encode_ofBytes p.toList

/-- **Alignment.** At the position of an item, and behind the last one, decoding finds what the
listing has there. -/
theorem Program.decode_position (p : Program) {k : Nat} (hk : k ≤ p.listing.items.length) :
    p.decode (p.listing.position k) = p.listing.decoded k := by
  have hdrop := Listing.drop_position hk
  rw [encode_listing] at hdrop
  rw [Listing.decoded]
  cases hi : p.listing.items[k]? with
  | some item =>
    obtain ⟨hlt, hitem⟩ := List.getElem?_eq_some_iff.1 hi
    rw [List.drop_eq_getElem_cons hlt, hitem] at hdrop
    have hdrop := hdrop.trans (Listing.encode_cons item ⟨_, _⟩)
    cases item with
    | unknown b ho =>
      exact decode_eq_unknown_iff.2 ⟨fetch?_eq_some_iff.2 ⟨_, hdrop⟩, ho⟩
    | instruction i => exact decode_eq_instruction_iff.2 ⟨_, hdrop.symm⟩
  | none =>
    rw [List.drop_eq_nil_of_le (List.getElem?_eq_none_iff.1 hi)] at hdrop
    have hlen := congrArg List.length hdrop
    rw [List.length_drop, length_toList] at hlen
    cases hs : p.listing.stump with
    | none =>
      rw [hs] at hlen
      exact decode_eq_ended_iff.2 (Nat.sub_eq_zero_iff_le.1 hlen)
    | some s =>
      rw [hs] at hdrop hlen
      have hlen : p.size - p.listing.position k = s.operand.length + 1 := hlen
      have hshort := s.short
      exact decode_eq_truncated_iff.2 ⟨fetch?_eq_some_iff.2 ⟨_, hdrop⟩, by omega, by omega⟩

/-! ## Listings from a position on -/

namespace Program

/-- The listing of the bytes from a position on. -/
def listingFrom (p : Program) (pos : Nat) : Listing := .ofBytes (p.toList.drop pos)

variable {p : Program} {pos : Nat}

theorem listingFrom_of_ended (h : p.decode pos = .ended) : p.listingFrom pos = ⟨[], none⟩ := by
  have hle : p.toList.length ≤ pos := by
    rw [length_toList]
    exact decode_eq_ended_iff.1 h
  rw [listingFrom, List.drop_eq_nil_of_le hle, Listing.ofBytes_nil]

theorem listingFrom_of_unknown {b : UInt8} (h : p.decode pos = .unknown b) :
    ∃ ho, p.listingFrom pos = (p.listingFrom (pos + 1)).cons (.unknown b ho) := by
  obtain ⟨hf, ho⟩ := decode_eq_unknown_iff.1 h
  obtain ⟨bs, hbs⟩ := fetch?_eq_some_iff.1 hf
  have hrest : p.toList.drop (pos + 1) = bs := by rw [← List.drop_drop, hbs]; rfl
  refine ⟨ho, ?_⟩
  rw [listingFrom, listingFrom, hrest, hbs]
  exact Listing.ofBytes_item (.unknown b ho) bs

theorem listingFrom_of_instruction {i : Instruction} (h : p.decode pos = .instruction i) :
    p.listingFrom pos = (p.listingFrom (pos + i.width)).cons (.instruction i) := by
  obtain ⟨bs, hbs⟩ := decode_eq_instruction_iff.1 h
  have hrest : p.toList.drop (pos + i.width) = bs := by
    rw [← List.drop_drop, ← hbs, ← i.length_encode, List.drop_left]
  rw [listingFrom, listingFrom, hrest, ← hbs]
  exact Listing.ofBytes_item (.instruction i) bs

theorem listingFrom_of_truncated {op : Opcode} (h : p.decode pos = .truncated op) :
    ∃ s : Stump, s.op = op ∧ p.listingFrom pos = ⟨[], some s⟩ := by
  obtain ⟨hf, _, hlt⟩ := decode_eq_truncated_iff.1 h
  obtain ⟨bs, hbs⟩ := fetch?_eq_some_iff.1 hf
  have hlen := congrArg List.length hbs
  rw [List.length_drop, length_toList, List.length_cons] at hlen
  let s : Stump := ⟨op, bs, by omega⟩
  refine ⟨s, rfl, ?_⟩
  rw [listingFrom, hbs]
  exact Listing.ofBytes_stump s

end Program

end TickMachine
