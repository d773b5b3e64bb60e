import TickMachine.Proofs.Listing

/-!
# Programs without strays

A stray is a byte of a listing that is no opcode and no operand. `Program.tidy` takes the strays out;
`Program.shift` is where a position of the program goes to, the strays before it being gone.

What is left is taken apart as before (`listing_tidy`): the strays did not hold the other bytes
together. So at the position that an item goes to, the same is decoded (`decode_tidy`), and the
positions behind it go along.
-/

namespace TickMachine

namespace Item

def isStray : Item → Bool
  | unknown _ _ => true
  | instruction _ => false

/-- For each byte of the item, whether it is a stray. -/
def marks : Item → List Bool
  | unknown _ _ => [true]
  | instruction i => .replicate i.width false

@[simp] theorem length_marks (item : Item) : item.marks.length = item.width := by
  cases item with
  | unknown b ho => rfl
  | instruction i => rw [marks, List.length_replicate, width, encode, Instruction.length_encode]

theorem count_marks (item : Item) : item.marks.count true = if item.isStray then 1 else 0 := by
  cases item with
  | unknown b ho => rfl
  | instruction i => simp [marks, isStray, List.count_replicate]

end Item

namespace Listing

/-- The listing without its strays. -/
def tidy (l : Listing) : Listing := { l with items := l.items.filter (!·.isStray) }

/-- The number of strays before a position. -/
def straysBefore (l : Listing) (pos : Nat) : Nat :=
  ((l.items.flatMap Item.marks).take pos).count true

/-- The number of items before an index that are no strays. -/
def kept (l : Listing) (k : Nat) : Nat := ((l.items.take k).filter (!·.isStray)).length

variable {l : Listing} {k pos : Nat} {item : Item}

theorem straysBefore_le (l : Listing) (pos : Nat) : l.straysBefore pos ≤ pos :=
  Nat.le_trans List.count_le_length (List.length_take_le _ _)

theorem length_flatMap_marks (items : List Item) :
    (items.flatMap Item.marks).length = (items.flatMap Item.encode).length := by
  simp only [List.length_flatMap, Item.length_marks, Item.width]

theorem count_flatMap_marks (items : List Item) :
    (items.flatMap Item.marks).count true = items.countP Item.isStray := by
  induction items with
  | nil => rfl
  | cons item items ih =>
    rw [List.flatMap_cons, List.count_append, Item.count_marks, ih, List.countP_cons, Nat.add_comm]

/-- Taking the strays out makes the bytes fewer by as many. -/
theorem length_flatMap_filter (items : List Item) :
    ((items.filter (!·.isStray)).flatMap Item.encode).length + items.countP Item.isStray =
      (items.flatMap Item.encode).length := by
  induction items with
  | nil => rfl
  | cons item items ih =>
    rw [List.flatMap_cons, List.length_append, ← ih]
    cases item with
    | unknown b ho =>
      rw [List.countP_cons_of_pos rfl, List.filter_cons_of_neg (by simp [Item.isStray])]
      show _ = 1 + _
      omega
    | instruction i =>
      rw [List.countP_cons_of_neg (by simp [Item.isStray]), List.filter_cons_of_pos rfl,
        List.flatMap_cons, List.length_append, Nat.add_assoc]

/-! ## Indices -/

theorem items_tidy (l : Listing) (k : Nat) : l.tidy.items =
    (l.items.take k).filter (!·.isStray) ++ (l.items.drop k).filter (!·.isStray) := by
  rw [← List.filter_append, List.take_append_drop]
  rfl

theorem take_tidy (l : Listing) (k : Nat) :
    l.tidy.items.take (l.kept k) = (l.items.take k).filter (!·.isStray) := by
  rw [l.items_tidy k, kept, List.take_left]

theorem kept_le (l : Listing) (k : Nat) : l.kept k ≤ l.tidy.items.length :=
  ((List.take_sublist k l.items).filter _).length_le

theorem getElem?_tidy (l : Listing) (k : Nat) :
    l.tidy.items[l.kept k]? = ((l.items.drop k).filter (!·.isStray))[0]? := by
  rw [l.items_tidy k, kept, List.getElem?_append_right (Nat.le_refl _), Nat.sub_self]

/-- What is no stray is decoded as before. -/
theorem decoded_tidy (h : ∀ b, l.decoded k ≠ .unknown b) :
    l.tidy.decoded (l.kept k) = l.decoded k := by
  have htidy := l.getElem?_tidy k
  cases hi : l.items[k]? with
  | none =>
    rw [List.drop_eq_nil_of_le (List.getElem?_eq_none_iff.1 hi)] at htidy
    rw [decoded, decoded, htidy, hi]
    rfl
  | some item =>
    obtain ⟨hlt, hitem⟩ := List.getElem?_eq_some_iff.1 hi
    rw [List.drop_eq_getElem_cons hlt, hitem] at htidy
    cases item with
    | unknown b ho => exact absurd (by rw [decoded, hi]; rfl) (h b)
    | instruction i =>
      rw [List.filter_cons_of_pos rfl, List.getElem?_cons_zero] at htidy
      rw [decoded, decoded, htidy, hi]

/-! ## Positions -/

theorem position_of_le (hk : k ≤ l.items.length) :
    l.position k = ((l.items.take k).flatMap Item.encode).length := by
  rw [position, Nat.sub_eq_zero_of_le hk, Nat.add_zero]

theorem straysBefore_position (hk : k ≤ l.items.length) :
    l.straysBefore (l.position k) = (l.items.take k).countP Item.isStray := by
  have hsplit : l.items.flatMap Item.marks =
      (l.items.take k).flatMap Item.marks ++ (l.items.drop k).flatMap Item.marks := by
    rw [← List.flatMap_append, List.take_append_drop]
  rw [straysBefore, hsplit, position_of_le hk, ← length_flatMap_marks, List.take_left,
    count_flatMap_marks]

/-- Behind the items there are no more strays. -/
theorem straysBefore_of_le (h : l.position l.items.length ≤ pos) :
    l.straysBefore pos = l.items.countP Item.isStray := by
  rw [position_of_le (Nat.le_refl _), List.take_length, ← length_flatMap_marks] at h
  rw [straysBefore, List.take_of_length_le h, count_flatMap_marks]

theorem straysBefore_position_succ (hi : l.items[k]? = some item) :
    l.straysBefore (l.position (k + 1)) =
      l.straysBefore (l.position k) + if item.isStray then 1 else 0 := by
  have hlt : k < l.items.length := (List.getElem?_eq_some_iff.1 hi).1
  rw [straysBefore_position hlt, straysBefore_position (Nat.le_of_lt hlt), List.take_add_one, hi,
    List.countP_append, Option.toList_some, List.countP_singleton]

/-- Positions of items, less the strays before them, are positions of the items that are left. -/
theorem position_tidy (hk : k ≤ l.items.length) :
    l.tidy.position (l.kept k) + l.straysBefore (l.position k) = l.position k := by
  rw [position_of_le (l.kept_le k), take_tidy, straysBefore_position hk, position_of_le hk,
    length_flatMap_filter]

end Listing

/-! ## Programs -/

namespace Program

/-- The program without its strays. -/
def tidy (p : Program) : Program := .ofList p.listing.tidy.encode

/-- The number of strays before a position. -/
def straysBefore (p : Program) (pos : Nat) : Nat := p.listing.straysBefore pos

/-- Where a position goes to when the strays are taken out. -/
def shift (p : Program) (pos : Nat) : Nat := pos - p.straysBefore pos

variable {p : Program} {pos : Nat} {b : UInt8} {op : Opcode} {i : Instruction}

theorem shift_add_straysBefore (p : Program) (pos : Nat) :
    p.shift pos + p.straysBefore pos = pos :=
  Nat.sub_add_cancel (p.listing.straysBefore_le pos)

@[simp] theorem shift_zero (p : Program) : p.shift 0 = 0 := Nat.zero_sub _

@[simp] theorem listing_tidy (p : Program) : p.tidy.listing = p.listing.tidy :=
  Listing.ofBytes_encode p.listing.tidy

-- Of two equal bytes one is a stray, and the other one an operand, which stays.
example : (ofList [9, 1, 9, 5, 200]).tidy = ofList [1, 9, 5] := by decide +kernel

/-- The position of an item goes to its new position. -/
theorem shift_position {k : Nat} (hk : k ≤ p.listing.items.length) :
    p.shift (p.listing.position k) = p.listing.tidy.position (p.listing.kept k) :=
  Nat.sub_eq_of_eq_add (Listing.position_tidy hk).symm

theorem position_length_le (p : Program) :
    p.listing.position p.listing.items.length ≤ p.size := by
  rw [Listing.position_of_le (Nat.le_refl _), List.take_length, ← length_toList, ← p.encode_listing,
    Listing.encode, List.length_append]
  exact Nat.le_add_right _ _

theorem shift_size (p : Program) : p.shift p.size = p.tidy.size := by
  have hsize : p.tidy.size = p.listing.tidy.encode.length := by rw [← length_toList]; rfl
  have hfilter := Listing.length_flatMap_filter p.listing.items
  rw [shift, straysBefore, Listing.straysBefore_of_le p.position_length_le, hsize,
    ← length_toList, ← p.encode_listing, Listing.encode, Listing.encode, List.length_append,
    List.length_append, ← hfilter]
  show _ = ((p.listing.items.filter (!·.isStray)).flatMap Item.encode).length +
    ((p.listing.stump.map Stump.encode).getD []).length
  omega

/-- At the position that an item goes to, the same is decoded. -/
theorem decode_tidy (hb : p.listing.IsBoundary pos) (h : ∀ b, p.decode pos ≠ .unknown b) :
    p.tidy.decode (p.shift pos) = p.decode pos := by
  obtain ⟨k, hk, rfl⟩ := hb
  have hkept := p.listing.kept_le k
  rw [← listing_tidy] at hkept
  rw [shift_position hk, decode_position p hk, ← listing_tidy, decode_position p.tidy hkept,
    listing_tidy]
  refine Listing.decoded_tidy fun b => ?_
  rw [← decode_position p hk]
  exact h b

/-! ## The next position -/

/-- Behind an item the next one begins, and it goes along with an item that is no stray. -/
theorem next_of_getElem? {k : Nat} {item : Item} (hi : p.listing.items[k]? = some item) :
    p.listing.IsBoundary (p.listing.position k + item.width) ∧
      p.shift (p.listing.position k + item.width) =
        p.shift (p.listing.position k) + if item.isStray then 0 else item.width := by
  have hlt : k < p.listing.items.length := (List.getElem?_eq_some_iff.1 hi).1
  have hpos := Listing.position_succ hi
  refine ⟨⟨k + 1, hlt, hpos.symm⟩, ?_⟩
  have hk := p.shift_add_straysBefore (p.listing.position k)
  have hnext := p.shift_add_straysBefore (p.listing.position (k + 1))
  have hstrays := Listing.straysBefore_position_succ hi
  rw [straysBefore] at hk hnext
  rw [hstrays] at hnext
  rw [← hpos]
  cases item with
  | unknown b ho =>
    have hwidth : (Item.unknown b ho).width = 1 := rfl
    have hstray : (Item.unknown b ho).isStray = true := rfl
    rw [if_pos hstray] at hnext ⊢
    omega
  | instruction i =>
    have hstray : (Item.instruction i).isStray = true → False := Bool.false_ne_true
    rw [if_neg hstray] at hnext ⊢
    omega

theorem next_of_instruction (hb : p.listing.IsBoundary pos) (h : p.decode pos = .instruction i) :
    p.listing.IsBoundary (pos + i.width) ∧ p.shift (pos + i.width) = p.shift pos + i.width := by
  obtain ⟨k, hk, rfl⟩ := hb
  rw [decode_position p hk] at h
  have hnext := next_of_getElem? (Listing.decoded_eq_instruction h)
  have hwidth : (Item.instruction i).width = i.width := i.length_encode
  rwa [hwidth] at hnext

theorem next_of_unknown (hb : p.listing.IsBoundary pos) (h : p.decode pos = .unknown b) :
    p.listing.IsBoundary (pos + 1) ∧ p.shift (pos + 1) = p.shift pos := by
  obtain ⟨k, hk, rfl⟩ := hb
  rw [decode_position p hk] at h
  obtain ⟨ho, hi⟩ := Listing.decoded_eq_unknown h
  exact next_of_getElem? hi

/-- What is left of a missing operand holds no strays. -/
theorem shift_succ_of_truncated (hb : p.listing.IsBoundary pos) (h : p.decode pos = .truncated op) :
    p.shift (pos + 1) = p.shift pos + 1 := by
  obtain ⟨k, hk, rfl⟩ := hb
  rw [decode_position p hk] at h
  obtain ⟨hi, -⟩ := Listing.decoded_eq_truncated h
  obtain rfl : k = p.listing.items.length := Nat.le_antisymm hk (List.getElem?_eq_none_iff.1 hi)
  have hend := Listing.straysBefore_of_le (Nat.le_refl (p.listing.position p.listing.items.length))
  have hsucc := Listing.straysBefore_of_le (Nat.le_succ (p.listing.position p.listing.items.length))
  have hle := p.listing.straysBefore_le (p.listing.position p.listing.items.length)
  rw [shift, shift, straysBefore, straysBefore, hsucc]
  omega

end Program

end TickMachine
