import TickMachine.Fault

/-!
# The operand stack

A fixed row of byte slots, of which the first `size` are occupied. A pop leaves its byte in its
slot; `toList`, the occupied slots from the bottom up, is all that an operation can see.

An operation is a `StackM` action. It keeps the stack it has reached when it fails, so what is made
of several operations is atomic only if it asks for everything first.

`push_eq_ok` and `pop_eq_ok` state what the operations do to `toList`.
-/

namespace TickMachine

/-- The number of slots. -/
def stackCapacity : Nat := 128

structure Stack where
  slots : Vector UInt8 stackCapacity
  size : Nat
  size_le : size ≤ stackCapacity
  deriving DecidableEq, Repr

/-- Actions on a stack that may fail. -/
abbrev StackM := EStateM Fault Stack

namespace StackM

variable {α β : Type} {x : StackM α} {f : α → StackM β} {s t : Stack}

theorem bind_eq_of_ok {a : α} (h : x s = .ok a t) : (x >>= f) s = f a t := by
  show EStateM.bind x f s = _
  simp [EStateM.bind, h]

theorem bind_eq_of_error {e : Fault} (h : x s = .error e t) : (x >>= f) s = .error e t := by
  show EStateM.bind x f s = _
  simp [EStateM.bind, h]

end StackM

namespace Stack

/-- No slot is occupied, and all are zero. -/
def empty : Stack := ⟨Vector.replicate _ 0, 0, Nat.zero_le _⟩

instance : Inhabited Stack := ⟨empty⟩

/-- The occupied slots, the bottom first. -/
def toList (s : Stack) : List UInt8 := s.slots.toList.take s.size

@[simp] theorem toList_empty : empty.toList = [] := rfl

@[simp] theorem length_toList (s : Stack) : s.toList.length = s.size := by
  have := s.size_le
  simp [toList, Nat.min_eq_left this]

/-! ## Operations -/

/-- Occupies the next slot. -/
def push (value : UInt8) : StackM Unit := fun s =>
  if h : s.size < stackCapacity then .ok () ⟨s.slots.set s.size value h, s.size + 1, h⟩
  else .error (.stackOverflow stackCapacity) s

/-- Fails unless so many slots are occupied. -/
def require (needed : Nat) : StackM Unit := fun s =>
  if s.size < needed then .error (.stackUnderflow needed s.size) s else .ok () s

/-- Frees the last occupied slot. -/
def pop : StackM UInt8 := fun s =>
  if h : 0 < s.size then
    have := s.size_le
    .ok s.slots[s.size - 1] ⟨s.slots, s.size - 1, Nat.le_trans (Nat.sub_le _ _) s.size_le⟩
  else .error (.stackUnderflow 1 s.size) s

/-- Frees all slots and sets them to zero. -/
def clear : StackM Unit := fun _ => .ok () empty

/-! ## Operations through the view -/

variable {s : Stack} {v : UInt8}

theorem push_eq_ok (h : s.size < stackCapacity) :
    ∃ t, push v s = .ok () t ∧ t.toList = s.toList ++ [v] := by
  refine ⟨_, dif_pos h, ?_⟩
  simp only [toList, Vector.toList_set]
  have hs : s.size < s.slots.toList.length := by simpa using h
  rw [List.take_set, List.take_add_one, List.getElem?_eq_getElem hs, Option.toList_some,
    List.set_append_right _ _ (List.length_take_le _ _)]
  simp [Nat.min_eq_left s.size_le]

theorem push_eq_error (h : s.size = stackCapacity) :
    push v s = .error (.stackOverflow stackCapacity) s :=
  dif_neg (by omega)

theorem pop_eq_ok {xs : List UInt8} (h : s.toList = xs ++ [v]) :
    ∃ t, pop s = .ok v t ∧ t.toList = xs := by
  have hsize : s.size = xs.length + 1 := by rw [← length_toList, h]; simp
  have hle := s.size_le
  have hlt : s.size - 1 < s.slots.toList.length := by simp; omega
  have htake : s.toList = s.slots.toList.take (s.size - 1) ++ [s.slots.toList[s.size - 1]] := by
    rw [List.take_append_getElem, toList]
    congr 1
    omega
  obtain ⟨hxs, hv⟩ := List.append_inj' (h.symm.trans htake) rfl
  refine ⟨⟨s.slots, s.size - 1, by omega⟩, ?_, hxs.symm⟩
  rw [List.singleton_inj, Vector.getElem_toList] at hv
  simp only [pop, hv]
  exact dif_pos (by omega)

theorem pop_eq_ok_of_reverse {ys : List UInt8} (h : s.toList.reverse = v :: ys) :
    ∃ t, pop s = .ok v t ∧ t.toList.reverse = ys := by
  have hs : s.toList = ys.reverse ++ [v] := by rw [← List.reverse_inj]; simpa using h
  obtain ⟨t, ht, hl⟩ := pop_eq_ok hs
  exact ⟨t, ht, by simp [hl]⟩

theorem pop_eq_error (h : s.toList = []) : pop s = .error (.stackUnderflow 1 0) s := by
  have : s.size = 0 := by rw [← length_toList, h]; rfl
  simp [pop, this]

theorem require_eq_ok {needed : Nat} (h : needed ≤ s.size) : require needed s = .ok () s :=
  if_neg (by omega)

theorem require_eq_error {needed : Nat} (h : s.size < needed) :
    require needed s = .error (.stackUnderflow needed s.size) s :=
  if_pos h

end Stack

end TickMachine
