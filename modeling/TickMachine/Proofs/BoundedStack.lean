import TickMachine.Stack

/-!
# The stack as a bounded list

A stack is a row of slots and a count of those that are occupied. To its operations it is a list of
bytes that has room for as many as there are slots: they answer as those of the list do, and leave the
bytes that it does (`perform_eq_onBytes`, `replies_eq_repliesOfBytes`). The slots behind the occupied
ones still hold bytes that were popped, and no answer depends on them.

A `Stack` never counts more slots than it has. A `Row` may, and an operation on it can miss the slot
that it asks for. `replies?_row` states that from a stack on none does.
-/

namespace TickMachine.Stack

inductive Operation where
  | push (value : UInt8)
  | pop
  | require (needed : Nat)
  | clear
  deriving DecidableEq, Repr

/-- What an operation answers: the byte that a pop takes, nothing else otherwise, or a fault. -/
abbrev Answer := Except Fault (Option UInt8)

/-! ## Operations on a list of bytes -/

/-- The answer, and the bytes after the operation. -/
def Operation.onBytes (xs : List UInt8) : Operation → Answer × List UInt8
  | push value =>
    if xs.length = stackCapacity then (.error (.stackOverflow stackCapacity), xs)
    else (.ok none, xs ++ [value])
  | pop =>
    match xs.getLast? with
    | some value => (.ok (some value), xs.dropLast)
    | none => (.error (.stackUnderflow 1 0), xs)
  | require needed =>
    if xs.length < needed then (.error (.stackUnderflow needed xs.length), xs) else (.ok none, xs)
  | clear => (.ok none, [])

/-- The answers to operations one after the other, each with the bytes after it. -/
def repliesOfBytes (xs : List UInt8) : List Operation → List (Answer × List UInt8)
  | [] => []
  | o :: os => o.onBytes xs :: repliesOfBytes (o.onBytes xs).2 os

/-! ## Operations on a stack -/

def Operation.action : Operation → StackM (Option UInt8)
  | push value => do
    Stack.push value
    return none
  | pop => do
    let value ← Stack.pop
    return some value
  | require needed => do
    Stack.require needed
    return none
  | clear => do
    Stack.clear
    return none

/-- The answer, and the stack after the operation, be it one that failed. -/
def perform (s : Stack) (o : Operation) : Answer × Stack :=
  match o.action s with
  | .ok answer t => (.ok answer, t)
  | .error fault t => (.error fault, t)

/-- The answers to operations one after the other, each with the occupied slots after it. -/
def replies (s : Stack) : List Operation → List (Answer × List UInt8)
  | [] => []
  | o :: os => ((s.perform o).1, (s.perform o).2.toList) :: (s.perform o).2.replies os

variable {s t : Stack} {o : Operation} {os : List Operation} {fault : Fault}

theorem perform_of_ok {answer : Option UInt8} (h : o.action s = .ok answer t) :
    s.perform o = (.ok answer, t) := by
  unfold perform
  rw [h]

theorem perform_of_error (h : o.action s = .error fault t) : s.perform o = (.error fault, t) := by
  unfold perform
  rw [h]

/-- An operation succeeds or fails as it does on a list; if it fails, it leaves the stack. -/
theorem perform_cases (s : Stack) (o : Operation) :
    (∃ answer t, s.perform o = (.ok answer, t) ∧ o.onBytes s.toList = (.ok answer, t.toList)) ∨
      ∃ fault, s.perform o = (.error fault, s) ∧ o.onBytes s.toList = (.error fault, s.toList) := by
  have hle := s.size_le
  have hlen := s.length_toList
  cases o with
  | push value =>
    by_cases h : s.size < stackCapacity
    · obtain ⟨t, ht, hl⟩ := push_eq_ok (v := value) h
      refine .inl ⟨none, t, perform_of_ok (StackM.bind_eq_of_ok ht), ?_⟩
      rw [Operation.onBytes, if_neg (by omega), hl]
    · refine .inr ⟨_, perform_of_error (StackM.bind_eq_of_error (push_eq_error (by omega))), ?_⟩
      rw [Operation.onBytes, if_pos (by omega)]
  | pop =>
    rcases List.eq_nil_or_concat s.toList with hnil | ⟨xs, value, hxs⟩
    · refine .inr ⟨_, perform_of_error (StackM.bind_eq_of_error (pop_eq_error hnil)), ?_⟩
      rw [hnil]
      rfl
    · rw [List.concat_eq_append] at hxs
      obtain ⟨t, ht, hl⟩ := pop_eq_ok hxs
      refine .inl ⟨some value, t, perform_of_ok (StackM.bind_eq_of_ok ht), ?_⟩
      rw [hl, hxs]
      simp [Operation.onBytes]
  | require needed =>
    by_cases h : s.size < needed
    · refine .inr ⟨_, perform_of_error (StackM.bind_eq_of_error (require_eq_error h)), ?_⟩
      rw [Operation.onBytes, if_pos (by omega), hlen]
    · have hok := require_eq_ok (Nat.le_of_not_lt h)
      refine .inl ⟨none, s, perform_of_ok (StackM.bind_eq_of_ok hok), ?_⟩
      rw [Operation.onBytes, if_neg (by omega)]
  | clear => exact .inl ⟨none, empty, rfl, rfl⟩

theorem perform_eq_onBytes (s : Stack) (o : Operation) :
    ((s.perform o).1, (s.perform o).2.toList) = o.onBytes s.toList := by
  rcases s.perform_cases o with ⟨answer, t, hp, hb⟩ | ⟨fault, hp, hb⟩
  · rw [hp, hb]
  · rw [hp, hb]

theorem eq_of_perform_eq_error (h : (s.perform o).1 = .error fault) : (s.perform o).2 = s := by
  rcases s.perform_cases o with ⟨answer, t, hp, -⟩ | ⟨fault', hp, -⟩
  · rw [hp] at h
    cases h
  · rw [hp]

theorem replies_eq_repliesOfBytes (s : Stack) (os : List Operation) :
    s.replies os = repliesOfBytes s.toList os := by
  induction os generalizing s with
  | nil => rfl
  | cons o os ih => rw [replies, ih, repliesOfBytes, ← perform_eq_onBytes]

/-- The occupied slots are all that `toList` shows. -/
theorem toList_eq_of_occupied (hsize : s.size = t.size)
    (hslots : ∀ k < s.size, s.slots[k]? = t.slots[k]?) : s.toList = t.toList := by
  unfold toList
  apply List.ext_getElem?
  intro k
  rw [List.getElem?_take, List.getElem?_take, ← hsize]
  split
  · next hk => simpa using hslots k hk
  · rfl

/-! ## Operations on a row -/

/-- Slots with a count that nothing ties to them. -/
structure Row where
  slots : Vector UInt8 stackCapacity
  size : Nat
  deriving DecidableEq, Repr

def row (s : Stack) : Row := ⟨s.slots, s.size⟩

namespace Row

/-- The bytes in the counted slots, if there are so many slots. -/
def occupied? (r : Row) : Option (List UInt8) :=
  if r.size ≤ stackCapacity then some (r.slots.toList.take r.size) else none

/-- The answer, and the row after the operation, unless it takes a byte from a slot that there is
not. A push looks whether its slot is there, and fails if not. -/
def perform? (r : Row) : Operation → Option (Answer × Row)
  | .push value =>
    if h : r.size < stackCapacity then some (.ok none, ⟨r.slots.set r.size value h, r.size + 1⟩)
    else some (.error (.stackOverflow stackCapacity), r)
  | .pop =>
    if r.size < 1 then some (.error (.stackUnderflow 1 r.size), r)
    else do
      let value ← r.slots[r.size - 1]?
      return (.ok (some value), ⟨r.slots, r.size - 1⟩)
  | .require needed =>
    if r.size < needed then some (.error (.stackUnderflow needed r.size), r)
    else some (.ok none, r)
  | .clear => some (.ok none, empty.row)

/-- The answers to operations one after the other, each with the bytes in the counted slots after it,
unless a slot is missing. -/
def replies? (r : Row) : List Operation → Option (List (Answer × List UInt8))
  | [] => some []
  | o :: os => do
    let (answer, next) ← r.perform? o
    let bytes ← next.occupied?
    let rest ← next.replies? os
    return (answer, bytes) :: rest

end Row

theorem occupied?_row (s : Stack) : s.row.occupied? = some s.toList := if_pos s.size_le

/-- Each slot that an operation on a stack asks for is there. -/
theorem perform?_row (s : Stack) (o : Operation) :
    s.row.perform? o = some ((s.perform o).1, (s.perform o).2.row) := by
  have hle := s.size_le
  cases o with
  | push value =>
    by_cases h : s.size < stackCapacity
    · have hpush : Stack.push value s = .ok () ⟨s.slots.set s.size value h, s.size + 1, h⟩ :=
        dif_pos h
      rw [perform_of_ok (StackM.bind_eq_of_ok hpush)]
      exact dif_pos h
    · have hpush : Stack.push value s = .error (.stackOverflow stackCapacity) s := dif_neg h
      rw [perform_of_error (StackM.bind_eq_of_error hpush)]
      exact dif_neg h
  | pop =>
    by_cases h : 0 < s.size
    · have hpop : Stack.pop s = .ok s.slots[s.size - 1] ⟨s.slots, s.size - 1, by omega⟩ :=
        dif_pos h
      have hslot : s.slots[s.size - 1]? = some s.slots[s.size - 1] := by simp
      have hcount : ¬ s.row.size < 1 := Nat.not_lt.2 h
      rw [perform_of_ok (StackM.bind_eq_of_ok hpop), Row.perform?, if_neg hcount]
      exact Option.bind_eq_some_iff.2 ⟨_, hslot, rfl⟩
    · have hpop : Stack.pop s = .error (.stackUnderflow 1 s.size) s := dif_neg h
      rw [perform_of_error (StackM.bind_eq_of_error hpop)]
      exact if_pos (Nat.lt_of_not_le h)
  | require needed =>
    by_cases h : s.size < needed
    · rw [perform_of_error (StackM.bind_eq_of_error (require_eq_error h))]
      exact if_pos h
    · rw [perform_of_ok (StackM.bind_eq_of_ok (require_eq_ok (Nat.le_of_not_lt h)))]
      exact if_neg h
  | clear => rfl

/-- No operation misses a slot, and the slots that are counted always exist. -/
theorem replies?_row (s : Stack) (os : List Operation) :
    s.row.replies? os = some (s.replies os) := by
  induction os generalizing s with
  | nil => rfl
  | cons o os ih =>
    rw [Row.replies?, perform?_row, Option.bind_eq_bind, Option.bind_some]
    dsimp only
    rw [occupied?_row, Option.bind_eq_bind, Option.bind_some, ih]
    rfl

-- A row that counts more slots than it has does miss one.
example : (⟨empty.slots, 130⟩ : Row).replies? [.pop] = none := by decide

/-- **Bounded last in, first out.** From an empty stack on, operations answer one after the other as
those of a list with room for 128 bytes, and the occupied slots are that list after each. No operation
misses a slot. One that fails leaves size and slots as they were. Stacks that have the same bytes in
their occupied slots answer alike ever after, whatever stands in the others. -/
theorem bounded_lifo :
    (∀ os, empty.replies os = repliesOfBytes [] os) ∧
      (∀ os, empty.row.replies? os = some (repliesOfBytes [] os)) ∧
      (∀ (s : Stack) (o : Operation) (fault : Fault),
        (s.perform o).1 = .error fault → (s.perform o).2 = s) ∧
      ∀ s t : Stack, s.size = t.size → (∀ k < s.size, s.slots[k]? = t.slots[k]?) →
        ∀ os, s.replies os = t.replies os := by
  refine ⟨empty.replies_eq_repliesOfBytes, ?_, ?_, ?_⟩
  · intro os
    rw [replies?_row, replies_eq_repliesOfBytes, toList_empty]
  · intro s o fault h
    exact eq_of_perform_eq_error h
  · intro s t hsize hslots os
    rw [replies_eq_repliesOfBytes, replies_eq_repliesOfBytes, toList_eq_of_occupied hsize hslots]

end TickMachine.Stack
