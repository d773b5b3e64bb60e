import TickMachine.Machine.Basic

/-!
# Instructions on lists of bytes

What each instruction does, said of the bytes on the stack, the bottom first.

`execute_effect` states that the slots follow: an instruction that succeeds has this effect, and one
that fails leaves the stack as it was.
-/

namespace TickMachine.Instruction

/-- The number of bytes that an instruction takes off the stack. -/
def need : Instruction → Nat
  | add => 2
  | printFloat => 4
  | wait => 1
  | greet | set _ | printInline _ | restart => 0

/-- The bytes after an instruction, and the event it reports. -/
def effect (i : Instruction) (xs : List UInt8) : Except Fault (List UInt8 × Event) :=
  match i, xs.reverse with
  | greet, _ => .ok (xs, .helloWorld)
  | set v, _ =>
    if xs.length < stackCapacity then .ok (xs ++ [v], .set v)
    else .error (.stackOverflow stackCapacity)
  | add, b :: a :: ys => .ok (ys.reverse ++ [a + b], .add a b (a + b))
  | printFloat, b3 :: b2 :: b1 :: b0 :: ys =>
    .ok (ys.reverse, .printFloat (Binary.ofBytes b0 b1 b2 b3) .stack)
  | printInline operand, _ => .ok (xs, .printFloat (Binary.ofVector operand) .operand)
  | wait, amount :: ys => .ok (ys.reverse, .wait amount)
  | restart, _ => .ok ([], .restart)
  | i, _ => .error (.stackUnderflow i.need xs.length)

open Stack StackM

/-- With fewer bytes than the instruction takes, asking for them fails at once. -/
theorem bind_require_eq_error {α : Type} {s : Stack} {needed : Nat} {f : Unit → StackM α}
    (h : s.toList.length < needed) :
    (require needed >>= f) s = .error (.stackUnderflow needed s.toList.length) s := by
  rw [length_toList] at h ⊢
  exact bind_eq_of_error (require_eq_error h)

theorem execute_effect (i : Instruction) (s : Stack) :
    match i.effect s.toList with
    | .ok (xs, e) => ∃ t, i.execute s = .ok e t ∧ t.toList = xs
    | .error fault => i.execute s = .error fault s := by
  have hlen : s.toList.reverse.length = s.toList.length := List.length_reverse
  have hsize := s.length_toList
  have hcap := s.size_le
  unfold effect
  cases i with
  | greet => exact ⟨s, rfl, rfl⟩
  | printInline operand => exact ⟨s, rfl, rfl⟩
  | restart => exact ⟨_, rfl, rfl⟩
  | set v =>
    by_cases h : s.size < stackCapacity
    · obtain ⟨t, ht, hl⟩ := push_eq_ok (v := v) h
      simp only [length_toList, h, ↓reduceIte]
      exact ⟨t, bind_eq_of_ok ht, hl⟩
    · simp only [length_toList, h, ↓reduceIte]
      exact bind_eq_of_error (push_eq_error (by omega))
  | wait =>
    cases hr : s.toList.reverse with
    | nil =>
      have : s.toList = [] := List.reverse_eq_nil_iff.1 hr
      simp only [this]
      exact bind_eq_of_error (pop_eq_error this)
    | cons n ys =>
      obtain ⟨t, ht, hl⟩ := pop_eq_ok_of_reverse hr
      exact ⟨t, bind_eq_of_ok ht, by rw [← hl, List.reverse_reverse]⟩
  | add =>
    rcases hr : s.toList.reverse with _ | ⟨b, _ | ⟨a, ys⟩⟩ <;>
      simp only [hr, List.length_cons, List.length_nil] at hlen
    · exact bind_require_eq_error (by omega)
    · exact bind_require_eq_error (by omega)
    · obtain ⟨t, ht, hl⟩ := pop_eq_ok_of_reverse hr
      obtain ⟨u, hu, hl⟩ := pop_eq_ok_of_reverse hl
      have hus : u.size = ys.length := by rw [← length_toList, ← hl, List.length_reverse]
      obtain ⟨w, hw, hl'⟩ := push_eq_ok (v := a + b) (s := u) (by omega)
      refine ⟨w, ?_, by rw [hl', ← hl, List.reverse_reverse]⟩
      rw [execute, bind_eq_of_ok (require_eq_ok (by omega)), bind_eq_of_ok ht, bind_eq_of_ok hu,
        bind_eq_of_ok hw]
      rfl
  | printFloat =>
    rcases hr : s.toList.reverse with _ | ⟨b3, _ | ⟨b2, _ | ⟨b1, _ | ⟨b0, ys⟩⟩⟩⟩ <;>
      simp only [hr, List.length_cons, List.length_nil] at hlen
    · exact bind_require_eq_error (by omega)
    · exact bind_require_eq_error (by omega)
    · exact bind_require_eq_error (by omega)
    · exact bind_require_eq_error (by omega)
    · obtain ⟨t3, h3, hl⟩ := pop_eq_ok_of_reverse hr
      obtain ⟨t2, h2, hl⟩ := pop_eq_ok_of_reverse hl
      obtain ⟨t1, h1, hl⟩ := pop_eq_ok_of_reverse hl
      obtain ⟨t0, h0, hl⟩ := pop_eq_ok_of_reverse hl
      refine ⟨t0, ?_, by rw [← hl, List.reverse_reverse]⟩
      rw [execute, bind_eq_of_ok (require_eq_ok (by omega)), bind_eq_of_ok h3, bind_eq_of_ok h2,
        bind_eq_of_ok h1, bind_eq_of_ok h0]
      rfl

end TickMachine.Instruction
