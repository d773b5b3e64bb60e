import TickMachine.Proofs.Commands

/-!
# Bounds

Every byte on the stack was pushed by an instruction of two bytes, and no instruction takes a byte
off without moving on, so the stack is never higher than half the pointer. A machine that waits
stands right behind its wait instruction.

`Bounded` holds of every machine that commands lead to and at every step of every tick
(`Bounded.obey`, `Bounded.underway`). So a program of fewer than 258 bytes never fills the stack.
-/

namespace TickMachine

-- Powers of natural numbers are the ones of core, whatever other powers are in scope.
attribute [local instance (high)] instPowNat

theorem Instruction.Yields.two_mul_length_le {i : Instruction} {xs ys : List UInt8} {e : Event}
    {ip : Nat} (h : i.Yields xs ys e) (hxs : 2 * xs.length ≤ ip) :
    2 * ys.length ≤ if e = .restart then 0 else ip + i.width := by
  cases h <;> simp_all [width, opcode, Opcode.operandWidth] <;> omega

namespace Machine

structure Bounded (m : Machine) : Prop where
  two_mul_size_le : 2 * m.stack.size ≤ m.ip
  ip_le : m.ip ≤ m.program.size
  size_le : m.stack.size ≤ 128
  /-- A pending wait was set by the instruction before the pointer, which took a byte. -/
  waits : ∀ wake, m.wake = some wake → m.faulted = false ∧ m.program.fetch? (m.ip - 1) = some 5 ∧
    m.stack.size ≤ 127 ∧ 2 * m.stack.size + 3 ≤ m.ip
  wake_of_faulted : m.faulted = true → m.wake = none

/-- The pointer, kept in a word of so many bits, moves behind an opcode, back to it and behind an
operand without wrapping, and every occupied slot exists. -/
structure Fits (m : Machine) (bits : Nat) : Prop where
  pointer : (BitVec.ofNat bits m.ip).toNat = m.ip
  opcode : m.ip < m.program.size → (BitVec.ofNat bits m.ip + .ofNat bits 1).toNat = m.ip + 1 ∧
    (BitVec.ofNat bits (m.ip + 1) - .ofNat bits 1).toNat = m.ip
  operand : ∀ op : Opcode, m.ip < m.program.size →
    (BitVec.ofNat bits (m.ip + 1) + BitVec.ofNat bits op.operandWidth).toNat =
      m.ip + 1 + op.operandWidth
  slot : ∀ k < m.stack.size, (m.stack.slots[k]?).isSome

/-- The machine fits words of every size of which its program fits one half. -/
def InRange (m : Machine) : Prop :=
  ∀ bits, 16 ≤ bits → m.program.size < 2 ^ (bits - 1) → m.Fits bits

variable {m n : Machine} {now : Binary64}

/-! ## Bounds at one step -/

/-- Without a pending wait the bounds are those of pointer and stack. -/
theorem bounded_of_wake_eq_none (hw : m.wake = none) (hs : 2 * m.stack.toList.length ≤ m.ip)
    (hip : m.ip ≤ m.program.size) : m.Bounded where
  two_mul_size_le := by rwa [Stack.length_toList] at hs
  ip_le := hip
  size_le := m.stack.size_le
  waits wake h := by rw [hw] at h; cases h
  wake_of_faulted _ := hw

theorem Bounded.two_mul_length_le (h : m.Bounded) : 2 * m.stack.toList.length ≤ m.ip := by
  rw [Stack.length_toList]
  exact h.two_mul_size_le

theorem Bounded.step (hb : n.Bounded) (hw : n.wake = none) (hf : n.faulted = false)
    (now : Binary64) :
    match n.step now with
    | .ended => True
    | .continued k _ => k.Bounded ∧ k.wake = none ∧ k.faulted = false
    | .suspended k _ => k.Bounded
    | .failed _ k _ => k.Bounded ∧ k.wake = none := by
  have hs := hb.two_mul_length_le
  have hst := n.stepped now
  generalize n.step now = s at hst
  cases hst with
  | ended h => trivial
  | skipped h =>
    obtain ⟨hd, _⟩ := Program.move_eq_skipped_iff.1 h
    have hlt := lt_size_of_decode (by rw [hd]; simp)
    exact ⟨bounded_of_wake_eq_none hw (by simp only; omega) hlt, hw, hf⟩
  | executed h he =>
    obtain ⟨i, hd, hy, rfl⟩ := Program.move_eq_executed_iff.1 h
    have hle := hy.two_mul_length_le hs
    have hsize := Program.add_width_le_of_decode hd
    exact ⟨bounded_of_wake_eq_none hw hle (by simp only; split <;> omega), hw, hf⟩
  | @waited amount ip t h =>
    obtain ⟨i, hd, hy, rfl⟩ := Program.move_eq_executed_iff.1 h
    obtain ⟨rfl, hxs⟩ := Instruction.yields_wait_iff.1 hy
    have hsize : n.stack.size = t.size + 1 := by
      rw [← Stack.length_toList, hxs, List.length_append, Stack.length_toList]
      rfl
    have hcap := hb.size_le
    have htwo := hb.two_mul_size_le
    exact {
      two_mul_size_le := by show 2 * t.size ≤ n.ip + 1; omega
      ip_le := Program.add_width_le_of_decode hd
      size_le := by show t.size ≤ 128; omega
      waits := fun _ _ => ⟨hf, Program.fetch?_of_decode hd, by show t.size ≤ 127; omega,
        by show 2 * t.size + 3 ≤ n.ip + 1; omega⟩
      wake_of_faulted := fun h => absurd (hf.symm.trans h) Bool.false_ne_true }
  | restarted h =>
    obtain ⟨i, _, hy, _⟩ := Program.move_eq_executed_iff.1 h
    obtain ⟨-, ht⟩ := Instruction.yields_restart_iff.1 hy
    exact bounded_of_wake_eq_none hw (by rw [ht]; exact Nat.zero_le _) (Nat.zero_le _)
  | failed h =>
    obtain ⟨hlt, hle⟩ := (Program.move_eq_failed_iff.1 h).next_le
    exact ⟨bounded_of_wake_eq_none hw (by simp only; omega) hle, hw⟩

/-! ## Bounds throughout a tick -/

theorem Bounded.awake (hb : m.Bounded) : m.awake.Bounded :=
  bounded_of_wake_eq_none rfl hb.two_mul_length_le hb.ip_le

theorem Bounded.underway (hb : m.Bounded) (h : m.Underway now n) :
    n.Bounded ∧ n.wake = none ∧ n.faulted = false := by
  induction h with
  | ready hf hg => exact ⟨hb.awake, rfl, hf⟩
  | continued h hs ih =>
    have := ih.1.step ih.2.1 ih.2.2 now
    rwa [hs] at this

theorem Bounded.tick (hb : m.Bounded) (now : Binary64) : (m.tick now).machine.Bounded := by
  rcases m.tick_cases now with hf | ⟨wake, hf, hw, hlt⟩ | ⟨hf, hg⟩
  · rwa [tick_of_faulted hf]
  · rwa [tick_of_gated hf hw hlt]
  obtain ⟨n, hn, hlast⟩ := exists_underway_last hf hg
  obtain ⟨hnb, hnw, hnf⟩ := hb.underway hn
  have hstep := hnb.step hnw hnf now
  rcases hlast with ⟨_, hm, _⟩ | ⟨rs, hs, _⟩ | ⟨fault, k, rs, hs, hm, _⟩
  · rwa [hm]
  · rwa [hs] at hstep
  · rw [hs] at hstep
    obtain ⟨hk, hkw⟩ := hstep
    rw [hm]
    exact bounded_of_wake_eq_none hkw hk.two_mul_length_le hk.ip_le

theorem bounded_load (m : Machine) (p : Program) : (m.load p).Bounded :=
  bounded_of_wake_eq_none rfl (Nat.le_refl 0) (Nat.zero_le _)

theorem Bounded.perform (hb : m.Bounded) (c : Command) : (m.perform c).machine.Bounded := by
  cases c with
  | load p => exact bounded_load m p
  | configure policy =>
    exact ⟨hb.two_mul_size_le, hb.ip_le, hb.size_le, hb.waits, hb.wake_of_faulted⟩
  | tick now => exact hb.tick now

theorem Bounded.obey (hb : m.Bounded) (cs : List Command) : (m.obey cs).Bounded :=
  obey_invariant (P := Bounded) (fun _ c hn => hn.perform c) hb cs

/-- The machines that commands lead to are bounded. -/
theorem bounded_obey (cs : List Command) : (empty.obey cs).Bounded :=
  (bounded_load empty .empty).obey cs

/-! ## What the bounds give -/

theorem toNat_ofNat_add {a b bits : Nat} (h : a + b < 2 ^ bits) :
    (BitVec.ofNat bits a + BitVec.ofNat bits b).toNat = a + b := by
  rw [← BitVec.ofNat_add, BitVec.toNat_ofNat, Nat.mod_eq_of_lt h]

theorem add_lt_two_pow {a b bits : Nat} (hbits : 16 ≤ bits) (ha : a < 2 ^ (bits - 1))
    (hb : b ≤ 8) : a + b < 2 ^ bits := by
  have hhalf : 2 ^ bits = 2 ^ (bits - 1) * 2 := by
    rw [← Nat.pow_succ, Nat.succ_eq_add_one, Nat.sub_add_cancel (by omega)]
  have hsmall : 2 ^ 3 ≤ 2 ^ (bits - 1) := Nat.pow_le_pow_right (by decide) (by omega)
  omega

/-- No operand is longer than the half of the words that the program leaves. -/
theorem Bounded.inRange (hb : m.Bounded) : m.InRange := by
  intro bits hbits hsize
  have hip : m.ip < 2 ^ (bits - 1) := Nat.lt_of_le_of_lt hb.ip_le hsize
  have hlt : m.ip < 2 ^ bits := add_lt_two_pow hbits hip (Nat.zero_le 8)
  have hfit : (BitVec.ofNat bits m.ip).toNat = m.ip := by
    rw [BitVec.toNat_ofNat, Nat.mod_eq_of_lt hlt]
  have hback : BitVec.ofNat bits (m.ip + 1) - .ofNat bits 1 = BitVec.ofNat bits m.ip := by
    rw [BitVec.ofNat_add]
    exact BitVec.add_sub_cancel _ _
  refine ⟨hfit, fun _ => ⟨?_, ?_⟩, fun op _ => ?_, fun k hk => ?_⟩
  · exact toNat_ofNat_add (add_lt_two_pow hbits hip (by decide))
  · rw [hback, hfit]
  · apply toNat_ofNat_add
    rw [Nat.add_assoc]
    exact add_lt_two_pow hbits hip (by cases op <;> decide)
  · have hcap : k < stackCapacity := Nat.lt_of_lt_of_le hk hb.size_le
    simp [hcap]

/-- Only a long program fills the stack: each byte takes two, and so does the push that fails. -/
theorem Bounded.le_size_of_overflow {capacity : Nat} {k : Machine} {rs : List Record}
    (hb : n.Bounded) (hs : n.step now = .failed (.stackOverflow capacity) k rs) :
    258 ≤ n.program.size := by
  have hst := n.stepped now
  rw [hs] at hst
  cases hst with
  | failed h =>
    cases Program.move_eq_failed_iff.1 h with
    | overflow hd hfull =>
      have hle : n.ip + 2 ≤ n.program.size := Program.add_width_le_of_decode hd
      have htwo := hb.two_mul_length_le
      have hcap : 128 ≤ n.stack.toList.length := hfull
      omega

/-- A tick keeps the program. -/
theorem Underway.program_eq (h : m.Underway now n) : n.program = m.program := h.frame.1

/-- **Bounds.** They hold of a machine that commands lead to, and of all machines that a tick of it
goes through, the last one included. While they do, pointer and slots stay in range, and the stack
overflows in long programs alone. -/
theorem bounded_throughout (cs : List Command) (now : Binary64) :
    let m := empty.obey cs
    m.Bounded ∧ m.InRange ∧
      (∀ n, m.Underway now n → n.Bounded ∧ n.InRange ∧
        (∀ k rs, n.step now = .suspended k rs → k.Bounded) ∧
        (∀ fault k rs, n.step now = .failed fault k rs → k.Bounded)) ∧
      (∀ capacity, (m.tick now).result = .error (.stackOverflow capacity) →
        258 ≤ m.program.size) := by
  intro m
  have hb : m.Bounded := bounded_obey cs
  refine ⟨hb, hb.inRange, fun n hn => ?_, fun capacity hr => ?_⟩
  · obtain ⟨hnb, hnw, hnf⟩ := hb.underway hn
    have hstep := hnb.step hnw hnf now
    refine ⟨hnb, hnb.inRange, ?_, ?_⟩
    · intro k rs hs
      rwa [hs] at hstep
    · intro fault k rs hs
      rw [hs] at hstep
      exact hstep.1
  · obtain ⟨-, n, k, rs, hn, hs, -⟩ := exists_failed_of_tick hr (by simp)
    rw [← hn.program_eq]
    exact (hb.underway hn).1.le_size_of_overflow hs

end Machine

end TickMachine
