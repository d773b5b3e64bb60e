import TickMachine.Proofs.Finish
import TickMachine.Proofs.Progress

/-!
# Failing instructions

An instruction that fails leaves no trace but the pointer behind what it read: the stack is as it was,
and no event is reported. The fault is true of the machine that was about to execute the instruction
(`Tells`), and what it tells is also enough for it: `fault_iff_tells` says so for every tick.
-/

namespace TickMachine

namespace Program

variable {p : Program} {pos : Nat} {op : Opcode}

/-- An opcode with enough bytes behind it is an instruction. -/
theorem exists_decode_of_fetch? (hb : p.fetch? pos = some op.byte)
    (hle : pos + 1 + op.operandWidth ≤ p.size) :
    ∃ i : Instruction, i.opcode = op ∧ p.decode pos = .instruction i := by
  have hlt := lt_size_of_fetch? hb
  cases hd : p.decode pos with
  | ended =>
    have := decode_eq_ended_iff.1 hd
    omega
  | unknown b =>
    obtain ⟨hf, ho⟩ := decode_eq_unknown_iff.1 hd
    rw [hb, Option.some.injEq] at hf
    rw [← hf, Opcode.ofByte?_byte] at ho
    cases ho
  | truncated o =>
    obtain ⟨hf, -, hshort⟩ := decode_eq_truncated_iff.1 hd
    rw [hb, Option.some.injEq, Opcode.byte_inj] at hf
    rw [← hf] at hshort
    omega
  | instruction i =>
    have hf := fetch?_of_decode hd
    rw [hb, Option.some.injEq, Opcode.byte_inj] at hf
    exact ⟨i, hf.symm, rfl⟩

end Program

namespace Machine

/-- What a fault tells of the machine about to execute an instruction, and the pointer behind the bytes
that the instruction read. -/
inductive Tells (m : Machine) : Fault → Nat → Prop where
  /-- The operand is there, the room for it is not. -/
  | overflow (hb : m.program.fetch? m.ip = some Opcode.set.byte) (ho : m.ip + 2 ≤ m.program.size)
    (hs : m.stack.size = 128) : Tells m (.stackOverflow 128) (m.ip + 2)
  | outOfRange {op : Opcode} {needed : Nat} (hb : m.program.fetch? m.ip = some op.byte)
    (ho : (op, needed) ∈ [(Opcode.set, 1), (.printInline, 4)])
    (hlt : m.program.size < m.ip + 1 + needed) :
    Tells m (.outOfRange (m.ip + 1) needed m.program.size) (m.ip + 1)
  | underflow {op : Opcode} {needed : Nat} (hb : m.program.fetch? m.ip = some op.byte)
    (ho : (op, needed) ∈ [(Opcode.add, 2), (.printFloat, 4), (.wait, 1)])
    (hlt : m.stack.size < needed) : Tells m (.stackUnderflow needed m.stack.size) (m.ip + 1)
  | unknown {b : UInt8} (hb : m.program.fetch? m.ip = some b) (h : 7 ≤ b)
    (hp : m.policy = .fatal) : Tells m (.unknownOpcode m.ip b) (m.ip + 1)

variable {m n : Machine} {now : Binary64} {rs : List Record} {fault : Fault} {ip : Nat}

/-! ## Truth and sufficiency -/

theorem Tells.failure (h : m.Tells fault ip) :
    m.program.Failure m.policy m.ip m.stack.toList fault ip := by
  cases h with
  | overflow hb ho hs =>
    obtain ⟨i, hi, hd⟩ := Program.exists_decode_of_fetch? hb ho
    cases i <;> cases hi
    exact .overflow hd (by rw [Stack.length_toList, hs]; exact Nat.le_refl _)
  | @outOfRange op needed hb ho hlt =>
    have hwidth : 0 < op.operandWidth ∧ needed = op.operandWidth := by
      simp only [List.mem_cons, Prod.mk.injEq, List.not_mem_nil, or_false] at ho
      obtain ⟨rfl, rfl⟩ | ⟨rfl, rfl⟩ := ho <;> decide
    obtain ⟨hpos, rfl⟩ := hwidth
    exact .truncated (Program.decode_eq_truncated_iff.2 ⟨hb, hpos, hlt⟩)
  | @underflow op needed hb ho hlt =>
    have hle := Program.lt_size_of_fetch? hb
    simp only [List.mem_cons, Prod.mk.injEq, List.not_mem_nil, or_false] at ho
    rw [← Stack.length_toList] at hlt ⊢
    obtain ⟨rfl, rfl⟩ | ⟨rfl, rfl⟩ | ⟨rfl, rfl⟩ := ho <;>
      obtain ⟨i, hi, hd⟩ := Program.exists_decode_of_fetch? hb hle <;>
      cases i <;> cases hi <;>
      exact .underflow hd hlt
  | unknown hb h hp =>
    exact .unknown (Program.decode_eq_unknown_iff.2 ⟨hb, Opcode.ofByte?_eq_none_iff.2 h⟩) hp

theorem tells_of_failure (h : m.program.Failure m.policy m.ip m.stack.toList fault ip) :
    m.Tells fault ip := by
  cases h with
  | unknown hd hp =>
    obtain ⟨hb, ho⟩ := Program.decode_eq_unknown_iff.1 hd
    exact .unknown hb (Opcode.ofByte?_eq_none_iff.1 ho) hp
  | @truncated op hd =>
    obtain ⟨hb, hpos, hlt⟩ := Program.decode_eq_truncated_iff.1 hd
    cases op with
    | set => exact .outOfRange hb (by decide) hlt
    | printInline => exact .outOfRange hb (by decide) hlt
    | greet | add | printFloat | wait | restart => exact absurd hpos (Nat.lt_irrefl 0)
  | overflow hd hfull =>
    rw [Stack.length_toList] at hfull
    exact .overflow (Program.fetch?_of_decode hd) (Program.add_width_le_of_decode hd)
      (Nat.le_antisymm m.stack.size_le hfull)
  | @underflow i hd hlt =>
    have hb := Program.fetch?_of_decode hd
    rw [Stack.length_toList] at hlt ⊢
    cases i with
    | add => exact .underflow hb (by decide) hlt
    | printFloat => exact .underflow hb (by decide) hlt
    | wait => exact .underflow hb (by decide) hlt
    | greet | set _ | printInline _ | restart => exact absurd hlt (Nat.not_lt_zero _)

/-- A step fails exactly with a fault that tells the truth. -/
theorem move_eq_failed_iff_tells : m.move = .failed fault ip ↔ m.Tells fault ip :=
  Program.move_eq_failed_iff.trans ⟨tells_of_failure, Tells.failure⟩

/-! ## Ticks that fail -/

/-- Nothing but the pointer moves, and the events are those from before the instruction. -/
theorem Reaches.tick_of_tells (h : m.Reaches now rs n) (ht : n.Tells fault ip) :
    m.tick now = ⟨{ n with ip, faulted := true }, rs ++ (n.heading ++ [.faulted fault ip]),
      .error fault⟩ := by
  rw [h.tick_eq, slice_of_failed (step_of_failed (move_eq_failed_iff_tells.2 ht))]
  rfl

theorem exists_tells_of_tick (hf : m.faulted = false) (hr : (m.tick now).result = .error fault) :
    ∃ rs n ip, m.Reaches now rs n ∧ n.Tells fault ip := by
  have hg : m.gated now = false := by
    refine Bool.eq_false_iff.2 fun hg => ?_
    rw [(tick_eq_of_gated hf hg).2] at hr
    cases hr
  obtain ⟨rs, n, hn, hstop⟩ := exists_reaches_stops hf hg
  refine ⟨rs, n, ?_⟩
  have hst := n.stepped now
  rw [hn.tick_eq] at hr
  generalize hs : n.step now = s at hst
  cases hst with
  | ended h =>
    rw [slice_of_ended hs] at hr
    cases hr
  | skipped h | executed h he => exact absurd hs (hstop _ _)
  | waited h | restarted h =>
    rw [slice_of_suspended hs] at hr
    cases hr
  | @failed fault' ip h =>
    rw [slice_of_failed hs] at hr
    cases hr
    exact ⟨ip, hn, move_eq_failed_iff_tells.1 h⟩

/-- **Faults tell the truth.** If a tick of an unfaulted machine fails, then at an instruction of which
the fault tells. At each instruction that a tick comes to, what a fault tells makes the tick fail with
this fault; the stack is as it was before the instruction, the events are those from before it, and
but for the pointer and the fault nothing else of the machine has changed either. -/
theorem fault_iff_tells (m : Machine) (now : Binary64) :
    (m.faulted = false → ∀ fault, (m.tick now).result = .error fault →
      ∃ rs n ip, m.Reaches now rs n ∧ n.Tells fault ip) ∧
    ∀ rs n, m.Reaches now rs n → ∀ fault ip, n.Tells fault ip →
      let r := m.tick now
      r.result = .error fault ∧ r.machine = { n with ip, faulted := true } ∧
        r.events = Record.events rs ∧ .finished ∉ r.events ∧
        n.program = m.program ∧ n.policy = m.policy ∧ n.wake = none := by
  refine ⟨fun hf fault hr => exists_tells_of_tick hf hr, ?_⟩
  intro rs n hn fault ip ht r
  have hr : r = ⟨{ n with ip, faulted := true }, rs ++ (n.heading ++ [.faulted fault ip]),
      .error fault⟩ := hn.tick_of_tells ht
  have hevents : r.events = Record.events rs := by
    rw [hr, Response.events, Record.events_append, events_heading_append]
    exact List.append_nil _
  have hfinished : .finished ∉ r.events := by
    intro hmem
    obtain ⟨hok, -⟩ := hn.underway.finished_mem_iff.1 hmem
    rw [run_of_failed (step_of_failed (move_eq_failed_iff_tells.2 ht))] at hok
    cases hok
  obtain ⟨hprogram, hpolicy, -, hwake⟩ := hn.underway.frame
  exact ⟨by rw [hr], by rw [hr], hevents, hfinished, hprogram, hpolicy, hwake⟩

end Machine

end TickMachine
