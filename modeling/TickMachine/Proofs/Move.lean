import TickMachine.Machine.Tick
import TickMachine.Proofs.Decode
import TickMachine.Proofs.Effect

/-!
# Moves

A move is what one step comes to when the clock and the slots are left out: it depends on the
program, the policy, the position and the bytes on the stack, and on nothing else.

`Machine.runs`: a run of the machine is a chain of moves. What a step does is read off its move
here, once; later proofs go by the cases of `Machine.Runs`.
-/

namespace TickMachine

inductive Move where
  /-- No byte is left. -/
  | ended
  /-- A byte that is no opcode is passed over. -/
  | skipped (byte : UInt8)
  /-- An instruction reports its event; the pointer and the stack after it. -/
  | executed (event : Event) (ip : Nat) (stack : List UInt8)
  /-- A fault; the pointer after it. The stack is as it was. -/
  | failed (fault : Fault) (ip : Nat)

/-- The move at a position. -/
def Program.move (p : Program) (policy : UnknownPolicy) (ip : Nat) (xs : List UInt8) : Move :=
  match p.decode ip with
  | .ended => .ended
  | .unknown byte =>
    match policy with
    | .ignore => .skipped byte
    | .fatal => .failed (.unknownOpcode ip byte) (ip + 1)
  | .truncated op => .failed (.outOfRange (ip + 1) op.operandWidth p.size) (ip + 1)
  | .instruction i =>
    match i.effect xs with
    | .ok (ys, e) => .executed e (if e = .restart then 0 else ip + i.width) ys
    | .error fault => .failed fault (ip + i.width)

/-- The record of the opcode at a position. -/
def Program.heading (p : Program) (ip : Nat) : List Record :=
  match p.decode ip with
  | .truncated op => [.dispatch ip op]
  | .instruction i => [.dispatch ip i.opcode]
  | .ended | .unknown _ => []

@[simp] theorem Program.events_heading (p : Program) (ip : Nat) :
    Record.events (p.heading ip) = [] := by
  unfold heading
  split <;> rfl

/-! ## Moves by what is decoded -/

namespace Program

variable {p : Program} {policy : UnknownPolicy} {ip next : Nat} {xs ys : List UInt8} {b : UInt8}
  {e : Event} {fault : Fault}

theorem move_eq_ended_iff : p.move policy ip xs = .ended ↔ p.decode ip = .ended := by
  unfold move
  cases p.decode ip with
  | unknown b => cases policy <;> simp
  | instruction i => cases he : i.effect xs <;> simp [he]
  | _ => simp

theorem move_eq_skipped_iff :
    p.move policy ip xs = .skipped b ↔ p.decode ip = .unknown b ∧ policy = .ignore := by
  unfold move
  cases p.decode ip with
  | unknown b => cases policy <;> simp
  | instruction i => cases he : i.effect xs <;> simp [he]
  | _ => simp

theorem move_eq_executed_iff : p.move policy ip xs = .executed e next ys ↔
    ∃ i, p.decode ip = .instruction i ∧ i.Yields xs ys e ∧
      next = if e = .restart then 0 else ip + i.width := by
  simp only [← Instruction.effect_eq_ok_iff]
  unfold move
  cases p.decode ip with
  | unknown b => cases policy <;> simp
  | instruction i =>
    cases h : i.effect xs with
    | error fault => simp [h]
    | ok r =>
      simp only [Move.executed.injEq, Decoded.instruction.injEq, exists_eq_left', h,
        Except.ok.injEq, Prod.ext_iff]
      constructor
      · rintro ⟨rfl, rfl, rfl⟩
        exact ⟨⟨rfl, rfl⟩, rfl⟩
      · rintro ⟨⟨rfl, rfl⟩, rfl⟩
        exact ⟨rfl, rfl, rfl⟩
  | _ => simp

/-- What makes a move fail. -/
inductive Failure (p : Program) (policy : UnknownPolicy) (ip : Nat) (xs : List UInt8) :
    Fault → Nat → Prop where
  | unknown {b : UInt8} (h : p.decode ip = .unknown b) (hp : policy = .fatal) :
    Failure p policy ip xs (.unknownOpcode ip b) (ip + 1)
  | truncated {op : Opcode} (h : p.decode ip = .truncated op) :
    Failure p policy ip xs (.outOfRange (ip + 1) op.operandWidth p.size) (ip + 1)
  | overflow {v : UInt8} (h : p.decode ip = .instruction (.set v))
    (hfull : stackCapacity ≤ xs.length) :
    Failure p policy ip xs (.stackOverflow stackCapacity) (ip + 2)
  | underflow {i : Instruction} (h : p.decode ip = .instruction i) (hlt : xs.length < i.need) :
    Failure p policy ip xs (.stackUnderflow i.need xs.length) (ip + i.width)

theorem move_eq_failed_iff :
    p.move policy ip xs = .failed fault next ↔ p.Failure policy ip xs fault next := by
  constructor
  · intro h
    unfold move at h
    cases hd : p.decode ip with
    | ended => simp [hd] at h
    | unknown b =>
      cases policy with
      | ignore => simp [hd] at h
      | fatal =>
        simp only [hd, Move.failed.injEq] at h
        obtain ⟨rfl, rfl⟩ := h
        exact .unknown hd rfl
    | truncated op =>
      simp only [hd, Move.failed.injEq] at h
      obtain ⟨rfl, rfl⟩ := h
      exact .truncated hd
    | instruction i =>
      cases he : i.effect xs with
      | ok r => simp [hd, he] at h
      | error fault =>
        simp only [hd, he, Move.failed.injEq] at h
        obtain ⟨rfl, rfl⟩ := h
        rcases Instruction.effect_eq_error_iff.1 he with ⟨v, rfl, hfull, rfl⟩ | ⟨hlt, rfl⟩
        · exact .overflow hd hfull
        · exact .underflow hd hlt
  · intro h
    unfold move
    cases h with
    | unknown h hp => simp [h, hp]
    | truncated h => simp [h]
    | @overflow v h hfull =>
      have he : (Instruction.set v).effect xs = .error (.stackOverflow stackCapacity) :=
        Instruction.effect_eq_error_iff.2 (.inl ⟨v, rfl, hfull, rfl⟩)
      simp only [h, he]
      rfl
    | underflow h hlt =>
      have he := Instruction.effect_eq_error_iff.2 (.inr ⟨hlt, rfl⟩)
      simp only [h, he]

/-- A failing move keeps within the program: the bytes that it passed are there. -/
theorem Failure.next_le (h : p.Failure policy ip xs fault next) : ip < next ∧ next ≤ p.size := by
  cases h with
  | unknown h hp =>
    obtain ⟨hb, _⟩ := decode_eq_unknown_iff.1 h
    exact ⟨Nat.lt_succ_self ip, lt_size_of_fetch? hb⟩
  | truncated h =>
    obtain ⟨hb, _⟩ := decode_eq_truncated_iff.1 h
    exact ⟨Nat.lt_succ_self ip, lt_size_of_fetch? hb⟩
  | overflow h hfull => exact ⟨by omega, add_width_le_of_decode h⟩
  | @underflow i h hlt => exact ⟨Nat.lt_add_of_pos_right i.width_pos, add_width_le_of_decode h⟩

end Program

/-! ## Steps by their move -/

namespace Machine

/-- The move at the pointer. -/
def move (m : Machine) : Move := m.program.move m.policy m.ip m.stack.toList

/-- The record of the opcode at the pointer. -/
def heading (m : Machine) : List Record := m.program.heading m.ip

@[simp] theorem events_heading (m : Machine) : Record.events m.heading = [] :=
  m.program.events_heading m.ip

@[simp] theorem events_heading_append (m : Machine) (rs : List Record) :
    Record.events (m.heading ++ rs) = Record.events rs := by
  rw [Record.events_append, events_heading, List.nil_append]

variable {m n : Machine} {now : Binary64} {b : UInt8} {e : Event} {fault : Fault} {ip : Nat}
  {xs : List UInt8}

theorem step_of_ended (h : m.move = .ended) : m.step now = .ended := by
  simp [step, Program.move_eq_ended_iff.1 h]

theorem step_of_skipped (h : m.move = .skipped b) :
    m.step now = .continued { m with ip := m.ip + 1 } [.ignored m.ip b] := by
  obtain ⟨hd, hp⟩ := Program.move_eq_skipped_iff.1 h
  simp [step, hd, hp]

/-- The slots follow the bytes; the clock and the pointer heed the event. -/
theorem step_of_executed (h : m.move = .executed e ip xs) (now : Binary64) :
    ∃ t : Stack, t.toList = xs ∧ m.step now =
      let n := heed { m with ip, stack := t } now e
      if e.suspends then .suspended n (m.heading ++ [.event e, .suspended n.ip n.wake])
      else .continued n (m.heading ++ [.event e]) := by
  obtain ⟨i, hd, hy, rfl⟩ := Program.move_eq_executed_iff.1 h
  have hex := i.execute_effect m.stack
  rw [Instruction.effect_of_yields hy] at hex
  obtain ⟨t, ht, hl⟩ := hex
  refine ⟨t, hl, ?_⟩
  simp only [step, hd, ht, heading, Program.heading]
  cases e <;> rfl

/-- An event that does not suspend leaves clock and pointer as they are. -/
theorem step_of_executed_of_not_suspends (h : m.move = .executed e ip xs) (he : e.suspends = false)
    (now : Binary64) : ∃ t : Stack, t.toList = xs ∧
      m.step now = .continued { m with ip, stack := t } (m.heading ++ [.event e]) := by
  obtain ⟨t, ht, hs⟩ := step_of_executed h now
  refine ⟨t, ht, ?_⟩
  rw [hs, heed_of_not_suspends he, he]
  rfl

theorem step_of_failed (h : m.move = .failed fault ip) :
    m.step now = .failed fault { m with ip } m.heading := by
  have hex (i : Instruction) (he : i.effect m.stack.toList = .error fault) :
      i.execute m.stack = .error fault m.stack := by
    have := i.execute_effect m.stack
    rwa [he] at this
  cases Program.move_eq_failed_iff.1 h with
  | unknown hd hp => simp [step, hd, hp, heading, Program.heading]
  | truncated hd => simp [step, hd, heading, Program.heading]
  | @overflow v hd hfull =>
    have he := hex (.set v) (Instruction.effect_eq_error_iff.2 (.inl ⟨v, rfl, hfull, rfl⟩))
    simp only [step, hd, he, heading, Program.heading]
    rfl
  | @underflow i hd hlt =>
    have he := hex i (Instruction.effect_of_length_lt hlt)
    simp only [step, hd, he, heading, Program.heading]

/-- A restart cannot fail. -/
theorem step_of_restart (h : m.program.decode m.ip = .instruction .restart) (now : Binary64) :
    ∃ t : Stack, t.toList = [] ∧ m.step now = .suspended { m with ip := 0, stack := t }
      (m.heading ++ [.event .restart, .suspended 0 m.wake]) :=
  step_of_executed (Program.move_eq_executed_iff.2 ⟨_, h, .restart _, rfl⟩) now

/-- What a step can come to, by the move at the pointer. -/
inductive Stepped (now : Binary64) (m : Machine) : Step → Prop where
  | ended (h : m.move = .ended) : Stepped now m .ended
  | skipped {b : UInt8} (h : m.move = .skipped b) :
    Stepped now m (.continued { m with ip := m.ip + 1 } [.ignored m.ip b])
  | executed {e : Event} {ip : Nat} {t : Stack} (h : m.move = .executed e ip t.toList)
    (he : e.suspends = false) :
    Stepped now m (.continued { m with ip, stack := t } (m.heading ++ [.event e]))
  | waited {amount : UInt8} {ip : Nat} {t : Stack}
    (h : m.move = .executed (.wait amount) ip t.toList) :
    Stepped now m (.suspended { m with ip, stack := t, wake := some (now + .ofNat amount.toNat) }
      (m.heading ++
        [.event (.wait amount), .suspended ip (some (now + .ofNat amount.toNat))]))
  | restarted {t : Stack} (h : m.move = .executed .restart 0 t.toList) :
    Stepped now m (.suspended { m with ip := 0, stack := t }
      (m.heading ++ [.event .restart, .suspended 0 m.wake]))
  | failed {fault : Fault} {ip : Nat} (h : m.move = .failed fault ip) :
    Stepped now m (.failed fault { m with ip } m.heading)

theorem stepped (m : Machine) (now : Binary64) : Stepped now m (m.step now) := by
  cases hm : m.move with
  | ended => rw [step_of_ended hm]; exact .ended hm
  | skipped b => rw [step_of_skipped hm]; exact .skipped hm
  | failed fault ip => rw [step_of_failed hm]; exact .failed hm
  | executed e ip xs =>
    obtain ⟨t, rfl, hs⟩ := step_of_executed hm now
    rw [hs]
    cases e with
    | wait amount => exact .waited hm
    | restart =>
      obtain ⟨i, _, _, rfl⟩ := Program.move_eq_executed_iff.1 hm
      exact .restarted hm
    | _ => exact .executed hm rfl

/-! ## Runs by their moves -/

/-- The runs of a machine at the time `now`, with what they come to. -/
inductive Runs (now : Binary64) : Machine → Response → Prop where
  | ended {m : Machine} (h : m.move = .ended) : Runs now m ⟨m, [], .ok ()⟩
  | skipped {m : Machine} {b : UInt8} {r : Response} (h : m.move = .skipped b)
    (hr : Runs now { m with ip := m.ip + 1 } r) : Runs now m (r.after [.ignored m.ip b])
  | executed {m : Machine} {e : Event} {ip : Nat} {t : Stack} {r : Response}
    (h : m.move = .executed e ip t.toList) (he : e.suspends = false)
    (hr : Runs now { m with ip, stack := t } r) : Runs now m (r.after (m.heading ++ [.event e]))
  | waited {m : Machine} {amount : UInt8} {ip : Nat} {t : Stack}
    (h : m.move = .executed (.wait amount) ip t.toList) :
    Runs now m ⟨{ m with ip, stack := t, wake := some (now + .ofNat amount.toNat) },
      m.heading ++ [.event (.wait amount), .suspended ip (some (now + .ofNat amount.toNat))],
      .ok ()⟩
  | restarted {m : Machine} {t : Stack} (h : m.move = .executed .restart 0 t.toList) :
    Runs now m ⟨{ m with ip := 0, stack := t },
      m.heading ++ [.event .restart, .suspended 0 m.wake], .ok ()⟩
  | failed {m : Machine} {fault : Fault} {ip : Nat} (h : m.move = .failed fault ip) :
    Runs now m ⟨{ m with ip }, m.heading, .error fault⟩

/-- A run changes pointer, stack and wait alone. -/
theorem Runs.frame {r : Response} (h : Runs now m r) : r.machine.program = m.program ∧
    r.machine.policy = m.policy ∧ r.machine.faulted = m.faulted := by
  induction h with
  | skipped _ _ ih | executed _ _ _ ih => exact ih
  | _ => exact ⟨rfl, rfl, rfl⟩

/-- Induction over the steps of a run: each that does not end it leaves fewer bytes. -/
theorem run_induction {motive : Machine → Prop} (now : Binary64)
    (step : ∀ m, (∀ n rs, m.step now = .continued n rs → motive n) → motive m) (m : Machine) :
    motive m := by
  induction hk : m.program.size - m.ip using Nat.strongRecOn generalizing m with
  | ind k ih =>
    refine step m fun n rs hs => ?_
    obtain ⟨hlt, hip, hprog⟩ := lt_of_continued hs
    exact ih _ (by rw [hprog]; omega) n rfl

theorem runs (m : Machine) (now : Binary64) : Runs now m (m.run now) := by
  induction m using run_induction now with
  | step m ih =>
    have hst := m.stepped now
    generalize hs : m.step now = s at hst
    cases hst with
    | ended h => rw [run_of_ended hs]; exact .ended h
    | skipped h => rw [run_of_continued hs]; exact .skipped h (ih _ _ hs)
    | executed h he => rw [run_of_continued hs]; exact .executed h he (ih _ _ hs)
    | waited h => rw [run_of_suspended hs]; exact .waited h
    | restarted h => rw [run_of_suspended hs]; exact .restarted h
    | failed h => rw [run_of_failed hs]; exact .failed h

end Machine

end TickMachine
