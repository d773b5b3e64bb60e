import Mathlib.Data.List.Basic
import TickMachine.Proofs.Commands

/-!
# The end of a program

Behind a run without a fault the machine asks whether a byte is left, and not why the run stopped.
So the end is reported by a tick that found no byte left and also by one that a wait on the last byte
suspends, and by no other (`finished_iff`).

A machine that has reported the end is spent, and stays so until a program is loaded: its ticks report
the end again, but for those that such a last wait still holds back.
-/

namespace TickMachine

theorem Instruction.Yields.ne_finished {i : Instruction} {xs ys : List UInt8} {e : Event}
    (h : i.Yields xs ys e) : e ≠ .finished := by
  cases h <;> simp

namespace Machine

/-- No byte is left, and there was no fault. -/
structure Spent (m : Machine) : Prop where
  faulted : m.faulted = false
  isFinished : m.isFinished = true

/-- The tick comes to where no byte is left. -/
def RunsOut (m : Machine) (now : Binary64) : Prop := ∃ n, m.Underway now n ∧ n.step now = .ended

/-- The machine stands before a wait on the last byte of its program. -/
def AtLastWait (m : Machine) : Prop :=
  m.program.decode m.ip = .instruction .wait ∧ m.ip + 1 = m.program.size

/-- The tick is suspended by a wait on the last byte. -/
def WaitsLast (m : Machine) (now : Binary64) : Prop :=
  ∃ n k rs, m.Underway now n ∧ n.AtLastWait ∧ n.step now = .suspended k rs

variable {m n : Machine} {now : Binary64} {r : Response} {cs : List Command}

theorem isFinished_iff : m.isFinished = true ↔ m.program.size ≤ m.ip := by
  unfold isFinished
  exact decide_eq_true_iff

/-! ## The report -/

/-- Instructions do not report the end. -/
theorem Runs.finished_notMem (h : Runs now m r) : .finished ∉ r.events := by
  induction h with
  | ended h => exact List.not_mem_nil
  | skipped h hr ih => exact ih
  | executed h he hr ih =>
    obtain ⟨i, _, hy, _⟩ := Program.move_eq_executed_iff.1 h
    rw [Response.events_after, events_heading_append, List.mem_append, not_or]
    exact ⟨fun hmem => hy.ne_finished (List.mem_singleton.1 hmem).symm, ih⟩
  | waited h | restarted h =>
    unfold Response.events
    rw [events_heading_append]
    simp [Record.events, Record.event?]
  | failed h =>
    unfold Response.events
    rw [events_heading]
    exact List.not_mem_nil

/-- The end is reported by a tick whose run did not fail and left no byte. -/
theorem finished_mem_iff_of_ready (hf : m.faulted = false) (hg : m.gated now = false) :
    .finished ∈ (m.tick now).events ↔
      (m.awake.run now).result = .ok () ∧ (m.awake.run now).machine.isFinished = true := by
  have hnot : .finished ∉ (m.awake.run now).events := (m.awake.runs now).finished_notMem
  rw [tick_of_ready hf hg]
  cases hr : (m.awake.run now).result with
  | ok =>
    rw [slice_of_ok hr]
    show .finished ∈ Response.events ⟨_, m.waking ++ _, _⟩ ↔ _
    rw [events_stopped, List.mem_append]
    split <;> simp_all
  | error fault =>
    rw [slice_of_error hr]
    show .finished ∈ Response.events ⟨_, m.waking ++ _, _⟩ ↔ _
    rw [events_failed]
    simp [hnot]

/-- A refused tick and one that is held back do not report the end. -/
theorem ready_of_finished_mem (h : .finished ∈ (m.tick now).events) :
    m.faulted = false ∧ m.gated now = false := by
  have ht := m.ticked now
  generalize m.tick now = r at ht h
  cases ht with
  | faulted hf => exact absurd h List.not_mem_nil
  | gated hf hw hlt => exact absurd h (by simp [Response.events, Record.events, Record.event?])
  | stopped hf hg hrun hr => exact ⟨hf, hg⟩
  | failed hf hg hrun hr => exact ⟨hf, hg⟩

/-- The same of any machine that the tick goes through. -/
theorem Underway.finished_mem_iff (h : m.Underway now n) : .finished ∈ (m.tick now).events ↔
    (n.run now).result = .ok () ∧ (n.run now).machine.isFinished = true := by
  obtain ⟨rs, hr⟩ := h.exists_run_eq
  rw [finished_mem_iff_of_ready h.ready_of.1 h.ready_of.2, hr]
  rfl

/-! ## What ends the tick -/

theorem decode_eq_ended_of_step (h : m.step now = .ended) : m.program.decode m.ip = .ended := by
  have hst := m.stepped now
  rw [h] at hst
  cases hst with
  | ended h => exact Program.move_eq_ended_iff.1 h

/-- A restart leads to the first byte, which is there. -/
theorem isFinished_run_of_restart (hd : m.program.decode m.ip = .instruction .restart)
    (now : Binary64) : (m.run now).machine.isFinished = false := by
  obtain ⟨t, _, hs⟩ := step_of_restart hd now
  have hlt : m.ip < m.program.size := lt_size_of_decode (by rw [hd]; simp)
  rw [run_of_suspended hs]
  refine Bool.eq_false_iff.2 fun hfin => ?_
  have hle : m.program.size ≤ 0 := isFinished_iff.1 hfin
  omega

/-- A wait that succeeds leads to the byte behind it. -/
theorem isFinished_run_of_wait (hd : m.program.decode m.ip = .instruction .wait)
    (hok : (m.run now).result = .ok ()) :
    (m.run now).machine.isFinished = true ↔ m.AtLastWait := by
  have hlt : m.ip < m.program.size := lt_size_of_decode (by rw [hd]; simp)
  rcases List.eq_nil_or_concat' m.stack.toList with hnil | ⟨xs, amount, hxs⟩
  · have hshort : m.stack.toList.length < Instruction.wait.need := by
      rw [hnil]
      exact Nat.one_pos
    have hmove : m.move = .failed (.stackUnderflow 1 m.stack.toList.length) (m.ip + 1) :=
      Program.move_eq_failed_iff.2 (.underflow hd hshort)
    rw [run_of_failed (step_of_failed hmove)] at hok
    cases hok
  · have hmove : m.move = .executed (.wait amount) (m.ip + 1) xs :=
      Program.move_eq_executed_iff.2 ⟨_, hd, by rw [hxs]; exact .wait xs amount, rfl⟩
    obtain ⟨t, _, hs⟩ := step_of_executed hmove now
    rw [run_of_suspended hs, isFinished_iff]
    show m.program.size ≤ m.ip + 1 ↔ _
    unfold AtLastWait
    constructor
    · intro hle
      exact ⟨hd, by omega⟩
    · rintro ⟨_, hlast⟩
      omega

/-- The end is reported where no byte is left, or behind a wait on the last byte. -/
theorem finished_mem_iff :
    .finished ∈ (m.tick now).events ↔ m.RunsOut now ∨ m.WaitsLast now := by
  constructor
  · intro hmem
    obtain ⟨hf, hg⟩ := ready_of_finished_mem hmem
    obtain ⟨n, hn, hlast⟩ := (Underway.ready hf hg).exists_endsRun
    obtain ⟨hok, hfin⟩ := hn.finished_mem_iff.1 hmem
    rcases hlast with ⟨hs, _, _⟩ | ⟨rs, hs, _⟩ | ⟨fault, rs, hs, _⟩
    · exact .inl ⟨n, hn, hs⟩
    · generalize (m.awake.run now).machine = k at hs
      have hst := n.stepped now
      rw [hs] at hst
      cases hst with
      | waited h =>
        obtain ⟨i, hd, hy, _⟩ := Program.move_eq_executed_iff.1 h
        obtain ⟨rfl, _⟩ := Instruction.yields_wait_iff.1 hy
        exact .inr ⟨n, _, _, hn, (isFinished_run_of_wait hd hok).1 hfin, hs⟩
      | restarted h =>
        obtain ⟨i, hd, hy, _⟩ := Program.move_eq_executed_iff.1 h
        obtain ⟨rfl, _⟩ := Instruction.yields_restart_iff.1 hy
        rw [isFinished_run_of_restart hd now] at hfin
        cases hfin
    · rw [run_of_failed hs] at hok
      cases hok
  · rintro (⟨n, hn, hs⟩ | ⟨n, k, rs, hn, hlast, hs⟩)
    · have hle := Program.decode_eq_ended_iff.1 (decode_eq_ended_of_step hs)
      rw [hn.finished_mem_iff, run_of_ended hs]
      exact ⟨rfl, isFinished_iff.2 hle⟩
    · have hok : (n.run now).result = .ok () := by rw [run_of_suspended hs]
      exact hn.finished_mem_iff.2 ⟨hok, (isFinished_run_of_wait hlast.1 hok).2 hlast⟩

/-- A tick that executes a restart, or a wait with bytes behind it, does not report the end. -/
theorem Underway.finished_notMem (h : m.Underway now n)
    (hd : n.program.decode n.ip = .instruction .restart ∨
      n.program.decode n.ip = .instruction .wait ∧ n.ip + 1 ≠ n.program.size) :
    .finished ∉ (m.tick now).events := by
  intro hmem
  obtain ⟨hok, hfin⟩ := h.finished_mem_iff.1 hmem
  rcases hd with hd | ⟨hd, hne⟩
  · rw [isFinished_run_of_restart hd now] at hfin
    cases hfin
  · exact hne ((isFinished_run_of_wait hd hok).1 hfin).2

/-! ## After the report -/

theorem spent_of_finished_mem (h : .finished ∈ (m.tick now).events) : (m.tick now).machine.Spent := by
  obtain ⟨hf, hg⟩ := ready_of_finished_mem h
  obtain ⟨hok, hfin⟩ := (finished_mem_iff_of_ready hf hg).1 h
  rw [tick_of_ready hf hg, slice_of_ok hok]
  exact ⟨(m.awake.runs now).frame.2.2.trans hf, hfin⟩

/-- A spent machine that is not held back only reports the end again. -/
theorem Spent.tick_of_not_gated (hm : m.Spent) (hg : m.gated now = false) :
    m.tick now = ⟨m.awake, m.waking ++ [.event .finished], .ok ()⟩ := by
  have hended : m.awake.step now = .ended :=
    step_of_ended (Program.move_eq_ended_iff.2
      (Program.decode_eq_ended_iff.2 (isFinished_iff.1 hm.isFinished)))
  have hfin : m.awake.isFinished = true := hm.isFinished
  rw [tick_of_ready hm.faulted hg, slice_of_ok (by rw [run_of_ended hended]), run_of_ended hended,
    closing, if_pos hfin]
  rfl

theorem Spent.tick_of_wake_eq_none (hm : m.Spent) (hw : m.wake = none) (now : Binary64) :
    m.tick now = ⟨m, [.event .finished], .ok ()⟩ := by
  have hg : m.gated now = false := by
    unfold gated
    rw [hw]
    rfl
  have hawake : m.awake = m := by
    unfold awake
    rw [← hw]
  have hwaking : m.waking = [] := by
    unfold waking
    rw [hw]
    rfl
  rw [hm.tick_of_not_gated hg, hawake, hwaking]
  rfl

theorem RunsOut.wake_eq_none (h : m.RunsOut now) : (m.tick now).machine.wake = none := by
  obtain ⟨n, hn, hs⟩ := h
  rw [(hn.tick_of_ended hs).1]
  exact hn.frame.2.2.2

/-- What a command other than a load preserves: the machine is spent, and no new wait is pending. -/
theorem Spent.perform {c : Command} (hm : m.Spent) (hc : c.isLoad = false) :
    (m.perform c).machine.Spent ∧
      ((m.perform c).machine.wake = m.wake ∨ (m.perform c).machine.wake = none) := by
  cases c with
  | load p => cases hc
  | configure policy => exact ⟨⟨hm.faulted, hm.isFinished⟩, .inl rfl⟩
  | tick now =>
    show (m.tick now).machine.Spent ∧ ((m.tick now).machine.wake = _ ∨ (m.tick now).machine.wake = _)
    cases hg : m.gated now with
    | true =>
      rw [(tick_eq_of_gated hm.faulted hg).1]
      exact ⟨hm, .inl rfl⟩
    | false =>
      rw [hm.tick_of_not_gated hg]
      exact ⟨⟨hm.faulted, hm.isFinished⟩, .inr rfl⟩

theorem Spent.obey (hm : m.Spent) (hcs : ∀ c ∈ cs, c.isLoad = false) :
    (m.obey cs).Spent ∧ ((m.obey cs).wake = m.wake ∨ (m.obey cs).wake = none) := by
  induction cs generalizing m with
  | nil => exact ⟨hm, .inl rfl⟩
  | cons c cs ih =>
    obtain ⟨hc, hcs⟩ := List.forall_mem_cons.1 hcs
    obtain ⟨hnext, hwake⟩ := hm.perform hc
    obtain ⟨hlast, hwakes⟩ := ih hnext hcs
    rw [obey_cons]
    refine ⟨hlast, ?_⟩
    rcases hwakes with h | h
    · rw [h]
      exact hwake
    · exact .inr h

/-- **The end.** A tick reports it where it found no byte left or where a wait on the last byte
suspended it, never after a restart or another wait. In the first case no wait is pending, and until a
program is loaded each tick reports the end and changes nothing. In the second the wait still holds
ticks back; each other tick reports the end, and the first of them ends the wait. -/
theorem finished_iff (m : Machine) (now : Binary64) :
    let n := (m.tick now).machine
    (.finished ∈ (m.tick now).events ↔ m.RunsOut now ∨ m.WaitsLast now) ∧
      (∀ k, m.Underway now k → k.program.decode k.ip = .instruction .restart ∨
        k.program.decode k.ip = .instruction .wait ∧ k.ip + 1 ≠ k.program.size →
          .finished ∉ (m.tick now).events) ∧
      (m.RunsOut now → n.wake = none ∧ ∀ cs, (∀ c ∈ cs, c.isLoad = false) → ∀ later,
        (n.obey cs).tick later = ⟨n.obey cs, [.event .finished], .ok ()⟩) ∧
      (m.WaitsLast now → ∀ cs, (∀ c ∈ cs, c.isLoad = false) → ∀ later,
        let k := n.obey cs
        (∀ wake, k.wake = some wake → later < wake → n.wake = some wake ∧
          k.tick later = ⟨k, [.event (.waiting (wake - later).ceil)], .ok ()⟩) ∧
        (k.gated later = false →
          k.tick later = ⟨k.awake, k.waking ++ [.event .finished], .ok ()⟩)) := by
  intro n
  refine ⟨finished_mem_iff, fun k hk hd => hk.finished_notMem hd, ?_, ?_⟩
  · intro hout
    have hn : n.Spent := spent_of_finished_mem (finished_mem_iff.2 (.inl hout))
    have hwake : n.wake = none := hout.wake_eq_none
    refine ⟨hwake, fun cs hcs later => ?_⟩
    obtain ⟨hspent, hstill⟩ := hn.obey hcs
    rw [hwake, or_self] at hstill
    exact hspent.tick_of_wake_eq_none hstill later
  · intro hwaits cs hcs later k
    have hn : n.Spent := spent_of_finished_mem (finished_mem_iff.2 (.inr hwaits))
    obtain ⟨hspent, hwake⟩ := hn.obey hcs
    refine ⟨fun wake hw hlt => ⟨?_, tick_of_gated hspent.faulted hw hlt⟩, hspent.tick_of_not_gated⟩
    rcases hwake with h | h
    · exact h.symm.trans hw
    · rw [show k.wake = none from h] at hw
      cases hw

/-- Before the time to wake, the end that a last wait reported is not reported again. -/
theorem finished_before_wake :
    let m := empty.obey [.load (.ofList [1, 1, 5])]
    let n := (m.tick (.ofNat 0)).machine
    (m.tick (.ofNat 0)).events = [.set 1, .wait 1, .finished] ∧ n.wake = some (.ofNat 1) ∧
      (n.tick (.ofNat 0)).events = [.waiting (.ofNat 1)] := by
  decide +kernel

end Machine

end TickMachine
