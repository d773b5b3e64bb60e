import TickMachine.Proofs.Commands

/-!
# The events as a journal of the stack

The stack can be followed from the outside: `Event.replay` is what each event tells of it, said of a
list of bytes without a bound. Replayed from the last load on, the events that the host received end
in the bytes on the stack; `replay_tick` is the part of one tick in that.
-/

namespace TickMachine

/-! ## Replaying -/

namespace Event

/-- The bytes after an event, if it can occur on those before. -/
def replay : Event → List UInt8 → Option (List UInt8)
  | set value, xs => some (xs ++ [value])
  | add a b sum, xs =>
    match xs.reverse with
    | y :: x :: ys =>
      if x = a ∧ y = b ∧ sum.toNat = (a.toNat + b.toNat) % 256 then some (ys.reverse ++ [sum])
      else none
    | _ => none
  | printFloat value .stack, xs =>
    match xs.reverse with
    | b3 :: b2 :: b1 :: b0 :: ys =>
      if value.pattern =
          b0.toNat * 0x1000000 + b1.toNat * 0x10000 + b2.toNat * 0x100 + b3.toNat then
        some ys.reverse
      else none
    | _ => none
  | wait amount, xs =>
    match xs.reverse with
    | x :: ys => if x = amount then some ys.reverse else none
    | [] => none
  | restart, _ => some []
  | printFloat _ .operand, xs | helloWorld, xs | waiting _, xs | finished, xs => some xs

/-- The bytes after events in their order, if each can occur. -/
def replayAll (es : List Event) (xs : List UInt8) : Option (List UInt8) :=
  es.foldlM (fun xs e => e.replay xs) xs

variable {i : Instruction} {xs ys zs : List UInt8} {e : Event} {es fs : List Event}

/-- The event of an instruction replays what the instruction did. -/
theorem replay_of_yields (h : i.Yields xs ys e) : e.replay xs = some ys := by
  cases h with
  | add xs a b => simp [replay, UInt8.toNat_add]
  | printFloat xs b0 b1 b2 b3 => simp [replay, Binary.pattern_ofBytes]
  | _ => simp [replay]

@[simp] theorem replayAll_nil (xs : List UInt8) : replayAll [] xs = some xs := rfl

theorem replayAll_cons (h : e.replay xs = some ys) : replayAll (e :: es) xs = replayAll es ys := by
  simp [replayAll, h]

theorem replayAll_append (h : replayAll es xs = some ys) :
    replayAll (es ++ fs) xs = replayAll fs ys := by
  rw [replayAll, List.foldlM_append]
  show (replayAll es xs).bind _ = _
  rw [h]
  rfl

end Event

open Event

/-! ## Runs and ticks -/

namespace Machine

variable {m : Machine} {now : Binary64} {r : Response}

/-- The journal of one run, between the stack before it and the stack after it. -/
theorem Runs.replay (h : Runs now m r) :
    replayAll r.events m.stack.toList = some r.machine.stack.toList := by
  induction h with
  | ended h => rfl
  | skipped h hr ih => exact ih
  | executed h he hr ih =>
    obtain ⟨i, _, hy, _⟩ := Program.move_eq_executed_iff.1 h
    rw [Response.events_after, events_heading_append]
    exact (replayAll_cons (replay_of_yields hy)).trans ih
  | waited h =>
    obtain ⟨i, _, hy, _⟩ := Program.move_eq_executed_iff.1 h
    rw [Response.events, events_heading_append]
    exact replayAll_cons (replay_of_yields hy)
  | restarted h =>
    obtain ⟨i, _, hy, _⟩ := Program.move_eq_executed_iff.1 h
    rw [Response.events, events_heading_append]
    exact replayAll_cons (replay_of_yields hy)
  | failed h =>
    rw [Response.events, events_heading]
    rfl

/-- A faulted machine and one that is held back emit nothing that tells of the stack. -/
theorem replay_tick (m : Machine) (now : Binary64) :
    replayAll (m.tick now).events m.stack.toList = some (m.tick now).machine.stack.toList := by
  have ht := m.ticked now
  generalize m.tick now = r at ht ⊢
  cases ht with
  | faulted hf => rfl
  | gated hf hw hlt => rfl
  | @stopped r hf hg hrun hr =>
    have hreplay : replayAll r.events m.stack.toList = some r.machine.stack.toList := hrun.replay
    rw [events_stopped, replayAll_append hreplay]
    split <;> rfl
  | @failed r fault hf hg hrun hr =>
    rw [events_failed]
    exact hrun.replay

end Machine

/-! ## Sessions -/

namespace Session

/-- While no program is loaded, the log grows by a journal that starts at the stack as it was. -/
theorem exists_journal (s : Session EventLog) {cs : List Command} (h : ∀ c ∈ cs, c.isLoad = false) :
    ∃ es, (s.obey cs).sink.events.toList = s.sink.events.toList ++ es ∧
      replayAll es s.machine.stack.toList = some (s.obey cs).machine.stack.toList := by
  induction cs generalizing s with
  | nil => exact ⟨[], by simp, rfl⟩
  | cons c cs ih =>
    have hc : replayAll (s.machine.perform c).events s.machine.stack.toList =
        some (s.perform c).2.machine.stack.toList := by
      cases c with
      | load p => exact absurd (h _ List.mem_cons_self) (by simp [Command.isLoad])
      | configure policy => rfl
      | tick now => exact s.machine.replay_tick now
    obtain ⟨es, hlog, hes⟩ := ih (s.perform c).2 fun d hd => h d (List.mem_cons_of_mem c hd)
    refine ⟨(s.machine.perform c).events ++ es, ?_, ?_⟩
    · rw [obey_cons, hlog, events_perform, List.append_assoc]
    · rw [obey_cons, replayAll_append hc, hes]

/-- The stack is empty after a load, and before any command. -/
theorem stack_obey_rdropWhile (log : EventLog) (cs : List Command) :
    ((new log).obey (cs.rdropWhile (!·.isLoad))).machine.stack.toList = [] := by
  rw [machine_obey]
  exact Machine.obey_rdropWhile (P := fun m => m.stack.toList = []) rfl (fun _ _ => rfl) cs

/-- **The journal.** From the last load on, or from the first command if there was none, the events
in the log replay from the empty list of bytes to the bytes on the stack. -/
theorem stack_eq_replay (log : EventLog) (cs : List Command) :
    ∃ es, ((new log).obey cs).sink.events.toList =
        ((new log).obey (cs.rdropWhile (!·.isLoad))).sink.events.toList ++ es ∧
      replayAll es [] = some ((new log).obey cs).machine.stack.toList := by
  have hafter : ∀ c ∈ cs.rtakeWhile (!·.isLoad), c.isLoad = false := by
    intro c hc
    simpa using List.mem_rtakeWhile_imp hc
  obtain ⟨es, hlog, hes⟩ :=
    exists_journal ((new log).obey (cs.rdropWhile (!·.isLoad))) hafter
  rw [← obey_append, List.rdropWhile_append_rtakeWhile] at hlog hes
  rw [stack_obey_rdropWhile] at hes
  exact ⟨es, hlog, hes⟩

end Session

end TickMachine
