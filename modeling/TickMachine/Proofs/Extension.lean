import TickMachine.Proofs.Finish
import TickMachine.Proofs.Schedule
import TickMachine.Proofs.Shape
import TickMachine.Proofs.Tidying

/-!
# Code behind a program

More code may stand behind a program. A machine does not see it before it comes to the end of the
program: before it looks for a byte there, or for an operand that reaches beyond
(`Response.Overran`).

Until then `Machine.extend`, which puts the code there, goes along with every step, run and tick
(`tick_extend`). In the tick that overruns, the machine with more code reports the same up to the
end, and goes on (`extend_agrees`).
-/

namespace TickMachine

/-- A program with another one behind it. -/
instance : Append Program := ⟨fun p q => ⟨p.bytes ++ q.bytes⟩⟩

/-- Whether something was found with all its bytes. -/
def Decoded.isWhole : Decoded → Bool
  | unknown _ | instruction _ => true
  | ended | truncated _ => false

namespace Program

variable {p : Program} {pos : Nat} {b : UInt8}

@[simp] theorem toList_append (p q : Program) : (p ++ q).toList = p.toList ++ q.toList :=
  Array.toList_append

@[simp] theorem size_append (p q : Program) : (p ++ q).size = p.size + q.size :=
  Array.size_append

/-- The bytes of a program keep their positions. -/
theorem drop_prefix_append (p q : Program) (hpos : pos ≤ p.size) :
    p.toList.drop pos <+: (p ++ q).toList.drop pos := by
  rw [toList_append, List.drop_append_of_le_length (by rwa [length_toList])]
  exact List.prefix_append _ _

theorem fetch?_append (h : p.fetch? pos = some b) (q : Program) :
    (p ++ q).fetch? pos = some b := by
  obtain ⟨bs, hbs⟩ := fetch?_eq_some_iff.1 h
  obtain ⟨cs, hcs⟩ := drop_prefix_append p q (Nat.le_of_lt (lt_size_of_fetch? h))
  rw [hbs, List.cons_append] at hcs
  exact fetch?_eq_some_iff.2 ⟨_, hcs.symm⟩

theorem decode_append (h : (p.decode pos).isWhole = true) (q : Program) :
    (p ++ q).decode pos = p.decode pos := by
  cases hd : p.decode pos with
  | ended | truncated op =>
    rw [hd] at h
    cases h
  | unknown b =>
    obtain ⟨hf, ho⟩ := decode_eq_unknown_iff.1 hd
    exact decode_eq_unknown_iff.2 ⟨fetch?_append hf q, ho⟩
  | instruction i =>
    have hpos : pos ≤ p.size := Nat.le_of_lt (Machine.lt_size_of_decode (by rw [hd]; simp))
    exact decode_eq_instruction_iff.2
      ((decode_eq_instruction_iff.1 hd).trans (drop_prefix_append p q hpos))

end Program

namespace Machine

/-- The machine with more code behind its program. -/
def extend (m : Machine) (q : Program) : Machine := { m with program := m.program ++ q }

def Step.extend (q : Program) : Step → Step
  | .ended => .ended
  | .continued n rs => .continued (n.extend q) rs
  | .suspended n rs => .suspended (n.extend q) rs
  | .failed fault n rs => .failed fault (n.extend q) rs

end Machine

namespace Response

def extend (r : Response) (q : Program) : Response := { r with machine := r.machine.extend q }

/-- The pointer is left at the end of the program, or an operand was missing there. -/
def Overran (r : Response) : Prop :=
  r.machine.ip = r.machine.program.size ∨
    ∃ pos needed size, r.result = .error (.outOfRange pos needed size)

end Response

namespace Machine

/-- No tick at the given times overruns the program. -/
def KeepsWithin (m : Machine) : List Binary64 → Prop
  | [] => True
  | now :: times => ¬ (m.tick now).Overran ∧ (m.tick now).machine.KeepsWithin times

variable {m n : Machine} {now : Binary64} {rs : List Record} {times : List Binary64}

/-! ## Steps -/

theorem step_extend (h : (m.program.decode m.ip).isWhole = true) (q : Program) (now : Binary64) :
    (m.extend q).step now = (m.step now).extend q := by
  have hdecode : (m.extend q).program.decode (m.extend q).ip = m.program.decode m.ip :=
    Program.decode_append h q
  unfold step
  rw [hdecode]
  cases hd : m.program.decode m.ip with
  | ended | truncated op =>
    rw [hd] at h
    cases h
  | unknown b =>
    have hpolicy : (m.extend q).policy = m.policy := rfl
    dsimp only
    rw [hpolicy]
    cases m.policy <;> rfl
  | instruction i =>
    have hexecute : i.execute (m.extend q).stack = i.execute m.stack := rfl
    dsimp only
    rw [hexecute]
    cases i.execute m.stack with
    | error fault stack => rfl
    | ok e stack => cases e <;> rfl

/-- A run that finds nothing whole ends there, without an event. -/
theorem run_of_not_whole (h : (m.program.decode m.ip).isWhole = false)
    (hip : m.ip ≤ m.program.size) (now : Binary64) :
    (m.run now).Overran ∧ (m.run now).events = [] := by
  cases hd : m.program.decode m.ip with
  | unknown b | instruction i =>
    rw [hd] at h
    cases h
  | ended =>
    have hle := Program.decode_eq_ended_iff.1 hd
    rw [run_of_ended (step_of_ended (Program.move_eq_ended_iff.2 hd))]
    exact ⟨.inl (Nat.le_antisymm hip hle), rfl⟩
  | truncated op =>
    rw [run_of_failed (step_of_failed (Program.move_eq_failed_iff.2 (.truncated hd)))]
    exact ⟨.inr ⟨_, _, _, rfl⟩, m.events_heading⟩

theorem ip_le_of_continued (hs : m.step now = .continued n rs) : n.ip ≤ n.program.size := by
  have hst := m.stepped now
  rw [hs] at hst
  cases hst with
  | skipped h => exact Program.lt_size_of_move_skipped h
  | executed h he => exact (Program.lt_of_move_executed h (by rintro rfl; cases he)).2

/-! ## Runs -/

/-- While it does not overrun, a run is the same with more code; if it does, it reports the same
first. -/
theorem run_extend (hip : m.ip ≤ m.program.size) (q : Program) :
    (m.run now).events <+: ((m.extend q).run now).events ∧
      (¬ (m.run now).Overran → (m.extend q).run now = (m.run now).extend q) := by
  induction m using run_induction now with
  | step m ih =>
    -- What is found whole is found with more code, too; anything else ends the run.
    cases hd : (m.program.decode m.ip).isWhole with
    | false =>
      obtain ⟨hover, hevents⟩ := run_of_not_whole hd hip now
      rw [hevents]
      exact ⟨List.nil_prefix, fun hr => absurd hover hr⟩
    | true =>
      have hstep := step_extend hd q now
      cases hs : m.step now with
      | ended =>
        rw [hs] at hstep
        rw [run_of_ended hs, run_of_ended hstep]
        exact ⟨List.prefix_refl _, fun _ => rfl⟩
      | continued n rs =>
        rw [hs] at hstep
        obtain ⟨hevents, hrun⟩ := ih n rs hs (ip_le_of_continued hs)
        rw [run_of_continued hs, run_of_continued hstep, Response.events_after,
          Response.events_after]
        refine ⟨(List.prefix_append_right_inj _).2 hevents, fun hr => ?_⟩
        rw [hrun hr]
        rfl
      | suspended n rs =>
        rw [hs] at hstep
        rw [run_of_suspended hs, run_of_suspended hstep]
        exact ⟨List.prefix_refl _, fun _ => rfl⟩
      | failed fault n rs =>
        rw [hs] at hstep
        rw [run_of_failed hs, run_of_failed hstep]
        exact ⟨List.prefix_refl _, fun _ => rfl⟩

/-! ## Ticks -/

/-- A slice overruns if its run does. -/
theorem overran_slice_iff : (m.slice now).Overran ↔ (m.run now).Overran := by
  cases hr : (m.run now).result with
  | ok =>
    rw [slice_of_ok hr]
    unfold Response.Overran
    rw [hr]
  | error fault =>
    rw [slice_of_error hr]
    unfold Response.Overran
    rw [hr]

theorem slice_extend (hip : m.ip ≤ m.program.size) (hr : ¬ (m.slice now).Overran) (q : Program) :
    (m.extend q).slice now = (m.slice now).extend q := by
  rw [overran_slice_iff] at hr
  have hrun := (run_extend hip q).2 hr
  have hframe := (m.runs now).frame.1
  have hle := (m.runs now).ip_le hip
  cases hres : (m.run now).result with
  | ok =>
    have hne : (m.run now).machine.ip ≠ (m.run now).machine.program.size := fun h => hr (.inl h)
    have hlt : (m.run now).machine.ip < (m.run now).machine.program.size := by
      rw [hframe] at hne ⊢
      omega
    have hlt' : (m.run now).machine.ip < ((m.run now).machine.program ++ q).size := by
      rw [Program.size_append]
      exact Nat.lt_add_right _ hlt
    rw [slice_of_ok hres, slice_of_ok (by rw [hrun]; exact hres), hrun, closing_of_lt hlt]
    show Response.mk _ (_ ++ closing ((m.run now).machine.extend q)) _ = _
    rw [closing_of_lt hlt']
    rfl
  | error fault =>
    rw [slice_of_error hres, slice_of_error (by rw [hrun]; exact hres), hrun]
    rfl

/-- While it does not overrun, a tick is the same with more code. -/
theorem tick_extend (hip : m.ip ≤ m.program.size) (hr : ¬ (m.tick now).Overran) (q : Program) :
    (m.extend q).tick now = (m.tick now).extend q := by
  rcases m.tick_cases now with hf | ⟨wake, hf, hw, hlt⟩ | ⟨hf, hg⟩
  · rw [tick_of_faulted hf, tick_of_faulted (m := m.extend q) hf]
    rfl
  · rw [tick_of_gated hf hw hlt, tick_of_gated (m := m.extend q) hf hw hlt]
    rfl
  · rw [tick_of_ready hf hg] at hr
    have hslice : (m.extend q).awake.slice now = (m.awake.slice now).extend q :=
      slice_extend (m := m.awake) hip hr q
    rw [tick_of_ready hf hg, tick_of_ready (m := m.extend q) hf hg, hslice]
    rfl

/-- Behind the events of its run a tick reports at most the end. -/
theorem exists_events_tick (hf : m.faulted = false) (hg : m.gated now = false) :
    ∃ c : Bool,
      (m.tick now).events = (m.awake.run now).events ++ if c then [.finished] else [] := by
  rw [tick_of_ready hf hg]
  cases hr : (m.awake.run now).result with
  | ok =>
    rw [slice_of_ok hr]
    exact ⟨_, events_stopped m _ (m.awake.run now) _⟩
  | error fault =>
    rw [slice_of_error hr]
    exact ⟨false, (events_failed m _ (m.awake.run now) _ fault _).trans (List.append_nil _).symm⟩

/-- Whether it overruns or not, a tick first reports the same with more code. -/
theorem dropFinished_tick_prefix (hip : m.ip ≤ m.program.size) (q : Program) (now : Binary64) :
    Event.dropFinished (m.tick now).events <+: ((m.extend q).tick now).events := by
  rcases m.tick_cases now with hf | ⟨wake, hf, hw, hlt⟩ | ⟨hf, hg⟩
  · rw [tick_of_faulted hf]
    exact List.nil_prefix
  · rw [tick_of_gated hf hw hlt, tick_of_gated (m := m.extend q) hf hw hlt]
    exact List.prefix_refl _
  · have hrun : (m.awake.run now).events <+: ((m.extend q).awake.run now).events :=
      (run_extend (m := m.awake) hip q).1
    have hnot : .finished ∉ (m.awake.run now).events := (m.awake.runs now).finished_notMem
    have hdrop : Event.dropFinished (m.awake.run now).events = (m.awake.run now).events :=
      List.filter_eq_self.2 fun e he => decide_eq_true fun h => hnot (h ▸ he)
    obtain ⟨c, hc⟩ := exists_events_tick hf hg
    obtain ⟨d, hd⟩ := exists_events_tick (m := m.extend q) hf hg
    rw [hc, hd, Event.dropFinished_closed, hdrop]
    exact hrun.trans (List.prefix_append _ _)

/-! ## Ticks in a row -/

/-- What the last tick preserves while none overruns: the machines differ in the code behind. -/
theorem obey_ticks_extend (hb : m.Bounded) (h : m.KeepsWithin times) (q : Program) :
    (m.extend q).obey (times.map .tick) = (m.obey (times.map .tick)).extend q := by
  induction times generalizing m with
  | nil => rfl
  | cons now times ih =>
    obtain ⟨hnow, hrest⟩ := h
    show ((m.extend q).tick now).machine.obey _ = _
    rw [tick_extend hb.ip_le hnow q]
    exact ih (hb.tick now) hrest

/-- **Code behind a program.** Load a program into a machine, and the same with more code behind it
into another one of the same policy. Ticked at the same times, they differ in that code alone while
no tick of the first overruns its program, and so do their answers to the next tick if this one does
not either. If it does, what the first reports but for the end is what the second reports first. -/
theorem extend_agrees (m : Machine) (p q : Program) {times : List Binary64}
    (h : (m.load p).KeepsWithin times) (now : Binary64) :
    let short := (m.load p).obey (times.map .tick)
    let long := (m.load (p ++ q)).obey (times.map .tick)
    long = short.extend q ∧
      (¬ (short.tick now).Overran → long.tick now = (short.tick now).extend q) ∧
      Event.dropFinished (short.tick now).events <+: (long.tick now).events := by
  intro short long
  have hlong : long = short.extend q := obey_ticks_extend (bounded_load m p) h q
  have hip : short.ip ≤ short.program.size := ((bounded_load m p).obey _).ip_le
  rw [hlong]
  exact ⟨rfl, fun hnow => tick_extend hip hnow q, dropFinished_tick_prefix hip q now⟩

/-- Behind a wait and a greeting an operand lacks two bytes, which the code behind supplies. -/
theorem extend_agrees_at_operand :
    let m := empty.load (.ofList [1, 1, 5, 0, 4, 63, 128])
    let n := empty.load (.ofList [1, 1, 5, 0, 4, 63, 128] ++ .ofList [0, 0])
    let short := (m.tick (.ofNat 0)).machine
    let long := (n.tick (.ofNat 0)).machine
    m.KeepsWithin [.ofNat 0] ∧ long = short.extend (.ofList [0, 0]) ∧
      (short.tick (.ofNat 1)).result = .error (.outOfRange 5 4 7) ∧
      (short.tick (.ofNat 1)).events = [.helloWorld] ∧
      Event.dropFinished (short.tick (.ofNat 1)).events <+: (long.tick (.ofNat 1)).events ∧
      (long.tick (.ofNat 1)).events =
        [.helloWorld, .printFloat (.ofNat 1) .operand, .finished] := by
  intro m n short long
  have hwithin : m.KeepsWithin [.ofNat 0] := by
    refine ⟨?_, trivial⟩
    have hip : (m.tick (.ofNat 0)).machine.ip ≠ (m.tick (.ofNat 0)).machine.program.size := by
      decide +kernel
    have hok : (m.tick (.ofNat 0)).result = .ok () := by decide +kernel
    rintro (h | ⟨_, _, _, h⟩)
    · exact hip h
    · rw [hok] at h
      cases h
  obtain ⟨hlong, -, hevents⟩ := extend_agrees empty _ (.ofList [0, 0]) hwithin (.ofNat 1)
  exact ⟨hwithin, hlong, by decide +kernel, by decide +kernel, hevents, by decide +kernel⟩

end Machine

end TickMachine
