import TickMachine.Proofs.Bounds
import TickMachine.Proofs.Pass

/-!
# Schedules

Time decides which ticks are held back, and nothing else: of those that are not, each comes to the
next segment of the program, whatever the times are.

The proof follows `segments`, the segments that a machine has still to come to: a tick takes the
first of them away (`segments_eq_cons`), or is held back and leaves them.
-/

namespace TickMachine

/-- What the response comes to, without its records. -/
def Response.segment (r : Response) : Segment :=
  ⟨r.events, r.result, r.machine.ip, r.machine.stack.toList⟩

namespace Machine

/-- The segments to come. -/
def segments (m : Machine) : Stream' Segment :=
  if m.faulted then .const ⟨[], .error .faulted, m.ip, m.stack.toList⟩
  else m.program.segmentsFrom m.policy m.ip m.stack.toList

/-- The number of ticks that are not held back. -/
def slices (m : Machine) : List Binary64 → Nat
  | [] => 0
  | now :: times => (if m.gated now then 0 else 1) + (m.tick now).machine.slices times

variable {m : Machine} {now : Binary64} {r : Response} {fault : Fault}

theorem segments_of_faulted (hf : m.faulted = true) :
    m.segments = .const ⟨[], .error .faulted, m.ip, m.stack.toList⟩ :=
  if_pos hf

theorem segments_of_not_faulted (hf : m.faulted = false) :
    m.segments = m.program.segmentsFrom m.policy m.ip m.stack.toList :=
  if_neg (Bool.eq_false_iff.1 hf)

theorem segments_load (m : Machine) (p : Program) : (m.load p).segments = p.segments m.policy :=
  p.segmentsFrom_start m.policy

/-! ## Runs -/

/-- The segment that a run through a program of the given size comes to. -/
def runSegment (size : Nat) (r : Response) : Segment :=
  match r.result with
  | .ok () => .closed size r.events r.machine.ip r.machine.stack.toList
  | .error fault => ⟨r.events, .error fault, r.machine.ip, r.machine.stack.toList⟩

/-- The segments to come after a run. -/
def runSegments (r : Response) : Stream' Segment :=
  match r.result with
  | .ok () => r.machine.segments
  | .error _ => .const ⟨[], .error .faulted, r.machine.ip, r.machine.stack.toList⟩

theorem runSegment_after_event (size : Nat) (r : Response) (m : Machine) (e : Event) :
    runSegment size (r.after (m.heading ++ [.event e])) = (runSegment size r).after e := by
  have hev : (r.after (m.heading ++ [.event e])).events = e :: r.events := by
    rw [Response.events_after, events_heading_append]
    rfl
  unfold runSegment
  rw [hev]
  show (match r.result with | .ok () => _ | .error fault => _) = _
  split <;> rfl

/-- A run comes to the first of the segments to come, and leaves the others. -/
theorem Runs.segments_eq_cons (h : Runs now m r) (hf : m.faulted = false)
    (hip : m.ip ≤ m.program.size) :
    m.segments = .cons (runSegment m.program.size r) (runSegments r) := by
  induction h with
  | @ended m h =>
    have hle := Program.decode_eq_ended_iff.1 (Program.move_eq_ended_iff.1 h)
    have hend : m.ip = m.program.size := Nat.le_antisymm hip hle
    have hclosed : Segment.closed m.program.size [] m.ip m.stack.toList =
        ⟨[.finished], .ok (), m.ip, m.stack.toList⟩ := by
      rw [Segment.closed, if_pos hend]
      rfl
    show m.segments = .cons (.closed m.program.size [] m.ip m.stack.toList) m.segments
    rw [segments_of_not_faulted hf, Program.segmentsFrom_of_ended h, hclosed, ← Stream'.const_eq]
    exact Stream'.const_eq _
  | @skipped m b r h hr ih =>
    have hlt := Program.lt_size_of_move_skipped h
    rw [segments_of_not_faulted hf, Program.segmentsFrom_of_skipped h]
    exact (segments_of_not_faulted (m := { m with ip := m.ip + 1 }) hf).symm.trans (ih hf hlt)
  | @executed m e ip t r h he hr ih =>
    obtain ⟨-, hle⟩ := Program.lt_of_move_executed h (by rintro rfl; cases he)
    have hnext := segments_of_not_faulted (m := { m with ip, stack := t }) hf
    rw [segments_of_not_faulted hf, Program.segmentsFrom_of_executed h he, ← hnext, ih hf hle,
      runSegment_after_event]
    rfl
  | @waited m amount ip t h =>
    let wake := some (now + .ofNat amount.toNat)
    have hnext := segments_of_not_faulted (m := { m with ip, stack := t, wake }) hf
    rw [segments_of_not_faulted hf, Program.segmentsFrom_of_waited h, runSegment, runSegments,
      hnext, Response.events, events_heading_append]
    rfl
  | @restarted m t h =>
    obtain ⟨i, -, hy, -⟩ := Program.move_eq_executed_iff.1 h
    obtain ⟨-, ht⟩ := Instruction.yields_restart_iff.1 hy
    have hnext := segments_of_not_faulted (m := { m with ip := 0, stack := t }) hf
    rw [segments_of_not_faulted hf, Program.segmentsFrom_of_restarted h, runSegment, runSegments,
      hnext, Response.events, events_heading_append, ← Program.segmentsFrom_start, ht]
    rfl
  | @failed m fault ip h =>
    rw [segments_of_not_faulted hf, Program.segmentsFrom_of_failed h, runSegment, Response.events,
      events_heading]
    rfl

theorem Runs.ip_le (h : Runs now m r) (hip : m.ip ≤ m.program.size) :
    r.machine.ip ≤ m.program.size := by
  induction h with
  | ended h => exact hip
  | skipped h hr ih => exact ih (Program.lt_size_of_move_skipped h)
  | executed h he hr ih => exact ih (Program.lt_of_move_executed h (by rintro rfl; cases he)).2
  | waited h => exact (Program.lt_of_move_executed h (by simp)).2
  | restarted h => exact Nat.zero_le _
  | failed h => exact (Program.move_eq_failed_iff.1 h).next_le.2

/-! ## Ticks -/

/-- A tick that is not held back comes to the first of the segments to come, and leaves the
others. -/
theorem segments_eq_cons (hb : m.Bounded) (hg : m.gated now = false) :
    m.segments = .cons (m.tick now).segment (m.tick now).machine.segments := by
  have hawake : m.segments = m.awake.segments := rfl
  have ht := m.ticked now
  generalize m.tick now = r at ht ⊢
  cases ht with
  | faulted hf =>
    rw [segments_of_faulted hf]
    exact Stream'.const_eq _
  | gated hf hw hlt =>
    rw [gated_eq_true_iff.2 ⟨_, hw, hlt⟩] at hg
    cases hg
  | @stopped r hf hg' hrun hr =>
    have hle : r.machine.ip ≤ m.program.size := hrun.ip_le hb.ip_le
    have hfin : r.machine.isFinished = true ↔ r.machine.ip = m.program.size := by
      rw [isFinished, decide_eq_true_iff, show r.machine.program = m.program from hrun.frame.1]
      omega
    rw [hawake, hrun.segments_eq_cons hf hb.ip_le, runSegment, runSegments, hr, Response.segment,
      events_stopped]
    simp only [Segment.closed, hfin]
    rfl
  | @failed r fault hf hg' hrun hr =>
    have hstop := segments_of_faulted (m := { r.machine with faulted := true }) rfl
    rw [hawake, hrun.segments_eq_cons hf hb.ip_le, runSegment, runSegments, hr, Response.segment,
      events_failed, hstop]

theorem tick_of_wake (hb : m.Bounded) {wake : Binary64} (hw : m.wake = some wake)
    (hlt : now < wake) : m.tick now = ⟨m, [.event (.waiting (wake - now).ceil)], .ok ()⟩ :=
  tick_of_gated (hb.waits wake hw).1 hw hlt

/-- Each tick that is not held back takes one segment away. -/
theorem segments_obey (hb : m.Bounded) (times : List Binary64) :
    (m.obey (times.map .tick)).segments = m.segments.drop (m.slices times) := by
  induction times generalizing m with
  | nil => rfl
  | cons now times ih =>
    rw [List.map_cons, obey_cons, slices]
    show ((m.tick now).machine.obey _).segments = _
    rw [ih (hb.tick now)]
    cases hg : m.gated now with
    | true =>
      obtain ⟨wake, hw, hlt⟩ := gated_eq_true_iff.1 hg
      rw [tick_of_wake hb hw hlt, if_pos rfl, Nat.zero_add]
    | false =>
      rw [segments_eq_cons hb hg, if_neg Bool.false_ne_true, Nat.add_comm 1, Stream'.drop_succ,
        Stream'.tail_cons]

/-- **Schedules.** Tick a machine at any times after a load. The next tick is held back and changes
nothing, or it comes to the segment of the program whose index is the number of ticks before it that
were not held back. -/
theorem tick_eq_segment (m : Machine) (p : Program) (times : List Binary64) (now : Binary64) :
    let n := (m.load p).obey (times.map .tick)
    (∀ wake, n.wake = some wake → now < wake →
        n.tick now = ⟨n, [.event (.waiting (wake - now).ceil)], .ok ()⟩) ∧
      (n.gated now = false →
        (n.tick now).segment = (p.segments m.policy).get ((m.load p).slices times)) := by
  intro n
  have hb : n.Bounded := (bounded_load m p).obey _
  refine ⟨fun wake hw hlt => tick_of_wake hb hw hlt, fun hg => ?_⟩
  have hsegs : n.segments = (p.segments m.policy).drop ((m.load p).slices times) := by
    rw [← segments_load]
    exact segments_obey (bounded_load m p) times
  have hhead := congrArg Stream'.head hsegs
  rw [segments_eq_cons hb hg, Stream'.head_cons, Stream'.head_drop] at hhead
  exact hhead

end Machine

end TickMachine
