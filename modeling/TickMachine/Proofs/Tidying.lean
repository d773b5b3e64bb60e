import TickMachine.Proofs.Alignment
import TickMachine.Proofs.Progress
import TickMachine.Proofs.Strays

/-!
# Tidying a machine

A tolerant machine does the same without the strays of its program. `Machine.tidy` takes them out
while the machine stands between two items: its pointer goes along, and all else stays.

Only a step over a stray has no counterpart; all others have one, with the positions in it shifted
(`step_tidy`). So a run has the tidied run for its counterpart, notes on strays apart (`run_tidy`).
Ticks differ in one thing more: behind a wait that nothing but strays follow, the tidy machine
reports the end at once (`tidy_trails`).
-/

namespace TickMachine

/-- The fault in the program without strays. -/
def Fault.shift (p : Program) : Fault → Fault
  | outOfRange pos needed size => outOfRange (p.shift pos) needed (p.shift size)
  | fault => fault

/-- The record in the program without strays, if there is one. -/
def Record.tidy? (p : Program) : Record → Option Record
  | ignored _ _ => none
  | dispatch ip op => some (dispatch (p.shift ip) op)
  | suspended ip wake => some (suspended (p.shift ip) wake)
  | faulted fault ip => some (faulted (fault.shift p) (p.shift ip))
  | r => some r

def Record.tidy (p : Program) (rs : List Record) : List Record := rs.filterMap (tidy? p)

/-- The events but for those that report the end. -/
def Event.dropFinished (es : List Event) : List Event := es.filter (· ≠ .finished)

namespace Machine

/-- The machine with a program without strays, at the same item. -/
def tidy (m : Machine) : Machine :=
  { m with program := m.program.tidy, ip := m.program.shift m.ip }

def Step.tidy (p : Program) : Step → Step
  | .ended => .ended
  | .continued n rs => .continued n.tidy (Record.tidy p rs)
  | .suspended n rs => .suspended n.tidy (Record.tidy p rs)
  | .failed fault n rs => .failed (fault.shift p) n.tidy (Record.tidy p rs)

end Machine

def Response.tidy (p : Program) (r : Response) : Response :=
  ⟨r.machine.tidy, Record.tidy p r.records, r.result.mapError (Fault.shift p)⟩

/-! ## Records and events -/

@[simp] theorem Record.tidy_append (p : Program) (rs ss : List Record) :
    tidy p (rs ++ ss) = tidy p rs ++ tidy p ss :=
  List.filterMap_append

/-- Strays make no events. -/
theorem Record.events_tidy (p : Program) (rs : List Record) : events (tidy p rs) = events rs := by
  unfold events tidy
  rw [List.filterMap_filterMap]
  congr
  funext r
  cases r <;> rfl

theorem Response.tidy_after (p : Program) (r : Response) (rs : List Record) :
    (r.after rs).tidy p = (r.tidy p).after (Record.tidy p rs) := by
  unfold tidy after
  rw [Record.tidy_append]

theorem Response.events_tidy (p : Program) (r : Response) : (r.tidy p).events = r.events :=
  Record.events_tidy p r.records

theorem Event.dropFinished_closed (es : List Event) (c : Bool) :
    dropFinished (es ++ if c then [.finished] else []) = dropFinished es := by
  unfold dropFinished
  rw [List.filter_append]
  cases c <;> exact List.append_nil _

namespace Machine

variable {m n : Machine} {now : Binary64} {rs : List Record}

/-! ## Steps -/

/-- Faults of an instruction tell of the stack and not of positions. -/
theorem shift_of_execute_eq_error {i : Instruction} {s t : Stack} {fault : Fault}
    (h : i.execute s = .error fault t) (p : Program) : fault.shift p = fault := by
  have heffect := i.execute_effect s
  cases he : i.effect s.toList with
  | ok r =>
    rw [he] at heffect
    obtain ⟨t, ht, -⟩ := heffect
    rw [h] at ht
    cases ht
  | error fault =>
    rw [he] at heffect
    rw [h] at heffect
    cases heffect
    rcases Instruction.effect_eq_error_iff.1 he with ⟨_, _, _, rfl⟩ | ⟨_, rfl⟩ <;> rfl

theorem tidy_heed (m : Machine) (now : Binary64) (e : Event) :
    (m.heed now e).tidy = m.tidy.heed now e := by
  cases e with
  | restart =>
    unfold heed tidy
    rw [Program.shift_zero]
  | _ => rfl

/-- The pointer goes along where the position does. -/
theorem tidy_move {w : Nat} (h : m.program.shift (m.ip + w) = m.program.shift m.ip + w)
    (stack : Stack) :
    tidy { m with ip := m.ip + w, stack } = { m.tidy with ip := m.tidy.ip + w, stack } := by
  unfold tidy
  dsimp only
  rw [h]

/-- Away from strays, the tidy machine makes the same step. -/
theorem step_tidy (hb : m.program.listing.IsBoundary m.ip)
    (hd : ∀ b, m.program.decode m.ip ≠ .unknown b) (now : Binary64) :
    m.tidy.step now = (m.step now).tidy m.program := by
  have htidy : m.tidy.program.decode m.tidy.ip = m.program.decode m.ip :=
    Program.decode_tidy hb hd
  unfold step
  rw [htidy]
  cases h : m.program.decode m.ip with
  | ended => rfl
  | unknown b => exact absurd h (hd b)
  | truncated op =>
    have hnext := Program.shift_succ_of_truncated hb h
    have hsize : m.tidy.program.size = m.program.shift m.program.size := m.program.shift_size.symm
    have hfault : Fault.outOfRange (m.tidy.ip + 1) op.operandWidth m.tidy.program.size =
        Fault.shift m.program (.outOfRange (m.ip + 1) op.operandWidth m.program.size) := by
      rw [Fault.shift, hnext, hsize]
      rfl
    dsimp only
    rw [hfault]
    exact congrArg (Step.failed _ · _) (tidy_move hnext m.stack).symm
  | instruction i =>
    have hnext := (Program.next_of_instruction hb h).2
    have hexecute : i.execute m.tidy.stack = i.execute m.stack := rfl
    dsimp only
    rw [hexecute]
    cases hx : i.execute m.stack with
    | error fault stack =>
      dsimp only
      rw [Step.tidy, shift_of_execute_eq_error hx, tidy_move hnext]
      rfl
    | ok e stack =>
      dsimp only
      rw [← tidy_move hnext, ← tidy_heed]
      cases e <;> rfl

/-- A step over a stray does nothing to the tidy machine. -/
theorem tidy_of_unknown {b : UInt8} (hb : m.program.listing.IsBoundary m.ip)
    (h : m.program.decode m.ip = .unknown b) : tidy { m with ip := m.ip + 1 } = m.tidy := by
  unfold tidy
  dsimp only
  rw [(Program.next_of_unknown hb h).2]

theorem isBoundary_of_continued (hb : m.program.listing.IsBoundary m.ip)
    (hs : m.step now = .continued n rs) : n.program.listing.IsBoundary n.ip := by
  have hst := m.stepped now
  rw [hs] at hst
  cases hst with
  | skipped h => exact (Program.next_of_unknown hb (Program.move_eq_skipped_iff.1 h).1).1
  | executed h he =>
    obtain ⟨i, hd, -, rfl⟩ := Program.move_eq_executed_iff.1 h
    rw [if_neg (by rintro rfl; cases he)]
    exact (Program.next_of_instruction hb hd).1

/-! ## Runs -/

/-- The tidy machine runs as the machine does. -/
theorem run_tidy (hp : m.policy = .ignore) (hb : m.program.listing.IsBoundary m.ip)
    (now : Binary64) : m.tidy.run now = (m.run now).tidy m.program := by
  induction m using run_induction now with
  | step m ih =>
    by_cases hd : ∃ b, m.program.decode m.ip = .unknown b
    -- Over a stray the machine moves and the tidy one does not, so there is no step to compare.
    · obtain ⟨b, hd⟩ := hd
      have hs : m.step now = .continued { m with ip := m.ip + 1 } [.ignored m.ip b] :=
        step_of_skipped (Program.move_eq_skipped_iff.2 ⟨hd, hp⟩)
      rw [run_of_continued hs, Response.tidy_after, ← tidy_of_unknown hb hd]
      exact ih _ _ hs hp (isBoundary_of_continued hb hs)
    · have hstep := step_tidy hb (not_exists.1 hd) now
      cases hs : m.step now with
      | ended =>
        rw [hs] at hstep
        rw [run_of_ended hs, run_of_ended hstep]
        rfl
      | continued n rs =>
        rw [hs] at hstep
        obtain ⟨hprogram, hpolicy, -, -⟩ := frame_of_continued hs
        rw [run_of_continued hs, run_of_continued hstep, Response.tidy_after, ← hprogram,
          ih n rs hs (hpolicy.trans hp) (isBoundary_of_continued hb hs)]
      | suspended n rs =>
        rw [hs] at hstep
        rw [run_of_suspended hs, run_of_suspended hstep]
        rfl
      | failed fault n rs =>
        rw [hs] at hstep
        rw [run_of_failed hs, run_of_failed hstep]
        rfl

/-! ## Ticks -/

/-- A machine that has not failed stands between two items. -/
def Aligned (m : Machine) : Prop := m.faulted = false → m.program.listing.IsBoundary m.ip

theorem Aligned.tick (hm : m.Aligned) (now : Binary64) : (m.tick now).machine.Aligned := by
  intro hnext
  have hf : m.faulted = false := by
    refine Bool.eq_false_iff.2 fun hf => ?_
    rw [tick_of_faulted hf] at hnext
    exact Bool.false_ne_true (hnext.symm.trans hf)
  refine (isBoundary_tick hf (hm hf) now).resolve_right fun ⟨pos, needed, size, hr⟩ => ?_
  rw [faulted_tick_iff.2 ⟨_, hr⟩] at hnext
  cases hnext

theorem tick_tidy (hp : m.policy = .ignore) (hm : m.Aligned) (now : Binary64) :
    (m.tidy.tick now).machine = (m.tick now).machine.tidy ∧
      Event.dropFinished (m.tidy.tick now).events = Event.dropFinished (m.tick now).events ∧
      (m.tidy.tick now).result = (m.tick now).result.mapError (Fault.shift m.program) := by
  rcases m.tick_cases now with hf | ⟨wake, hf, hw, hlt⟩ | ⟨hf, hg⟩
  · rw [tick_of_faulted hf, tick_of_faulted (m := m.tidy) hf]
    exact ⟨rfl, rfl, rfl⟩
  · rw [tick_of_gated hf hw hlt, tick_of_gated (m := m.tidy) hf hw hlt]
    exact ⟨rfl, rfl, rfl⟩
  have hrun : m.tidy.awake.run now = (m.awake.run now).tidy m.program :=
    run_tidy (m := m.awake) hp (hm hf) now
  rw [tick_of_ready hf hg, tick_of_ready (m := m.tidy) hf hg]
  generalize hr : m.awake.run now = r at hrun
  cases hres : r.result with
  | ok =>
    have hok : (m.tidy.awake.run now).result = .ok () := by
      rw [hrun, Response.tidy, hres]
      rfl
    rw [slice_of_ok (m := m.awake) (by rw [hr]; exact hres), slice_of_ok hok, hr, hrun]
    refine ⟨rfl, ?_, rfl⟩
    show Event.dropFinished (Response.events ⟨_, m.tidy.waking ++ _, _⟩) =
      Event.dropFinished (Response.events ⟨_, m.waking ++ _, _⟩)
    rw [events_stopped, events_stopped, Event.dropFinished_closed, Event.dropFinished_closed,
      Response.events_tidy]
  | error fault =>
    have herr : (m.tidy.awake.run now).result = .error (fault.shift m.program) := by
      rw [hrun, Response.tidy, hres]
      rfl
    rw [slice_of_error (m := m.awake) (by rw [hr]; exact hres), slice_of_error herr, hr, hrun]
    refine ⟨rfl, ?_, rfl⟩
    show Event.dropFinished (Response.events ⟨_, m.tidy.waking ++ _, _⟩) =
      Event.dropFinished (Response.events ⟨_, m.waking ++ _, _⟩)
    rw [events_failed, events_failed, Response.events_tidy]

theorem obey_ticks_tidy (hp : m.policy = .ignore) (hm : m.Aligned) (times : List Binary64) :
    m.tidy.obey (times.map .tick) = (m.obey (times.map .tick)).tidy ∧
      (m.obey (times.map .tick)).Aligned := by
  induction times generalizing m with
  | nil => exact ⟨rfl, hm⟩
  | cons now times ih =>
    have hnext := ih ((m.tick_frame now).2.trans hp) (hm.tick now)
    rwa [← (tick_tidy hp hm now).1] at hnext

/-- **Tidying.** Load a program into a tolerant machine, and the same without its strays into another
one. Ticked at the same times the machines hold the same but for program and pointer, and the pointer
of the second is short of the first by the strays before it. They report the same but for the end, and
fail alike, the positions in a fault shifted too. -/
theorem tidy_trails (m : Machine) (p : Program) :
    (∀ pos, p.shift pos + p.straysBefore pos = pos) ∧
      ∀ (times : List Binary64) (now : Binary64),
        let long := (((m.configure .ignore).load p).obey (times.map .tick)).tick now
        let short := (((m.configure .ignore).load p.tidy).obey (times.map .tick)).tick now
        short.machine =
            { long.machine with program := p.tidy, ip := p.shift long.machine.ip } ∧
          Event.dropFinished short.events = Event.dropFinished long.events ∧
          short.result = long.result.mapError (Fault.shift p) := by
  refine ⟨p.shift_add_straysBefore, fun times now => ?_⟩
  intro long short
  have hload : (m.configure .ignore).load p.tidy = ((m.configure .ignore).load p).tidy := by
    unfold tidy load
    rw [p.shift_zero]
  have haligned : ((m.configure .ignore).load p).Aligned := fun _ => isBoundary_load _ p
  obtain ⟨hobey, hm⟩ := obey_ticks_tidy rfl haligned times
  obtain ⟨hprogram, hpolicy⟩ := obey_ticks_frame ((m.configure .ignore).load p) times
  obtain ⟨hmachine, hevents, hresult⟩ := tick_tidy hpolicy hm now
  have hlong : long.machine.program = p := (tick_frame _ now).1.trans hprogram
  rw [← hobey, ← hload] at hmachine hevents hresult
  refine ⟨?_, hevents, ?_⟩
  · rw [hmachine, tidy, hlong]
  · rw [hresult, hprogram]
    rfl

end Machine

end TickMachine
