import TickMachine.Proofs.Observation
import TickMachine.Proofs.Schedule

/-!
# Ticks put in while a wait is pending

A host that ticks too often does no harm. Take a run apart into the commands that are given and
extra ticks between them; it is `Paused` if each extra tick comes before the time of a pending wait.

`extra_unnoticed`: with the extra ticks and without them the commands have the same replies, and an
extra tick only says how long the wait still lasts.
-/

namespace TickMachine

/-- A command that is given, or a tick that is put in. -/
inductive Part where
  | given (c : Command)
  | extra (now : Binary64)
  deriving DecidableEq

namespace Part

def command : Part → Command
  | given c => c
  | extra now => .tick now

def given? : Part → Option Command
  | given c => some c
  | extra _ => none

def isGiven (p : Part) : Bool := p.given?.isSome

end Part

namespace Machine

/-- Each extra tick comes before the time of a wait that is pending then. -/
def Paused (m : Machine) : List Part → Prop
  | [] => True
  | .given c :: ps => (m.perform c).machine.Paused ps
  | .extra now :: ps => m.gated now = true ∧ (m.tick now).machine.Paused ps

variable {m : Machine} {now : Binary64} {ps : List Part}

theorem Bounded.exists_tick_eq_of_gated (hb : m.Bounded) (hg : m.gated now = true) :
    ∃ wake, m.wake = some wake ∧ now < wake ∧
      m.tick now = ⟨m, [.event (.waiting (wake - now).ceil)], .ok ()⟩ := by
  obtain ⟨wake, hw, hlt⟩ := gated_eq_true_iff.1 hg
  exact ⟨wake, hw, hlt, tick_of_wake hb hw hlt⟩

/-- The extra ticks leave the machine as it is. -/
theorem Paused.obey_eq (h : m.Paused ps) (hb : m.Bounded) :
    m.obey (ps.map Part.command) = m.obey (ps.filterMap Part.given?) := by
  induction ps generalizing m with
  | nil => rfl
  | cons p ps ih =>
    cases p with
    | given c => exact ih h (hb.perform c)
    | extra now =>
      obtain ⟨hg, hrest⟩ := h
      obtain ⟨wake, -, -, htick⟩ := hb.exists_tick_eq_of_gated hg
      rw [htick] at hrest
      show (m.tick now).machine.obey _ = _
      rw [htick]
      exact ih hrest hb

end Machine

namespace Session

/-- The replies to all parts of a run, each beside its part. -/
def answers (s : Session EventLog) (ps : List Part) : List (Part × Reply) :=
  ps.zip (s.replies (ps.map Part.command))

variable {s : Session EventLog} {ps : List Part} {now : Binary64}

theorem answers_cons (s : Session EventLog) (p : Part) (ps : List Part) :
    s.answers (p :: ps) = (p, ⟨(s.machine.perform p.command).result,
      (s.machine.perform p.command).events, (s.machine.perform p.command).machine.view⟩) ::
        (s.perform p.command).2.answers ps := by
  unfold answers
  rw [List.map_cons, replies_cons, List.zip_cons_cons]

/-- The log grows by what the parts are answered. -/
theorem events_obey_command (s : Session EventLog) (ps : List Part) :
    (s.obey (ps.map Part.command)).sink.events.toList =
      s.sink.events.toList ++ (s.answers ps).flatMap (·.2.events) := by
  induction ps generalizing s with
  | nil => exact (List.append_nil _).symm
  | cons p ps ih =>
    rw [List.map_cons, obey_cons, ih, events_perform, answers_cons, List.flatMap_cons,
      List.append_assoc]

/-- Only the machine decides the replies. -/
theorem replies_perform_of_machine_eq {c : Command} (h : (s.perform c).2.machine = s.machine)
    (cs : List Command) : (s.perform c).2.replies cs = s.replies cs :=
  indistinguishable_of_view_eq (congrArg Machine.view h) cs

/-- The commands that are given have the replies that they have without the extra ticks. -/
theorem map_answers_isGiven (hb : s.machine.Bounded) (h : s.machine.Paused ps) :
    ((s.answers ps).filter (·.1.isGiven)).map Prod.snd = s.replies (ps.filterMap Part.given?) := by
  induction ps generalizing s with
  | nil => rfl
  | cons p ps ih =>
    rw [answers_cons]
    cases p with
    | given c =>
      have hrest := ih (s := (s.perform c).2) (hb.perform c) h
      show _ = s.replies (c :: ps.filterMap Part.given?)
      rw [replies_cons]
      exact congrArg (List.cons _) hrest
    | extra now =>
      obtain ⟨hg, hrest⟩ := h
      obtain ⟨wake, -, -, htick⟩ := hb.exists_tick_eq_of_gated hg
      -- Only the log has changed, and no reply depends on the log.
      have hmachine : (s.perform (.tick now)).2.machine = s.machine :=
        congrArg Response.machine htick
      show List.map Prod.snd (List.filter _ ((s.perform (.tick now)).2.answers ps)) = _
      rw [ih (by rwa [hmachine]) hrest]
      exact replies_perform_of_machine_eq hmachine _

/-- An extra tick is answered with the time left. -/
theorem answer_of_extra (hb : s.machine.Bounded) (h : s.machine.Paused ps) {r : Reply}
    (hr : (.extra now, r) ∈ s.answers ps) :
    ∃ wake, r.view.wake = some wake ∧ now < wake ∧ r.result = .ok () ∧
      r.events = [.waiting (wake - now).ceil] := by
  induction ps generalizing s with
  | nil => cases hr
  | cons p ps ih =>
    rw [answers_cons, List.mem_cons] at hr
    cases p with
    | given c =>
      rcases hr with hr | hr
      · cases hr
      · exact ih (s := (s.perform c).2) (hb.perform c) h hr
    | extra later =>
      obtain ⟨hg, hrest⟩ := h
      rcases hr with hr | hr
      · cases hr
        obtain ⟨wake, hw, hlt, htick⟩ := hb.exists_tick_eq_of_gated hg
        refine ⟨wake, ?_, hlt, ?_, ?_⟩
        · show (s.machine.tick now).machine.wake = _
          rw [htick, hw]
        · exact congrArg Response.result htick
        · exact congrArg Response.events htick
      · exact ih (s := (s.perform (.tick later)).2) (hb.tick later) hrest hr

/-- **Extra ticks.** Put ticks into a run wherever a wait is pending, at times before it is over, or
take such ticks out. The commands of the run have the same replies, so the machine shows the same
after each of them, and in the end it is the same machine. An extra tick succeeds and reports the
time left, and this is all that it adds to the log. -/
theorem extra_unnoticed (log : EventLog) {ps : List Part} (h : Machine.empty.Paused ps) :
    let s := new log
    let own := ps.filterMap Part.given?
    let all := ps.map Part.command
    ((s.answers ps).filter (·.1.isGiven)).map Prod.snd = s.replies own ∧
      (s.obey all).machine = (s.obey own).machine ∧
      (∀ now r, (.extra now, r) ∈ s.answers ps →
        ∃ wake, r.view.wake = some wake ∧ now < wake ∧ r.result = .ok () ∧
          r.events = [.waiting (wake - now).ceil]) ∧
      (s.obey all).sink.events.toList =
        log.events.toList ++ (s.answers ps).flatMap (·.2.events) ∧
      (s.obey own).sink.events.toList =
        log.events.toList ++ ((s.answers ps).filter (·.1.isGiven)).flatMap (·.2.events) := by
  intro s own all
  have hb : s.machine.Bounded := Machine.bounded_obey []
  have hreplies := map_answers_isGiven (s := s) hb h
  refine ⟨hreplies, ?_, fun now r => answer_of_extra hb h, s.events_obey_command ps, ?_⟩
  · rw [machine_obey, machine_obey]
    exact h.obey_eq hb
  · rw [s.events_obey, ← hreplies, List.flatMap_map]
    rfl

/-- Ticks at earlier times, also back in time, between a wait on the last byte and its end. -/
theorem extra_unnoticed_at_end :
    let own : List Command := [.load (.ofList [1, 2, 5]), .tick (.ofNat 0), .configure .fatal,
      .tick (.ofNat 2)]
    let ps : List Part := [.given (.load (.ofList [1, 2, 5])), .given (.tick (.ofNat 0)),
      .extra (.ofNat 1), .extra (.ofNat 0), .given (.configure .fatal),
      .extra (.infinity true), .given (.tick (.ofNat 2))]
    let s := new EventLog.empty
    Machine.empty.Paused ps ∧
      ((s.answers ps).filter (·.1.isGiven)).map Prod.snd = s.replies own ∧
      (s.obey own).sink.events = #[.set 2, .wait 2, .finished, .finished] ∧
      (s.obey (ps.map Part.command)).sink.events =
        #[.set 2, .wait 2, .finished, .waiting (.ofNat 1), .waiting (.ofNat 2),
          .waiting (.infinity false), .finished] := by
  intro own ps s
  have hpaused : Machine.empty.Paused ps := by
    refine ⟨?_, ?_, ?_, trivial⟩ <;> decide +kernel
  obtain ⟨hreplies, -⟩ := extra_unnoticed .empty hpaused
  exact ⟨hpaused, hreplies, by decide +kernel, by decide +kernel⟩

end Session

end TickMachine
