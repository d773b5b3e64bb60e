import TickMachine.Machine.Tick

/-!
# Sessions

A session is a machine and a sink for what it notes. The host gives commands; the machine answers,
and the sink takes in every record. What the machine does never depends on the sink.
-/

namespace TickMachine

inductive Command where
  | load (p : Program)
  | configure (policy : UnknownPolicy)
  | tick (now : Binary64)
  deriving DecidableEq, Repr

/-- The time of a tick; the other commands have none. -/
def Command.now? : Command → Option Binary64
  | tick now => some now
  | _ => none

/-- Obeys a command. -/
def Machine.perform (m : Machine) : Command → Response
  | .load p => ⟨m.load p, [.loaded p.size], .ok ()⟩
  | .configure policy => ⟨m.configure policy, [], .ok ()⟩
  | .tick now => m.tick now

/-- Takes in records, in their order. `now` is the time of the tick they belong to. -/
class Sink (σ : Type) where
  accept (sink : σ) (now : Option Binary64) (r : Record) : σ

/-- The events of a session, from the first on. -/
structure EventLog where
  events : Array Event
  deriving DecidableEq, Repr

namespace EventLog

def empty : EventLog := ⟨#[]⟩

/-- Keeps the events alone. -/
instance : Sink EventLog where
  accept log _ r :=
    match r.event? with
    | some e => ⟨log.events.push e⟩
    | none => log

end EventLog

structure Session (σ : Type) where
  machine : Machine
  sink : σ

/-- Gives a command. -/
def Session.perform {σ : Type} [Sink σ] (s : Session σ) (c : Command) :
    Except Fault Unit × Session σ :=
  let r := s.machine.perform c
  (r.result, ⟨r.machine, r.records.foldl (Sink.accept · c.now?) s.sink⟩)

theorem EventLog.foldl_accept (log : EventLog) (now : Option Binary64) (rs : List Record) :
    rs.foldl (Sink.accept · now) log = ⟨log.events ++ Record.events rs⟩ := by
  induction rs generalizing log with
  | nil => simp
  | cons r rs ih =>
    rw [List.foldl_cons, ih]
    cases h : r.event? <;> simp [Sink.accept, Record.events, h]

end TickMachine
