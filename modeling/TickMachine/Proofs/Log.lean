import TickMachine.Log
import TickMachine.Proofs.Commands

/-!
# What is logged

The lines of commands (`Machine.lines`) come from the machine alone. A log takes them in one after
the other, and leaves out those that it is too terse for: `Session.sink_obey`.

`log_follows_events` compares the two sinks. Under the same commands they see the same machine and
the same results, the event lines are the texts of the events that are collected, and the log of every
level is what that level admits of the log of all lines.
-/

namespace TickMachine

/-! ## Lines -/

/-- The line as a log of the given level writes it. The two lowest levels name the tick. -/
def LogLine.written (least : Level) (line : LogLine) : String :=
  let span := if least = .debug ∨ least = .trace then line.span else ""
  s!"{line.level.name} {span}{line.target}: {line.message}"

theorem LogLine.render?_of_not_admits {v : Verbosity} {line : LogLine}
    (h : ¬ v.admits line.level = true) : line.render? v = none :=
  if_neg h

/-- A log writes the lines that are as severe as its level or more. -/
theorem LogLine.render?_upTo (least : Level) (line : LogLine) : line.render? (.upTo least) =
    if line.level.rank ≤ least.rank then some (line.written least) else none := by
  have hspan : (if (Verbosity.upTo least).admits .debug then line.span else "") =
      if least = .debug ∨ least = .trace then line.span else "" := by
    cases least <;> rfl
  unfold render? written
  rw [hspan]
  simp [Verbosity.admits]

/-- Among the lines of records those of the events have a target of their own, and the texts of the
events for messages. -/
theorem Record.filter_target (rs : List Record) (now : Option Binary64) :
    (rs.map (·.line now)).filter (·.target == "bytevm::event") =
      (Record.events rs).map fun e => ⟨.info, now, "bytevm::event", e.text⟩ := by
  induction rs with
  | nil => rfl
  | cons r rs ih =>
    rw [List.map_cons, List.filter_cons, ih]
    cases r <;> rfl

/-! ## Logs -/

namespace TraceLog

variable (log : TraceLog)

/-- The log with those of the lines added that are wanted. -/
def append (ls : List LogLine) : TraceLog :=
  { log with lines := log.lines ++ (ls.filterMap (·.render? log.verbosity)).toArray }

@[simp] theorem append_nil : log.append [] = log := by simp [append]

@[simp] theorem append_append (ls ks : List LogLine) :
    (log.append ls).append ks = log.append (ls ++ ks) := by
  simp [append]

theorem write_eq_append (line : LogLine) : log.write line = log.append [line] := by
  unfold write append
  cases h : line.render? log.verbosity with
  | none => simp [h]
  | some text => simp [h]

/-- A record of a level that is not wanted has no line that is. -/
theorem accept_eq_append (now : Option Binary64) (r : Record) :
    Sink.accept log now r = log.append [r.line now] := by
  show (if log.verbosity.admits r.level then log.write (r.line now) else log) = _
  rw [write_eq_append]
  by_cases h : log.verbosity.admits r.level = true
  · rw [if_pos h]
  · have hrender : (r.line now).render? log.verbosity = none := LogLine.render?_of_not_admits h
    rw [if_neg h, append]
    simp [hrender]

theorem foldl_accept (now : Option Binary64) (rs : List Record) :
    rs.foldl (Sink.accept · now) log = log.append (rs.map (·.line now)) := by
  induction rs generalizing log with
  | nil => exact (append_nil log).symm
  | cons r rs ih =>
    rw [List.foldl_cons, ih, accept_eq_append, append_append]
    rfl

/-- What a log of a level holds of the lines. -/
theorem lines_append_empty (least : Level) (ls : List LogLine) :
    ((empty (.upTo least)).append ls).lines.toList =
      (ls.filter fun l => l.level.rank ≤ least.rank).map (·.written least) := by
  have hrender : (fun l : LogLine => l.render? (.upTo least)) =
      fun l => if l.level.rank ≤ least.rank then some (l.written least) else none := by
    funext l
    exact l.render?_upTo least
  have hlines : ((empty (.upTo least)).append ls).lines.toList =
      ls.filterMap fun l => l.render? (.upTo least) := by
    simp [append, empty]
  rw [hlines, hrender, ← List.filterMap_eq_map, List.filterMap_filter]
  simp

end TraceLog

/-! ## Sessions -/

/-- The lines of commands given one after the other, before any is left out. -/
def Machine.lines (m : Machine) : List Command → List LogLine
  | [] => []
  | c :: cs => (m.perform c).records.map (·.line c.now?) ++ (m.perform c).machine.lines cs

theorem Machine.lines_append (m : Machine) (cs ds : List Command) :
    m.lines (cs ++ ds) = m.lines cs ++ (m.obey cs).lines ds := by
  induction cs generalizing m with
  | nil => rfl
  | cons c cs ih =>
    rw [List.cons_append, lines, ih, ← List.append_assoc]
    rfl

namespace Session

/-- A log takes in the lines of the commands, and the machine goes on as with any other sink. -/
theorem sink_obey (s : Session TraceLog) (cs : List Command) :
    (s.obey cs).sink = s.sink.append (s.machine.lines cs) := by
  induction cs generalizing s with
  | nil => exact (TraceLog.append_nil _).symm
  | cons c cs ih =>
    have hsink : (s.perform c).2.sink =
        s.sink.append ((s.machine.perform c).records.map (·.line c.now?)) :=
      TraceLog.foldl_accept s.sink c.now? _
    rw [obey_cons, ih, hsink, TraceLog.append_append]
    rfl

/-- **The log.** After the same commands, a session that collects events and one that logs have the
same machine, and give the next command the same result. The lines of that command are added to the
log if they are wanted; those of the target of events are, in their order, the texts of the events that
the command adds to the collection. The log of a level holds the lines of the whole log that are as
severe or more, written alike but for the tick. -/
theorem log_follows_events (events : EventLog) (log : TraceLog) (cs : List Command) (c : Command) :
    let s := (new events).obey cs
    let t := (new log).obey cs
    let logAt (least : Level) := ((new (TraceLog.empty (.upTo least))).obey cs).sink.lines.toList
    s.machine = t.machine ∧ (s.perform c).1 = (t.perform c).1 ∧
      (s.perform c).2.machine = (t.perform c).2.machine ∧
      (t.perform c).2.sink = t.sink.append (t.machine.lines [c]) ∧
      (∃ es, (s.perform c).2.sink.events.toList = s.sink.events.toList ++ es ∧
        (t.machine.lines [c]).filter (·.target == "bytevm::event") =
          es.map fun e => ⟨.info, c.now?, "bytevm::event", e.text⟩) ∧
      logAt .trace = (Machine.empty.lines cs).map (·.written .trace) ∧
      ∀ least, logAt least =
        ((Machine.empty.lines cs).filter fun l => l.level.rank ≤ least.rank).map
          (·.written least) := by
  intro s t logAt
  have hmachine : s.machine = t.machine := by
    show ((new events).obey cs).machine = ((new log).obey cs).machine
    rw [machine_obey, machine_obey]
    rfl
  have hlog (least : Level) : logAt least =
      ((Machine.empty.lines cs).filter fun l => l.level.rank ≤ least.rank).map
        (·.written least) := by
    show ((new (TraceLog.empty (.upTo least))).obey cs).sink.lines.toList = _
    rw [sink_obey]
    exact TraceLog.lines_append_empty least _
  refine ⟨hmachine, ?_, ?_, sink_obey t [c], ?_, ?_, hlog⟩
  · show (s.machine.perform c).result = (t.machine.perform c).result
    rw [hmachine]
  · show (s.machine.perform c).machine = (t.machine.perform c).machine
    rw [hmachine]
  · refine ⟨(s.machine.perform c).events, s.events_perform c, ?_⟩
    rw [hmachine, Machine.lines, Machine.lines, List.append_nil]
    exact Record.filter_target _ _
  · have hall : ∀ l ∈ Machine.empty.lines cs, decide (l.level.rank ≤ Level.trace.rank) = true := by
      intro l _
      cases l.level <;> rfl
    rw [hlog, List.filter_eq_self.2 hall]

end Session

end TickMachine
