import TickMachine.Proofs.Faults
import TickMachine.Proofs.LineText
import TickMachine.Proofs.QuotedText
import TickMachine.Simulation

/-!
# Simulations

A simulation gives a machine its `script`: a load, and a tick for each frame, at the `clock` of that
frame. It stops behind the first tick that fails, and the log holds the lines of the commands it
gave, and one line of its own, written out by `doneMessage` and `failedMessage`.

`Plays` lists the two ways that this can end. `run_plays` states that a simulation ends in one of
them, whatever its log leaves out, and that more frames only lead to more lines.
-/

namespace TickMachine

/-- A log of more lines only holds more behind the others. -/
theorem TraceLog.isPrefix_append (log : TraceLog) {ls ks : List LogLine} (h : ls <+: ks) :
    (log.append ls).lines.toList <+: (log.append ks).lines.toList := by
  simpa [append] using (List.prefix_append_right_inj log.lines.toList).2 (h.filterMap _)

theorem Machine.isPrefix_lines (m : Machine) {cs ds : List Command} (h : cs <+: ds) :
    m.lines cs <+: m.lines ds := by
  obtain ⟨es, rfl⟩ := h
  rw [lines_append]
  exact List.prefix_append _ _

namespace Simulation

open Fault (decimal)

/-! ## What a simulation is to do -/

/-- The machine before a program is loaded. -/
def idle (settings : Settings) : Machine :=
  { Machine.empty with policy := if settings.strict then .fatal else .ignore }

/-- The clock at a frame. -/
def clock (settings : Settings) (frame : Nat) : Binary64 :=
  settings.startTime + .ofNat frame * settings.frameTime

/-- The commands up to a frame: the load and the ticks of the frames before. -/
def script (settings : Settings) (p : Program) (frame : Nat) : List Command :=
  .load p :: (List.range frame).map fun i => .tick (clock settings i)

/-- The machine that a frame finds. -/
def machineAt (settings : Settings) (p : Program) (frame : Nat) : Machine :=
  (idle settings).obey (script settings p frame)

def resultAt (settings : Settings) (p : Program) (frame : Nat) : Except Fault Unit :=
  ((machineAt settings p frame).tick (clock settings frame)).result

/-- The lines of the commands up to a frame. -/
def lines (settings : Settings) (p : Program) (frame : Nat) : List LogLine :=
  (idle settings).lines (script settings p frame)

/-- The last word on a machine all whose frames succeeded. -/
def doneMessage (m : Machine) : String :=
  "done ip=" ++ decimal m.ip ++
    " stack=[" ++ ", ".intercalate (m.stack.toList.map fun b => decimal b.toNat) ++ "]" ++
    " wake=" ++ wakeSpelling m.wake

/-- The last word on a frame that failed. -/
def failedMessage (fault : Fault) (frame : Nat) (now : Binary64) : String :=
  fault.spelling ++ " frame=" ++ decimal frame ++ " now=" ++ now.fieldText

/-- The last word on a file that could not be read. -/
def unreadableMessage (quoted : String) (failure : ReadFailure) : String :=
  "failed to read program " ++ quoted ++ ": " ++ failure.reason ++
    " (os error " ++ decimal failure.code ++ ")"

/-- How a simulation ends: the number of ticks, the exit status, the level of the line of its own and
the message there. -/
inductive Plays (settings : Settings) (p : Program) : Nat → Nat → Level → String → Prop where
  | done (hok : ∀ i < settings.frames, resultAt settings p i = .ok ()) :
    Plays settings p settings.frames 0 .info (doneMessage (machineAt settings p settings.frames))
  | failed {frame : Nat} {fault : Fault} (hframe : frame < settings.frames)
    (hok : ∀ i < frame, resultAt settings p i = .ok ())
    (herror : resultAt settings p frame = .error fault) (hne : fault ≠ .faulted) :
    Plays settings p (frame + 1) 1 .error (failedMessage fault frame (clock settings frame))

variable {settings : Settings} {p : Program} {frame k l n status status' : Nat} {fault : Fault}
  {level level' : Level} {message message' : String}

/-! ## Lines of its own -/

/-- A line of the simulation itself. -/
def remark (level : Level) (message : String) : LogLine := ⟨level, none, "main", message⟩

theorem written_remark (level : Level) (message : String) (least : Level) :
    (remark level message).written least = level.name ++ " main: " ++ message := by
  have hspan : (if least = .debug ∨ least = .trace then (remark level message).span else "") = "" :=
    ite_self _
  unfold LogLine.written
  rw [hspan]
  show level.name ++ " " ++ "" ++ "main" ++ ": " ++ message = _
  simp [← String.toList_inj]

/-- No level leaves out an error. -/
theorem lines_append_error (least : Level) (message : String) :
    ((TraceLog.empty (.upTo least)).append [remark .error message]).lines.toList =
      ["ERROR main: " ++ message] := by
  have hall : ∀ l ∈ [remark .error message], decide (l.level.rank ≤ least.rank) = true := by
    rw [List.forall_mem_singleton]
    cases least <;> rfl
  rw [TraceLog.lines_append_empty, List.filter_eq_self.2 hall, List.map_singleton, written_remark]
  show ["ERROR" ++ " main: " ++ message] = _
  rw [show "ERROR" ++ " main: " = "ERROR main: " from rfl]

theorem doneLine_eq (m : Machine) : doneLine m = remark .info (doneMessage m) := by
  have hstack : stackText m.stack =
      "[" ++ ", ".intercalate (m.stack.toList.map fun b => decimal b.toNat) ++ "]" := rfl
  have hmessage : (doneLine m).message = doneMessage m := by
    show "done ip=" ++ toString m.ip ++ " stack=" ++ stackText m.stack ++ " wake=" ++
      wakeText m.wake = _
    rw [hstack, wakeText_eq_wakeSpelling]
    simp [← String.toList_inj, doneMessage, decimal]
  exact congrArg (remark .info) hmessage

theorem failedLine_eq (fault : Fault) (frame : Nat) (now : Binary64) :
    failedLine ⟨fault, frame, now⟩ = remark .error (failedMessage fault frame now) := by
  have hmessage : (failedLine ⟨fault, frame, now⟩).message = failedMessage fault frame now := by
    show fault.message ++ " frame=" ++ toString frame ++ " now=" ++ now.fieldText = _
    rw [Fault.message_eq_spelling]
    rfl
  exact congrArg (remark .error) hmessage

theorem unreadableLine_eq (path : String) (failure : ReadFailure) :
    unreadableLine path failure = remark .error (unreadableMessage (quote path) failure) :=
  rfl

/-! ## Scripts -/

theorem timeOf_eq_clock (settings : Settings) (frame : Nat) :
    timeOf settings frame = clock settings frame :=
  rfl

theorem script_succ (settings : Settings) (p : Program) (frame : Nat) :
    script settings p (frame + 1) =
      script settings p frame ++ [.tick (clock settings frame)] := by
  simp [script, List.range_succ]

theorem isPrefix_script (settings : Settings) (p : Program) (h : k ≤ l) :
    script settings p k <+: script settings p l := by
  induction h with
  | refl => exact List.prefix_refl _
  | step _ ih =>
    rw [script_succ]
    exact ih.trans (List.prefix_append _ _)

theorem machineAt_succ (settings : Settings) (p : Program) (frame : Nat) :
    machineAt settings p (frame + 1) =
      ((machineAt settings p frame).tick (clock settings frame)).machine := by
  rw [machineAt, script_succ, Machine.obey_append]
  rfl

/-- No frame that the simulation comes to finds a faulted machine. -/
theorem faulted_machineAt (hok : ∀ i < frame, resultAt settings p i = .ok ()) :
    (machineAt settings p frame).faulted = false := by
  cases frame with
  | zero => rfl
  | succ i =>
    rw [machineAt_succ]
    exact Machine.faulted_tick_of_ok (hok i (Nat.lt_succ_self i))

/-! ## Frames -/

section

variable {σ : Type} [Sink σ] {s : Session σ}

theorem perform_script (hs : s.machine = idle settings) (frame : Nat) :
    (s.obey (script settings p frame)).perform (.tick (clock settings frame)) =
      (resultAt settings p frame, s.obey (script settings p (frame + 1))) := by
  have hmachine : (s.obey (script settings p frame)).machine = machineAt settings p frame := by
    rw [Session.machine_obey, hs]
    rfl
  rw [script_succ, Session.obey_append]
  refine Prod.ext ?_ rfl
  show ((s.obey (script settings p frame)).machine.tick _).result = _
  rw [hmachine]
  rfl

/-- Frames that succeed are all played. -/
theorem runFrames_of_ok (hs : s.machine = idle settings)
    (hok : ∀ i < frame + n, resultAt settings p i = .ok ()) :
    runFrames settings frame (s.obey (script settings p frame)) n =
      (.ok (), s.obey (script settings p (frame + n))) := by
  induction n generalizing frame with
  | zero => rfl
  | succ n ih =>
    have hnext : frame + 1 + n = frame + (n + 1) := by omega
    rw [runFrames, timeOf_eq_clock, perform_script hs, hok frame (by omega)]
    show runFrames settings (frame + 1) _ n = _
    rw [ih (by rwa [hnext]), hnext]

/-- The first frame that fails is the last one played. -/
theorem runFrames_of_error (hs : s.machine = idle settings) (hle : k ≤ frame)
    (hlt : frame < k + n) (hok : ∀ i < frame, resultAt settings p i = .ok ())
    (herror : resultAt settings p frame = .error fault) :
    runFrames settings k (s.obey (script settings p k)) n =
      (.error ⟨fault, frame, clock settings frame⟩,
        s.obey (script settings p (frame + 1))) := by
  induction n generalizing k with
  | zero => omega
  | succ n ih =>
    rw [runFrames, timeOf_eq_clock, perform_script hs]
    by_cases hk : k = frame
    · rw [hk, herror]
    · rw [hok k (by omega)]
      exact ih (by omega) (by omega)

end

/-! ## Ends -/

/-- Frames succeed up to the first that fails, if one does. -/
theorem all_ok_or_first_error (settings : Settings) (p : Program) (n : Nat) :
    (∀ i < n, resultAt settings p i = .ok ()) ∨ ∃ frame < n, ∃ fault,
      (∀ i < frame, resultAt settings p i = .ok ()) ∧ resultAt settings p frame = .error fault := by
  induction n with
  | zero => exact .inl fun i hi => absurd hi (Nat.not_lt_zero i)
  | succ n ih =>
    rcases ih with hok | ⟨frame, hlt, fault, hok, herror⟩
    · cases hr : resultAt settings p n with
      | ok =>
        refine .inl fun i hi => ?_
        rcases Nat.lt_succ_iff_lt_or_eq.1 hi with hi | rfl
        · exact hok i hi
        · exact hr
      | error fault => exact .inr ⟨n, Nat.lt_succ_self n, fault, hok, hr⟩
    · exact .inr ⟨frame, Nat.lt_succ_of_lt hlt, fault, hok, herror⟩

theorem exists_plays (settings : Settings) (p : Program) :
    ∃ played status level message, Plays settings p played status level message := by
  rcases all_ok_or_first_error settings p settings.frames with
    hok | ⟨frame, hlt, fault, hok, herror⟩
  · exact ⟨_, _, _, _, .done hok⟩
  · have hne : fault ≠ .faulted := Machine.ne_faulted_of_tick (faulted_machineAt hok) herror
    exact ⟨_, _, _, _, .failed hlt hok herror hne⟩

/-- The log of a simulation of which so many ticks were played and this was the line of its own. -/
theorem run_of_plays (h : Plays settings p k status level message) (v : Verbosity) :
    run settings (.ok p) v =
      (status, (TraceLog.empty v).append (lines settings p k ++ [remark level message])) := by
  let s : Session TraceLog := ⟨idle settings, TraceLog.empty v⟩
  have hs : s.machine = idle settings := rfl
  have hstart : start settings p (TraceLog.empty v) =
      runFrames settings 0 (s.obey (script settings p 0)) settings.frames := rfl
  have hsink (frame : Nat) : (s.obey (script settings p frame)).sink =
      (TraceLog.empty v).append (lines settings p frame) := s.sink_obey _
  have hmachine (frame : Nat) : (s.obey (script settings p frame)).machine =
      machineAt settings p frame := s.machine_obey _
  unfold run
  cases h with
  | done hok =>
    have hall : ∀ i < 0 + settings.frames, resultAt settings p i = .ok () := by
      rwa [Nat.zero_add]
    dsimp only
    rw [hstart, runFrames_of_ok hs hall, Nat.zero_add]
    dsimp only
    rw [doneLine_eq, TraceLog.write_eq_append, hsink, hmachine, TraceLog.append_append]
  | @failed frame fault hframe hok herror hne =>
    have hlt : frame < 0 + settings.frames := by rwa [Nat.zero_add]
    dsimp only
    rw [hstart, runFrames_of_error hs (Nat.zero_le frame) hlt hok herror]
    dsimp only
    rw [failedLine_eq, TraceLog.write_eq_append, hsink, TraceLog.append_append]

/-- The status tells whether all frames succeeded. -/
theorem Plays.status_eq_zero_iff (h : Plays settings p k status level message) :
    status = 0 ↔ ∀ i < settings.frames, resultAt settings p i = .ok () := by
  cases h with
  | done hok => exact ⟨fun _ => hok, fun _ => rfl⟩
  | failed hframe hok herror hne =>
    refine ⟨fun h0 => absurd h0 Nat.one_ne_zero, fun hall => ?_⟩
    rw [hall _ hframe] at herror
    cases herror

theorem Plays.level_name (h : Plays settings p k status level message) :
    level.name = if status = 0 then "INFO" else "ERROR" := by
  cases h <;> rfl

theorem Plays.played_le (h : Plays settings p k status level message) : k ≤ settings.frames := by
  cases h with
  | done hok => exact Nat.le_refl _
  | failed hframe hok herror hne => exact hframe

/-- Of the ticks played only the last can have failed. -/
theorem Plays.ok_of_succ_lt (h : Plays settings p k status level message) (hk : frame + 1 < k) :
    resultAt settings p frame = .ok () := by
  cases h with
  | done hok => exact hok frame (Nat.lt_of_succ_lt hk)
  | failed hframe hok herror hne => exact hok frame (Nat.lt_of_succ_lt_succ hk)

/-- With more frames no fewer ticks are played. -/
theorem Plays.le (hn : n ≤ settings.frames)
    (h : Plays { settings with frames := n } p k status level message)
    (h' : Plays settings p l status' level' message') : k ≤ l := by
  cases h' with
  | done hok' => exact Nat.le_trans h.played_le hn
  | @failed frame fault hframe hok herror hne =>
    by_contra hlt
    have hok' : resultAt settings p frame = .ok () := h.ok_of_succ_lt (Nat.lt_of_not_le hlt)
    rw [herror] at hok'
    cases hok'

/-- All lines of a simulation, written out. -/
theorem lines_run_of_plays (h : Plays settings p k status level message) :
    (run settings (.ok p) (.upTo .trace)).2.lines.toList =
      (idle settings).spellings (script settings p k) ++
        [(if status = 0 then "INFO" else "ERROR") ++ " main: " ++ message] := by
  rw [run_of_plays h]
  dsimp only
  rw [TraceLog.lines_append_trace, List.map_append, lines, Machine.map_written_lines,
    List.map_singleton, written_remark, h.level_name]

/-- **Simulations.** A simulation ends in one of the two ways: all its frames succeed, or the first
that fails ends it with a fault of the machine's own. The log is made of the lines of the load and
the ticks up to there and of one more, of no tick. The status is zero exactly if all frames succeed.
A simulation of fewer frames has a log that begins alike, up to its last line. A file that cannot be
read brings one line, which quotes its path, and nothing else; without a file the demonstration
runs. -/
theorem run_plays (settings : Settings) (p : Program) :
    (∃ played status level message, Plays settings p played status level message ∧
        (∀ v, run settings (.ok p) v = (status, (TraceLog.empty v).append
          (lines settings p played ++ [⟨level, none, "main", message⟩]))) ∧
        (run settings (.ok p) (.upTo .trace)).2.lines.toList =
          (idle settings).spellings (script settings p played) ++
            [(if status = 0 then "INFO" else "ERROR") ++ " main: " ++ message]) ∧
      (∀ v, (run settings (.ok p) v).1 = 0 ↔
        ∀ i < settings.frames, resultAt settings p i = .ok ()) ∧
      (∀ n ≤ settings.frames, ∃ played level message, ∀ v,
        (run { settings with frames := n } (.ok p) v).2 = (TraceLog.empty v).append
            (lines settings p played ++ [⟨level, none, "main", message⟩]) ∧
          ((TraceLog.empty v).append (lines settings p played)).lines.toList <+:
            (run settings (.ok p) v).2.lines.toList) ∧
      (∀ path failure, ∃ quoted, unquote? quoted = some path ∧
        (∀ c ∈ quoted.toList, isUnprintable c = false) ∧
        (∀ v, run settings (.error (path, failure)) v = (1, (TraceLog.empty v).append
          [⟨.error, none, "main", unreadableMessage quoted failure⟩])) ∧
        ∀ least, (run settings (.error (path, failure)) (.upTo least)).2.lines.toList =
          ["ERROR main: " ++ unreadableMessage quoted failure]) ∧
      Source.ofFile none = .ok (.ofList [0, 1, 2, 1, 1, 2, 1, 0x49, 1, 0x96, 1, 0xb4, 1, 0x38, 3,
        4, 0x49, 0x96, 0xb4, 0x38, 5, 6]) ∧
      (∀ path, Source.ofFile (some (path, .ok p)) = .ok p) ∧
      ∀ path failure, Source.ofFile (some (path, .error failure)) = .error (path, failure) := by
  obtain ⟨played, status, level, message, hplays⟩ := exists_plays settings p
  refine ⟨⟨played, status, level, message, hplays, run_of_plays hplays, lines_run_of_plays hplays⟩,
    ?_, ?_, ?_, ?_, fun _ => rfl, fun _ _ => rfl⟩
  · intro v
    rw [run_of_plays hplays v]
    exact hplays.status_eq_zero_iff
  · intro n hn
    obtain ⟨k, st, level', message', hshort⟩ := exists_plays { settings with frames := n } p
    refine ⟨k, level', message', fun v => ⟨?_, ?_⟩⟩
    · rw [run_of_plays hshort v]
      rfl
    · have hlines : lines settings p k <+: lines settings p played ++ [remark level message] :=
        (Machine.isPrefix_lines _ (isPrefix_script settings p (hshort.le hn hplays))).trans
          (List.prefix_append _ _)
      rw [run_of_plays hplays v]
      exact TraceLog.isPrefix_append _ hlines
  · intro path failure
    have hrun (v : Verbosity) : run settings (.error (path, failure)) v =
        (1, (TraceLog.empty v).append [remark .error (unreadableMessage (quote path) failure)]) := by
      show (1, (TraceLog.empty v).write _) = _
      rw [TraceLog.write_eq_append, unreadableLine_eq]
    refine ⟨quote path, unquote?_quote path, fun _ => isUnprintable_of_mem_quote, hrun, ?_⟩
    intro least
    rw [hrun]
    exact lines_append_error least _
  · decide +kernel

end Simulation

end TickMachine
