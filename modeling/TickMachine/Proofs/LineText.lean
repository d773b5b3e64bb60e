import TickMachine.Proofs.EventText
import TickMachine.Proofs.FieldText
import TickMachine.Proofs.Log
import TickMachine.Proofs.Messages

/-!
# Lines of the log

`Record.spelling` writes out the line of a record, word by word. `Record.line_unambiguous` states
that a log of any level writes just that, and that the line tells its level, the time of its tick and
the record with all that it holds, up to patterns that are no number.

The reader takes the level first, then the tick if there is one, and tells the records apart by the
words behind it.
-/

namespace TickMachine

open Reader

/-! ## Names of opcodes -/

namespace Opcode

/-- The names in the order of the bytes. -/
def names : List String :=
  ["PrintHelloWorld", "Set", "Add", "PrintFloat", "PrintFloatNoStack", "Wait", "Repeat"]

theorem getD_names (op : Opcode) : names.getD op.byte.toNat "" = op.name := by
  cases op <;> rfl

/-- Reads the name of an opcode. -/
def reader : Reader Opcode :=
  field Char.isAlpha fun cs => (names.idxOf? (String.ofList cs)).bind fun i => ofByte? (.ofNat i)

theorem run_reader (op : Opcode) : reader.run op.name.toList = some (op, []) := by
  cases op <;> decide +kernel

end Opcode

/-! ## Times -/

/-- The tick that a line names, if it names one. -/
def tickSpelling : Option Binary64 → String
  | none => ""
  | some now => "tick\x7bnow=" ++ now.fieldText ++ "\x7d: "

/-- The time of a pending wait. -/
def wakeSpelling : Option Binary64 → String
  | none => "None"
  | some wake => "Some(" ++ wake.fieldText ++ ")"

theorem wakeText_eq_wakeSpelling (wake : Option Binary64) : wakeText wake = wakeSpelling wake := by
  cases wake <;> rfl

/-- Reads the tick that a line names, if it names one. -/
def tickReader : Reader (Option Binary64) := optionally "tick\x7bnow=" do
  let now ← fieldNumeral
  exactly "\x7d: "
  return now

/-- The times of a pending wait by the words that they begin with, and what follows those. -/
def wakeForms : List (String × Reader (Option Binary64)) :=
  [("None", return none),
    ("Some(", do
      let wake ← fieldNumeral
      exactly ")"
      return some wake)]

/-- Reads the time of a pending wait. -/
def wakeReader : Reader (Option Binary64) := oneOf wakeForms

theorem run_tickReader {words : String} (h : Distinct ["tick\x7bnow=", words])
    (now : Option Binary64) (cs : List Char) :
    tickReader.run ((tickSpelling now).toList ++ (words.toList ++ cs)) =
      some (now.map Binary.canonical, words.toList ++ cs) := by
  cases now with
  | none => exact run_optionally_of_distinct h _ cs
  | some now =>
    simp only [tickSpelling, String.toList_append, List.append_assoc]
    apply run_optionally
    rw [run_fieldNumeral_bind _ (by simp [Stops, Binary.isFieldNumeral, Binary.isNumeral]),
      run_exactly_bind]
    rfl

theorem run_wakeReader (wake : Option Binary64) :
    wakeReader.run (wakeSpelling wake).toList = some (wake.map Binary.canonical, []) := by
  have hdistinct : Distinct (wakeForms.map Prod.fst) := by decide +kernel
  unfold wakeReader
  cases wake with
  | none =>
    rw [wakeSpelling, ← List.append_nil "None".toList, run_form hdistinct 0 rfl]
    rfl
  | some wake =>
    have htext : (wakeSpelling (some wake)).toList =
        "Some(".toList ++ (wake.fieldText.toList ++ (")".toList ++ [])) := by
      simp only [wakeSpelling, String.toList_append, List.append_assoc, List.append_nil]
    rw [htext, run_form hdistinct 1 rfl,
      run_fieldNumeral_bind _ (by simp [Stops, Binary.isFieldNumeral, Binary.isNumeral]),
      run_exactly_bind]
    rfl

/-! ## Lines -/

namespace Record

open Fault (decimal)

/-- The line of a record, with its time if a tick is named. -/
def spelling (now : Option Binary64) : Record → String
  | loaded size =>
    "DEBUG " ++ tickSpelling now ++ "bytevm::vm: program loaded len=" ++ decimal size
  | resuming wake =>
    "DEBUG " ++ tickSpelling now ++ "bytevm::vm: resuming wake=" ++ wake.fieldText
  | dispatch ip op =>
    "TRACE " ++ tickSpelling now ++ "bytevm::vm: dispatch ip=" ++ decimal ip ++ " op=" ++
      Opcode.names.getD op.byte.toNat ""
  | event e =>
    "INFO " ++ tickSpelling now ++ "bytevm::event: " ++ e.text
  | ignored ip byte =>
    "WARN " ++ tickSpelling now ++ "bytevm::vm: ignoring unknown opcode ip=" ++ decimal ip ++
      " byte=" ++ decimal byte.toNat
  | suspended ip wake =>
    "DEBUG " ++ tickSpelling now ++ "bytevm::vm: suspended ip=" ++ decimal ip ++ " wake=" ++
      wakeSpelling wake
  | faulted fault ip =>
    "ERROR " ++ tickSpelling now ++ "bytevm::vm: machine faulted err=" ++ fault.spelling ++
      " ip=" ++ decimal ip

/-- A log writes the line as it is spelled out, and names the tick if it is of one of the two
lowest levels. -/
theorem written_line (r : Record) (now : Option Binary64) (least : Level) :
    (r.line now).written least =
      r.spelling (if least = .debug ∨ least = .trace then now else none) := by
  have hspan : (if least = .debug ∨ least = .trace then (r.line now).span else "") =
      tickSpelling (if least = .debug ∨ least = .trace then now else none) := by
    split
    · cases now <;> rfl
    · rfl
  unfold LogLine.written
  rw [hspan]
  generalize (if least = .debug ∨ least = .trace then now else none) = shown
  cases r with
  -- By `show`, as where messages are read: Lean is slow to derive the equations of `message`.
  | loaded size =>
    show "DEBUG" ++ " " ++ tickSpelling shown ++ "bytevm::vm" ++ ": " ++
      ("program loaded len=" ++ toString size) = _
    simp [← String.toList_inj, spelling, decimal]
  | resuming wake =>
    show "DEBUG" ++ " " ++ tickSpelling shown ++ "bytevm::vm" ++ ": " ++
      ("resuming wake=" ++ wake.fieldText) = _
    simp [← String.toList_inj, spelling]
  | dispatch ip op =>
    show "TRACE" ++ " " ++ tickSpelling shown ++ "bytevm::vm" ++ ": " ++
      ("dispatch ip=" ++ toString ip ++ " op=" ++ op.name) = _
    simp [← String.toList_inj, spelling, decimal, ← Opcode.getD_names]
  | event e =>
    show "INFO" ++ " " ++ tickSpelling shown ++ "bytevm::event" ++ ": " ++ e.text = _
    simp [← String.toList_inj, spelling]
  | ignored ip byte =>
    show "WARN" ++ " " ++ tickSpelling shown ++ "bytevm::vm" ++ ": " ++
      ("ignoring unknown opcode ip=" ++ toString ip ++ " byte=" ++ toString byte.toNat) = _
    simp [← String.toList_inj, spelling, decimal]
  | suspended ip wake =>
    show "DEBUG" ++ " " ++ tickSpelling shown ++ "bytevm::vm" ++ ": " ++
      ("suspended ip=" ++ toString ip ++ " wake=" ++ wakeText wake) = _
    simp [← String.toList_inj, spelling, decimal, wakeText_eq_wakeSpelling]
  | faulted fault ip =>
    show "ERROR" ++ " " ++ tickSpelling shown ++ "bytevm::vm" ++ ": " ++
      ("machine faulted err=" ++ fault.message ++ " ip=" ++ toString ip) = _
    simp [← String.toList_inj, spelling, decimal, Fault.message_eq_spelling]

/-! ## Reading lines -/

/-- The record with its numbers brought to one pattern each. -/
def canonical : Record → Record
  | resuming wake => resuming wake.canonical
  | event e => event e.canonical
  | suspended ip wake => suspended ip (wake.map Binary.canonical)
  | r => r

/-- The levels by the words that lines begin with. -/
def levels : List (String × Reader Level) :=
  [("ERROR ", return .error), ("WARN ", return .warn), ("INFO ", return .info),
    ("DEBUG ", return .debug), ("TRACE ", return .trace)]

/-- The lines by the words behind the tick, and what follows those. -/
def forms : List (String × Reader Record) :=
  [("bytevm::vm: program loaded len=", do
      let size ← number
      return loaded size),
    ("bytevm::vm: resuming wake=", do
      let wake ← fieldNumeral
      return resuming wake),
    ("bytevm::vm: dispatch ip=", do
      let ip ← number
      exactly " op="
      let op ← Opcode.reader
      return dispatch ip op),
    ("bytevm::event: ", do
      let e ← Event.reader
      return event e),
    ("bytevm::vm: ignoring unknown opcode ip=", do
      let ip ← number
      exactly " byte="
      let byte ← Event.byte
      return ignored ip byte),
    ("bytevm::vm: suspended ip=", do
      let ip ← number
      exactly " wake="
      let wake ← wakeReader
      return suspended ip wake),
    ("bytevm::vm: machine faulted err=", do
      let fault ← Fault.reader
      exactly " ip="
      let ip ← number
      return faulted fault ip)]

/-- Reads a line: its level, the time of its tick and the record. -/
def reader : Reader (Level × Option Binary64 × Record) := do
  let level ← oneOf levels
  let now ← tickReader
  let r ← oneOf forms
  return (level, now, r)

theorem distinct_levels : Distinct (levels.map Prod.fst) := by
  decide +kernel

theorem distinct_forms : Distinct (forms.map Prod.fst) := by
  decide +kernel

theorem distinct_tick : ∀ words ∈ forms.map Prod.fst, Distinct ["tick\x7bnow=", words] := by
  decide +kernel

/-- A line is read if what follows its words is. -/
theorem run_reader_of_run {i k : Nat} {severity words : String} {level : Level} {x : Reader Record}
    {r : Record} {rest : List Char} (hlevel : levels[i]? = some (severity, return level))
    (hx : forms[k]? = some (words, x)) (hr : x.run rest = some (r, [])) (now : Option Binary64) :
    reader.run (severity.toList ++ ((tickSpelling now).toList ++ (words.toList ++ rest))) =
      some ((level, now.map Binary.canonical, r), []) := by
  have hwords : words ∈ forms.map Prod.fst := List.mem_map_of_mem (List.mem_of_getElem? hx)
  have hseverity (cs : List Char) : (oneOf levels).run (severity.toList ++ cs) = some (level, cs) :=
    run_form distinct_levels i hlevel cs
  have htick := run_tickReader (distinct_tick words hwords) now rest
  have hform : (oneOf forms).run (words.toList ++ rest) = some (r, []) := by
    rw [run_form distinct_forms k hx, hr]
  unfold reader
  rw [run_bind_of_run (hseverity _), run_bind_of_run htick, run_bind_of_run hform]
  rfl

theorem run_reader (r : Record) (now : Option Binary64) :
    reader.run (r.spelling now).toList =
      some ((r.level, now.map Binary.canonical, r.canonical), []) := by
  have hend (cs : List Char) : cs = cs ++ [] := (List.append_nil cs).symm
  cases r with
  | loaded size =>
    simp only [spelling, decimal, String.toList_append, String.toList_ofList, List.append_assoc]
    apply run_reader_of_run (i := 3) (k := 0) rfl rfl
    rw [hend (Nat.toDigits 10 size), run_number_bind _ (stops_nil _)]
    rfl
  | resuming wake =>
    simp only [spelling, String.toList_append, List.append_assoc]
    apply run_reader_of_run (i := 3) (k := 1) rfl rfl
    rw [hend wake.fieldText.toList, run_fieldNumeral_bind _ (stops_nil _)]
    rfl
  | dispatch ip op =>
    simp only [spelling, decimal, Opcode.getD_names, String.toList_append, String.toList_ofList,
      List.append_assoc]
    apply run_reader_of_run (i := 4) (k := 2) rfl rfl
    rw [run_number_bind _ (by simp [Stops]), run_exactly_bind, run_bind_of_run op.run_reader]
    rfl
  | event e =>
    simp only [spelling, String.toList_append, List.append_assoc]
    apply run_reader_of_run (i := 2) (k := 3) rfl rfl
    rw [run_bind_of_run e.run_reader]
    rfl
  | ignored ip byte =>
    simp only [spelling, decimal, String.toList_append, String.toList_ofList, List.append_assoc]
    apply run_reader_of_run (i := 1) (k := 4) rfl rfl
    rw [run_number_bind _ (by simp [Stops]), run_exactly_bind, hend (Nat.toDigits 10 byte.toNat),
      Event.run_byte_bind _ (stops_nil _)]
    rfl
  | suspended ip wake =>
    simp only [spelling, decimal, String.toList_append, String.toList_ofList, List.append_assoc]
    apply run_reader_of_run (i := 3) (k := 5) rfl rfl
    rw [run_number_bind _ (by simp [Stops]), run_exactly_bind,
      run_bind_of_run (run_wakeReader wake)]
    rfl
  | faulted fault ip =>
    simp only [spelling, decimal, ← Fault.message_eq_spelling, String.toList_append,
      String.toList_ofList, List.append_assoc]
    apply run_reader_of_run (i := 0) (k := 6) rfl rfl
    rw [run_bind_of_run (fault.run_reader (by simp [Stops])), run_exactly_bind,
      hend (Nat.toDigits 10 ip), run_number_bind _ (stops_nil _)]
    rfl

theorem read?_spelling (r : Record) (now : Option Binary64) :
    reader.read? (r.spelling now) = some (r.level, now.map Binary.canonical, r.canonical) :=
  read?_of_run (run_reader r now)

/-! ## Lines and records -/

theorem spelling_canonical (r : Record) (now : Option Binary64) :
    r.canonical.spelling (now.map Binary.canonical) = r.spelling now := by
  have htime (x : Binary64) : x.canonical.fieldText = x.fieldText :=
    Binary.fieldText_canonical (by decide) x
  have htick : tickSpelling (now.map Binary.canonical) = tickSpelling now := by
    cases now with
    | none => rfl
    | some now => simp only [Option.map_some, tickSpelling, htime]
  cases r with
  | resuming wake => simp only [canonical, spelling, htick, htime]
  | event e => simp only [canonical, spelling, htick, Event.text_canonical]
  | suspended ip wake =>
    cases wake with
    | none => simp only [canonical, spelling, htick, Option.map_none]
    | some wake => simp only [canonical, spelling, htick, Option.map_some, wakeSpelling, htime]
  | _ => simp only [canonical, spelling, htick]

/-- A log writes the line of a record as it is spelled out, with the tick at the two lowest levels.
All that a line says is read back from it: its level, the time of the tick and the record. So two
lines are the same only for the same record at the same time, patterns that are no number apart. -/
theorem line_unambiguous :
    (∀ (r : Record) (now : Option Binary64) (least : Level), (r.line now).written least =
      r.spelling (if least = .debug ∨ least = .trace then now else none)) ∧
    (∀ (r : Record) (now : Option Binary64), reader.read? (r.spelling now) =
      some (r.level, now.map Binary.canonical, r.canonical)) ∧
    ∀ (r r' : Record) (now now' : Option Binary64), r.spelling now = r'.spelling now' ↔
      r.canonical = r'.canonical ∧ now.map Binary.canonical = now'.map Binary.canonical := by
  refine ⟨written_line, read?_spelling, fun r r' now now' => ⟨fun h => ?_, fun h => ?_⟩⟩
  · have hread := read?_spelling r now
    rw [h, read?_spelling r' now'] at hread
    simp only [Option.some.injEq, Prod.mk.injEq] at hread
    exact ⟨hread.2.2.symm, hread.2.1.symm⟩
  · rw [← spelling_canonical r now, h.1, h.2, spelling_canonical r' now']

end Record

/-! ## Logs -/

/-- A log of all lines leaves none out. -/
theorem TraceLog.lines_append_trace (ls : List LogLine) :
    ((empty (.upTo .trace)).append ls).lines.toList = ls.map (·.written .trace) := by
  have hall : ∀ l ∈ ls, decide (l.level.rank ≤ Level.trace.rank) = true := by
    intro l _
    cases l.level <;> rfl
  rw [lines_append_empty, List.filter_eq_self.2 hall]

/-- The lines of commands given one after the other, written out. -/
def Machine.spellings (m : Machine) : List Command → List String
  | [] => []
  | c :: cs => (m.perform c).records.map (·.spelling c.now?) ++ (m.perform c).machine.spellings cs

theorem Machine.spellings_append (m : Machine) (cs ds : List Command) :
    m.spellings (cs ++ ds) = m.spellings cs ++ (m.obey cs).spellings ds := by
  induction cs generalizing m with
  | nil => rfl
  | cons c cs ih =>
    rw [List.cons_append, spellings, ih, ← List.append_assoc]
    rfl

theorem Machine.map_written_lines (m : Machine) (cs : List Command) :
    (m.lines cs).map (·.written .trace) = m.spellings cs := by
  induction cs generalizing m with
  | nil => rfl
  | cons c cs ih =>
    rw [lines, spellings, List.map_append, ih, List.map_map]
    congr 2
    funext r
    exact r.written_line c.now? .trace

end TickMachine
