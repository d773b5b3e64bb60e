import Mathlib.Data.List.Forall2
import TickMachine.Event
import TickMachine.Proofs.NumberText

/-!
# Event lines

`Event.text_unambiguous`: a line tells which event it is and all that the event holds, up to the
patterns of a printed number that is none. `reader` reads the event back from its line.
-/

namespace TickMachine.Event

open Reader

/-- Whether two events are the same, all patterns that are no number counting as one. -/
def Same : Event → Event → Prop
  | printFloat x source, printFloat y source' => x.same y = true ∧ source = source'
  | waiting x, waiting y => x.same y = true
  | e, e' => e = e'

/-- The event with its numbers brought to one pattern each. -/
def canonical : Event → Event
  | printFloat value source => printFloat value.canonical source
  | waiting remaining => waiting remaining.canonical
  | e => e

theorem canonical_eq_canonical_iff (e e' : Event) : e.canonical = e'.canonical ↔ e.Same e' := by
  have h32 (x y : Binary32) : x.canonical = y.canonical ↔ x.same y = true :=
    Binary.canonical_eq_canonical_iff (by decide)
  have h64 (x y : Binary64) : x.canonical = y.canonical ↔ x.same y = true :=
    Binary.canonical_eq_canonical_iff (by decide)
  cases e <;> cases e' <;> simp [canonical, Same, h32, h64]

/-! ## Reading lines -/

/-- Reads a byte in decimal. -/
def byte : Reader UInt8 :=
  field Char.isDigit fun cs => ((Decimal.natOfChars? cs).filter (· < 256)).map .ofNat

theorem run_byte_bind {α : Type} {f : UInt8 → Reader α} {cs : List Char} (value : UInt8)
    (h : Stops Char.isDigit cs) :
    (byte >>= f).run (Nat.toDigits 10 value.toNat ++ cs) = (f value).run cs := by
  refine run_field_bind (fun _ => isDigit_of_mem_toDigits) ?_ h
  have hlt : value.toNat < 256 := value.toNat_lt
  rw [natOfChars?_toDigits, Option.filter_some, if_pos (decide_eq_true hlt), Option.map_some,
    UInt8.ofNat_toNat]

/-- The lines by the words that they begin with, and what follows those. -/
def forms : List (String × Reader Event) :=
  [("Hello World", return helloWorld),
    ("Set (READ & PUSH: ", do
      let value ← byte
      exactly ")"
      return set value),
    ("Add (POP: ", do
      let a ← byte
      exactly ") + (POP: "
      let b ← byte
      exactly ") = (PUSH: "
      let sum ← byte
      exactly ")"
      return add a b sum),
    ("Print Float (POP 4x = ", do
      let value ← numeral
      exactly ")"
      return printFloat value .stack),
    ("Print Float (READ 4x FOLLOWING BYTES = ", do
      let value ← numeral
      exactly ")"
      return printFloat value .operand),
    ("Wait (POP: ", do
      let amount ← byte
      exactly ")"
      return wait amount),
    ("Repeat", return restart),
    ("Finished", return finished),
    ("Waiting ", do
      let remaining ← numeral
      exactly " seconds..."
      return waiting remaining)]

/-- Reads a line. -/
def reader : Reader Event := oneOf forms

theorem distinct_forms : Distinct (forms.map Prod.fst) := by
  decide +kernel

theorem toList_set (value : UInt8) : (set value).text.toList =
    "Set (READ & PUSH: ".toList ++ (Nat.toDigits 10 value.toNat ++ (")".toList ++ [])) := by
  -- By `show` here and below: to derive the equations of `text` Lean runs through its words.
  show ("Set (READ & PUSH: " ++ toString value.toNat ++ ")").toList = _
  simp only [String.toList_append, toList_toString, List.append_assoc, List.append_nil]

theorem toList_add (a b sum : UInt8) : (add a b sum).text.toList =
    "Add (POP: ".toList ++ (Nat.toDigits 10 a.toNat ++ (") + (POP: ".toList ++
      (Nat.toDigits 10 b.toNat ++ (") = (PUSH: ".toList ++ (Nat.toDigits 10 sum.toNat ++
        (")".toList ++ [])))))) := by
  show ("Add (POP: " ++ toString a.toNat ++ ") + (POP: " ++ toString b.toNat ++ ") = (PUSH: " ++
    toString sum.toNat ++ ")").toList = _
  simp only [String.toList_append, toList_toString, List.append_assoc, List.append_nil]

theorem toList_printFloat_stack (value : Binary32) : (printFloat value .stack).text.toList =
    "Print Float (POP 4x = ".toList ++ (value.text.toList ++ (")".toList ++ [])) := by
  show ("Print Float (POP 4x = " ++ value.text ++ ")").toList = _
  simp only [String.toList_append, List.append_assoc, List.append_nil]

theorem toList_printFloat_operand (value : Binary32) : (printFloat value .operand).text.toList =
    "Print Float (READ 4x FOLLOWING BYTES = ".toList ++
      (value.text.toList ++ (")".toList ++ [])) := by
  show ("Print Float (READ 4x FOLLOWING BYTES = " ++ value.text ++ ")").toList = _
  simp only [String.toList_append, List.append_assoc, List.append_nil]

theorem toList_wait (amount : UInt8) : (wait amount).text.toList =
    "Wait (POP: ".toList ++ (Nat.toDigits 10 amount.toNat ++ (")".toList ++ [])) := by
  show ("Wait (POP: " ++ toString amount.toNat ++ ")").toList = _
  simp only [String.toList_append, toList_toString, List.append_assoc, List.append_nil]

theorem toList_waiting (remaining : Binary64) : (waiting remaining).text.toList =
    "Waiting ".toList ++ (remaining.text.toList ++ (" seconds...".toList ++ [])) := by
  show ("Waiting " ++ remaining.text ++ " seconds...").toList = _
  simp only [String.toList_append, List.append_assoc, List.append_nil]

theorem run_reader (e : Event) : reader.run e.text.toList = some (e.canonical, []) := by
  unfold reader
  have whole (i : Nat) {words : String} {x : Reader Event} (hx : forms[i]? = some (words, x)) :
      (oneOf forms).run words.toList = x.run [] := by
    rw [← run_form distinct_forms i hx, List.append_nil]
  cases e with
  | helloWorld => exact whole 0 rfl
  | set value =>
    rw [toList_set, run_form distinct_forms 1 rfl, run_byte_bind _ (by simp [Stops]), run_exactly_bind]
    rfl
  | add a b sum =>
    rw [toList_add, run_form distinct_forms 2 rfl, run_byte_bind _ (by simp [Stops]), run_exactly_bind,
      run_byte_bind _ (by simp [Stops]), run_exactly_bind, run_byte_bind _ (by simp [Stops]),
      run_exactly_bind]
    rfl
  | printFloat value source =>
    cases source with
    | stack =>
      rw [toList_printFloat_stack, run_form distinct_forms 3 rfl,
        run_numeral_bind _ (by simp [Stops, Binary.isNumeral]), run_exactly_bind]
      rfl
    | operand =>
      rw [toList_printFloat_operand, run_form distinct_forms 4 rfl,
        run_numeral_bind _ (by simp [Stops, Binary.isNumeral]), run_exactly_bind]
      rfl
  | wait amount =>
    rw [toList_wait, run_form distinct_forms 5 rfl, run_byte_bind _ (by simp [Stops]), run_exactly_bind]
    rfl
  | restart => exact whole 6 rfl
  | finished => exact whole 7 rfl
  | waiting remaining =>
    rw [toList_waiting, run_form distinct_forms 8 rfl, run_numeral_bind _ (by simp [Stops, Binary.isNumeral]),
      run_exactly_bind]
    rfl

theorem read?_text (e : Event) : reader.read? e.text = some e.canonical :=
  read?_of_run (run_reader e)

/-! ## Lines and events -/

theorem text_canonical (e : Event) : e.canonical.text = e.text := by
  cases e with
  | printFloat value source =>
    have htext : value.canonical.text = value.text := Binary.text_canonical (by decide) value
    cases source with
    | stack => exact congrArg ("Print Float (POP 4x = " ++ · ++ ")") htext
    | operand => exact congrArg ("Print Float (READ 4x FOLLOWING BYTES = " ++ · ++ ")") htext
  | waiting remaining =>
    have htext : remaining.canonical.text = remaining.text :=
      Binary.text_canonical (by decide) remaining
    exact congrArg ("Waiting " ++ · ++ " seconds...") htext
  | _ => rfl

theorem text_eq_text_iff_same (e e' : Event) : e.text = e'.text ↔ e.Same e' := by
  rw [← canonical_eq_canonical_iff]
  constructor
  · intro htext
    have hread : some e.canonical = some e'.canonical := by
      rw [← read?_text e, htext, read?_text e']
    exact Option.some.inj hread
  · intro hcanonical
    rw [← text_canonical e, hcanonical, text_canonical e']

/-- Two events have the same line only if they are the same, patterns that are no number apart; and
a log of lines tells all its events. -/
theorem text_unambiguous :
    (∀ e e' : Event, e.text = e'.text ↔ e.Same e') ∧
    (∀ es es' : List Event, es.map text = es'.map text ↔ List.Forall₂ Same es es') ∧
    ∀ e : Event, reader.read? e.text = some e.canonical := by
  refine ⟨text_eq_text_iff_same, fun es es' => ?_, read?_text⟩
  rw [← List.forall₂_eq_eq_eq, List.forall₂_map_left_iff, List.forall₂_map_right_iff]
  simp only [text_eq_text_iff_same]

end TickMachine.Event
