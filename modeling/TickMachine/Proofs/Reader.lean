import Mathlib.Data.List.Basic
import TickMachine.Decimal.Text

/-!
# Reading lines back

A line is made of fixed words and of fields. A reader takes them off the front of a text, one after
the other: `run_exactly_bind` and `run_field_bind` state that words and fields are read where they
stand, and that what comes behind is left. A field ends where a character cannot belong to it.

A table of forms tells lines apart by the words that they begin with. If no form begins as another
does, each line is read by its own (`run_oneOf`).
-/

namespace TickMachine

/-- Reads something off the front of a text and leaves the rest. -/
abbrev Reader := StateT (List Char) Option

namespace Reader

/-- Reads these words. -/
def exactly (words : String) : Reader Unit := fun cs =>
  (words.toList.isPrefixOf? cs).map ((), ·)

/-- Reads all the characters of a kind that follow, and makes something of them. -/
def field {α : Type} (p : Char → Bool) (make? : List Char → Option α) : Reader α := fun cs =>
  (make? (cs.takeWhile p)).map (·, cs.dropWhile p)

/-- Reads a natural number. -/
def number : Reader Nat := field Char.isDigit Decimal.natOfChars?

/-- Reads a line by the first of the forms whose words it begins with. -/
def oneOf {α : Type} : List (String × Reader α) → Reader α
  | [] => fun _ => none
  | (words, x) :: forms => fun cs =>
    match words.toList.isPrefixOf? cs with
    | some rest => x.run rest
    | none => (oneOf forms).run cs

/-- Reads something behind these words, and nothing where they are missing. -/
def optionally {α : Type} (words : String) (x : Reader α) : Reader (Option α) := fun cs =>
  match words.toList.isPrefixOf? cs with
  | some rest => (x.run rest).map fun (a, left) => (some a, left)
  | none => some (none, cs)

/-- What a reader makes of a text, if it reads all of it. -/
def read? {α : Type} (x : Reader α) (text : String) : Option α :=
  match x.run text.toList with
  | some (a, []) => some a
  | _ => none

/-- No such character is in front. -/
def Stops (p : Char → Bool) (cs : List Char) : Prop := ∀ c ∈ cs.head?, p c = false

/-- None of the words begin as others do. -/
def Distinct (words : List String) : Prop :=
  words.Pairwise fun v w => ¬ v.toList <+: w.toList ∧ ¬ w.toList <+: v.toList

instance (words : List String) : Decidable (Distinct words) :=
  inferInstanceAs (Decidable (words.Pairwise _))

variable {α β : Type} {words : String} {cs : List Char}

theorem run_bind_of_run {x : Reader α} {f : α → Reader β} {a : α} {rest : List Char}
    (h : x.run cs = some (a, rest)) : (x >>= f).run cs = (f a).run rest := by
  rw [StateT.run_bind, h]
  rfl

/-! ## Words -/

theorem isPrefixOf?_append (v cs : List Char) : v.isPrefixOf? (v ++ cs) = some cs :=
  List.isPrefixOf?_eq_some_iff_append_eq.2 rfl

theorem run_exactly_bind {f : Unit → Reader α} (words : String) (cs : List Char) :
    (exactly words >>= f).run (words.toList ++ cs) = (f ()).run cs := by
  apply run_bind_of_run
  show (words.toList.isPrefixOf? (words.toList ++ cs)).map _ = _
  rw [isPrefixOf?_append]
  rfl

/-! ## Fields -/

theorem stops_nil (p : Char → Bool) : Stops p [] := nofun

/-- What is in front of other characters is cut off there. -/
theorem span_of_stops {p : Char → Bool} {front : List Char} (hfront : ∀ c ∈ front, p c = true)
    (h : Stops p cs) : (front ++ cs).takeWhile p = front ∧ (front ++ cs).dropWhile p = cs := by
  rw [List.takeWhile_append_of_pos hfront, List.dropWhile_append_of_pos hfront]
  cases cs with
  | nil => simp
  | cons c cs => simp [h c rfl]

theorem run_field_bind {p : Char → Bool} {make? : List Char → Option α} {f : α → Reader β}
    {front : List Char} {a : α} (hfront : ∀ c ∈ front, p c = true) (ha : make? front = some a)
    (h : Stops p cs) : (field p make? >>= f).run (front ++ cs) = (f a).run cs := by
  obtain ⟨htake, hdrop⟩ := span_of_stops hfront h
  apply run_bind_of_run
  show (make? ((front ++ cs).takeWhile p)).map (·, (front ++ cs).dropWhile p) = _
  rw [htake, hdrop, ha]
  rfl

theorem isDigit_of_mem_toDigits {n : Nat} {c : Char} (h : c ∈ Nat.toDigits 10 n) :
    c.isDigit = true :=
  Nat.isDigit_of_mem_toDigits (by decide) (by decide) h

theorem natOfChars?_toDigits (n : Nat) : Decimal.natOfChars? (Nat.toDigits 10 n) = some n := by
  have hall : (Nat.toDigits 10 n).all Char.isDigit = true :=
    List.all_eq_true.2 fun c hc => isDigit_of_mem_toDigits hc
  rw [Decimal.natOfChars?, hall, Nat.ofDigitChars_ten_toDigits]
  simp [Nat.toDigits_ne_nil]

theorem toList_toString (n : Nat) : (toString n).toList = Nat.toDigits 10 n := by
  rw [Nat.toString_eq_ofList_toDigits, String.toList_ofList]

theorem run_number_bind {f : Nat → Reader α} (n : Nat) (h : Stops Char.isDigit cs) :
    (number >>= f).run (Nat.toDigits 10 n ++ cs) = (f n).run cs :=
  run_field_bind (fun _ => isDigit_of_mem_toDigits) (natOfChars?_toDigits n) h

/-! ## Lines -/

theorem isPrefixOf?_eq_none {v w cs : List Char} (hvw : ¬ v <+: w) (hwv : ¬ w <+: v) :
    v.isPrefixOf? (w ++ cs) = none := by
  rw [Option.eq_none_iff_forall_ne_some]
  intro rest hrest
  have hv : v <+: w ++ cs := ⟨rest, List.isPrefixOf?_eq_some_iff_append_eq.1 hrest⟩
  exact (List.prefix_or_prefix_of_prefix hv (List.prefix_append w cs)).elim hvw hwv

/-- Each line is read by its own form. -/
theorem run_oneOf {forms : List (String × Reader α)} (h : Distinct (forms.map Prod.fst))
    {x : Reader α} (hx : (words, x) ∈ forms) (cs : List Char) :
    (oneOf forms).run (words.toList ++ cs) = x.run cs := by
  induction forms with
  | nil => cases hx
  | cons form forms ih =>
    obtain ⟨hform, hforms⟩ := List.pairwise_cons.1 h
    rcases List.mem_cons.1 hx with rfl | hx
    · show (match words.toList.isPrefixOf? (words.toList ++ cs) with
        | some rest => x.run rest
        | none => _) = _
      rw [isPrefixOf?_append]
    · obtain ⟨hvw, hwv⟩ := hform words (List.mem_map_of_mem (f := Prod.fst) hx)
      show (match form.1.toList.isPrefixOf? (words.toList ++ cs) with
        | some rest => form.2.run rest
        | none => (oneOf forms).run (words.toList ++ cs)) = _
      rw [isPrefixOf?_eq_none hvw hwv]
      exact ih hforms hx

theorem run_form {forms : List (String × Reader α)} (h : Distinct (forms.map Prod.fst)) (i : Nat)
    {x : Reader α} (hx : forms[i]? = some (words, x)) (cs : List Char) :
    (oneOf forms).run (words.toList ++ cs) = x.run cs :=
  run_oneOf h (List.mem_of_getElem? hx) cs

theorem run_optionally (words : String) {x : Reader α} {a : α} {rest : List Char}
    (h : x.run cs = some (a, rest)) :
    (optionally words x).run (words.toList ++ cs) = some (some a, rest) := by
  show (match words.toList.isPrefixOf? (words.toList ++ cs) with
    | some rest => (x.run rest).map _
    | none => _) = _
  rw [isPrefixOf?_append]
  dsimp only
  rw [h]
  rfl

theorem run_optionally_of_distinct {other : String} (h : Distinct [words, other]) (x : Reader α)
    (cs : List Char) :
    (optionally words x).run (other.toList ++ cs) = some (none, other.toList ++ cs) := by
  obtain ⟨hvw, hwv⟩ := (List.pairwise_cons.1 h).1 other List.mem_cons_self
  show (match words.toList.isPrefixOf? (other.toList ++ cs) with
    | some rest => (x.run rest).map _
    | none => some (none, other.toList ++ cs)) = _
  rw [isPrefixOf?_eq_none hvw hwv]

theorem read?_of_run {x : Reader α} {text : String} {a : α} (h : x.run text.toList = some (a, [])) :
    x.read? text = some a := by
  rw [read?, h]

end Reader

end TickMachine
