import TickMachine.Proofs.Messages
import TickMachine.QuotedText

/-!
# Quoted text read back

Quoted text tells the text that was quoted (`unquote?_quote`), prints in full
(`isUnprintable_of_mem_quote`), and holds a text without quotes, backslashes and unprintable
characters as it is (`quote_of_printable`).

Quoted text is read by a machine of a few states, one character after the other. Each character that
was quoted takes it from plain text to plain text.
-/

namespace TickMachine

namespace Unquoting

/-- Where in quoted text the reader is. -/
inductive Place where
  | plain
  /-- Behind a backslash. -/
  | escape
  /-- Behind the letter of a spelled out code point. -/
  | letter
  /-- Between braces, the digits so far making this number. -/
  | digits (n : Nat)
  | closed
  deriving DecidableEq, Repr

/-- Takes one character: where the reader is then, and what it has read, if that is a character. -/
def step (c : Char) : Place → Option (Place × List Char)
  | .plain =>
    if c = '"' then some (.closed, [])
    else if c = '\\' then some (.escape, [])
    else some (.plain, [c])
  | .escape =>
    match c with
    | '"' | '\\' => some (.plain, [c])
    | 't' => some (.plain, ['\t'])
    | 'r' => some (.plain, ['\r'])
    | 'n' => some (.plain, ['\n'])
    | '0' => some (.plain, ['\x00'])
    | 'u' => some (.letter, [])
    | _ => none
  | .letter => if c = '\x7b' then some (.digits 0, []) else none
  | .digits n =>
    if c = '\x7d' then some (.plain, [.ofNat n])
    else (Fault.hexDigit? c).map fun d => (.digits (16 * n + d), [])
  | .closed => none

/-- Takes characters one after the other. -/
def run : List Char → Place → Option (Place × List Char)
  | [], place => some (place, [])
  | c :: cs, place =>
    match step c place with
    | some (next, front) => (run cs next).map fun (last, back) => (last, front ++ back)
    | none => none

end Unquoting

/-- What was quoted, if the text is quoted text. -/
def unquote? (text : String) : Option String :=
  match text.toList with
  | '"' :: cs =>
    match Unquoting.run cs .plain with
    | some (.closed, read) => some (String.ofList read)
    | _ => none
  | _ => none

namespace Unquoting

variable {c : Char} {cs front : List Char} {place next : Place}

theorem run_cons (h : step c place = some (next, front)) (cs : List Char) :
    run (c :: cs) place = (run cs next).map fun (last, back) => (last, front ++ back) := by
  rw [run, h]

theorem run_cons_of_nil (h : step c place = some (next, [])) (cs : List Char) :
    run (c :: cs) place = run cs next := by
  rw [run_cons h]
  simp

theorem step_digitChar {d : Nat} (h : d < 16) (n : Nat) :
    step (Nat.digitChar d) (.digits n) = some (.digits (16 * n + d), []) := by
  have hbrace : Nat.digitChar d ≠ '\x7d' := by decide +revert
  rw [step, if_neg hbrace, Fault.hexDigit?_digitChar h]
  rfl

/-- The digits between braces are read as the number that they make. -/
theorem run_toDigits (n : Nat) (cs : List Char) :
    run (Nat.toDigits 16 n ++ cs) (.digits 0) = run cs (.digits n) := by
  induction n using Nat.strongRecOn generalizing cs with
  | ind n ih =>
    obtain h | h := Nat.lt_or_ge n 16
    · rw [Nat.toDigits_of_lt_base h, List.singleton_append, run_cons_of_nil (step_digitChar h 0),
        Nat.mul_zero, Nat.zero_add]
    · have hlt : n / 16 < n := Nat.div_lt_self (by omega) (by decide)
      have hlast : n % 16 < 16 := Nat.mod_lt n (by decide)
      rw [Nat.toDigits_of_base_le (by decide) h, List.append_assoc, ih _ hlt,
        List.singleton_append, run_cons_of_nil (step_digitChar hlast _), Nat.div_add_mod]

/-- How a character stands in quoted text. -/
inductive Escaped (c : Char) : List Char → Prop where
  | plain (hquote : c ≠ '"') (hbackslash : c ≠ '\\') (hc : isUnprintable c = false) : Escaped c [c]
  /-- A letter or the character itself behind a backslash. -/
  | marked {mark : Char} (hc : c = '"' ∨ c = '\\' ∨ isUnprintable c = true)
    (hmark : isUnprintable mark = false) (hstep : step mark .escape = some (.plain, [c])) :
    Escaped c ['\\', mark]
  | spelled (hc : isUnprintable c = true) :
    Escaped c ('\\' :: 'u' :: '\x7b' :: (Nat.toDigits 16 c.toNat ++ ['\x7d']))

theorem escaped (c : Char) : Escaped c (escapeChar c) := by
  unfold escapeChar
  split
  · exact .marked (.inl rfl) (by decide +kernel) rfl
  · exact .marked (.inr (.inl rfl)) (by decide +kernel) rfl
  · exact .marked (.inr (.inr (by decide +kernel))) (by decide +kernel) rfl
  · exact .marked (.inr (.inr (by decide +kernel))) (by decide +kernel) rfl
  · exact .marked (.inr (.inr (by decide +kernel))) (by decide +kernel) rfl
  · exact .marked (.inr (.inr (by decide +kernel))) (by decide +kernel) rfl
  · next hquote hbackslash _ _ _ _ =>
    by_cases h : isUnprintable c = true
    · rw [if_pos h]
      exact .spelled h
    · rw [if_neg h]
      exact .plain hquote hbackslash (Bool.not_eq_true _ ▸ h)

/-- What stands for a character is read as the character. -/
theorem Escaped.run_append (h : Escaped c front) (cs : List Char) :
    run (front ++ cs) .plain = (run cs .plain).map fun (last, back) => (last, c :: back) := by
  cases h with
  | plain hquote hbackslash hc =>
    have hplain : step c .plain = some (.plain, [c]) := by
      rw [step, if_neg hquote, if_neg hbackslash]
    exact run_cons hplain cs
  | marked hc hmark hstep =>
    have hbackslash : step '\\' .plain = some (.escape, []) := rfl
    exact (run_cons_of_nil hbackslash _).trans (run_cons hstep cs)
  | spelled hc =>
    have hbrace : step '\x7d' (.digits c.toNat) = some (.plain, [c]) := by
      rw [step, if_pos rfl, Char.ofNat_toNat]
    simp only [List.cons_append, List.append_assoc, List.nil_append]
    rw [run_cons_of_nil rfl, run_cons_of_nil rfl, run_cons_of_nil rfl, run_toDigits,
      run_cons hbrace]
    rfl

theorem run_flatMap (cs : List Char) :
    run (cs.flatMap escapeChar ++ ['"']) .plain = some (.closed, cs) := by
  induction cs with
  | nil => rfl
  | cons c cs ih =>
    rw [List.flatMap_cons, List.append_assoc, (escaped c).run_append, ih]
    rfl

end Unquoting

theorem toList_quote (s : String) :
    (quote s).toList = '"' :: (s.toList.flatMap escapeChar ++ ['"']) := by
  rw [quote, String.toList_ofList, List.cons_append]

/-- Text is read back from quoted text. -/
theorem unquote?_quote (s : String) : unquote? (quote s) = some s := by
  unfold unquote?
  rw [toList_quote]
  show (match Unquoting.run (s.toList.flatMap escapeChar ++ ['"']) .plain with
    | some (.closed, read) => some (String.ofList read)
    | _ => none) = _
  rw [Unquoting.run_flatMap]
  dsimp only
  rw [String.ofList_toList]

/-! ## What quoted text looks like -/

theorem isUnprintable_of_mem_toDigits {n : Nat} {c : Char} (h : c ∈ Nat.toDigits 16 n) :
    isUnprintable c = false := by
  have hdigit : ∀ d < 16, isUnprintable (Nat.digitChar d) = false := by decide +kernel
  induction n using Nat.strongRecOn with
  | ind n ih =>
    obtain hn | hn := Nat.lt_or_ge n 16
    · rw [Nat.toDigits_of_lt_base hn, List.mem_singleton] at h
      exact h ▸ hdigit n hn
    · rw [Nat.toDigits_of_base_le (by decide) hn, List.mem_append, List.mem_singleton] at h
      rcases h with h | h
      · exact ih _ (Nat.div_lt_self (by omega) (by decide)) h
      · exact h ▸ hdigit _ (Nat.mod_lt n (by decide))

theorem Unquoting.Escaped.isUnprintable_of_mem {c e : Char} {front : List Char}
    (h : Escaped c front) (he : e ∈ front) : isUnprintable e = false := by
  cases h with
  | plain hquote hbackslash hc => exact List.mem_singleton.1 he ▸ hc
  | marked hc hmark hstep =>
    rcases List.mem_cons.1 he with rfl | he
    · decide +kernel
    · exact List.mem_singleton.1 he ▸ hmark
  | spelled hc =>
    simp only [List.mem_cons, List.mem_append, List.not_mem_nil, or_false] at he
    rcases he with rfl | rfl | rfl | he | rfl
    · decide +kernel
    · decide +kernel
    · decide +kernel
    · exact isUnprintable_of_mem_toDigits he
    · decide +kernel

/-- Quoted text prints in full. -/
theorem isUnprintable_of_mem_quote {s : String} {c : Char} (h : c ∈ (quote s).toList) :
    isUnprintable c = false := by
  have hquote : isUnprintable '"' = false := by decide +kernel
  rw [toList_quote, List.mem_cons, List.mem_append, List.mem_singleton] at h
  rcases h with rfl | h | rfl
  · exact hquote
  · obtain ⟨e, -, he⟩ := List.mem_flatMap.1 h
    exact (Unquoting.escaped e).isUnprintable_of_mem he
  · exact hquote

/-- Printable text without quotes and backslashes stands as it is. -/
theorem quote_of_printable {s : String}
    (h : ∀ c ∈ s.toList, c ≠ '"' ∧ c ≠ '\\' ∧ isUnprintable c = false) :
    quote s = "\"" ++ s ++ "\"" := by
  have hescape : ∀ c ∈ s.toList, escapeChar c = [c] := by
    intro c hc
    obtain ⟨hquote, hbackslash, hprint⟩ := h c hc
    have hc' := Unquoting.escaped c
    generalize escapeChar c = front at hc'
    cases hc' with
    | plain => rfl
    | marked hc hmark hstep => simp [hquote, hbackslash, hprint] at hc
    | spelled hc => simp [hprint] at hc
  have hbody : s.toList.flatMap escapeChar = s.toList := by
    rw [List.flatMap_congr hescape, List.flatMap_singleton']
  rw [← String.toList_inj, toList_quote, hbody]
  simp

end TickMachine
