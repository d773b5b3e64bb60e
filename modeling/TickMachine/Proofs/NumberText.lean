import TickMachine.Proofs.Reader

/-!
# Numbers read back

`Binary.ofText?_text` states that what `Binary.text` writes is read back bit for bit, all patterns
that are no number as one. So two texts are the same only for the same datum
(`Binary.text_eq_text_iff`).

Positional notation spells out a power of ten above the point, so the decimal that is read is not
the one that was written; it is equal as a number, and rounds to the same magnitude.
-/

namespace TickMachine

attribute [local instance (high)] instPowNat

namespace Decimal

/-- The same number without a positive exponent. -/
def plain (d : Decimal) : Decimal := ⟨d.coefficient * 10 ^ d.exponent.toNat, min d.exponent 0⟩

/-! ## Positional notation -/

/-- The number of digits after the point. -/
def places (d : Decimal) : Nat := (-d.exponent).toNat

/-- All digits of the positional notation. -/
def padded (d : Decimal) : List Char :=
  List.replicate (d.places + 1 - d.digits.length) '0' ++ d.digits ++
    List.replicate d.exponent.toNat '0'

theorem positional_eq (d : Decimal) : d.positional =
    if d.places = 0 then d.padded
    else d.padded.take (d.padded.length - d.places) ++
      '.' :: d.padded.drop (d.padded.length - d.places) := rfl

theorem isDigit_of_mem_padded {d : Decimal} {c : Char} (h : c ∈ d.padded) : c.isDigit = true := by
  simp only [padded, List.mem_append, List.mem_replicate] at h
  rcases h with (⟨-, rfl⟩ | h) | ⟨-, rfl⟩
  · rfl
  · exact Reader.isDigit_of_mem_toDigits h
  · rfl

/-- There is a digit before the point. -/
theorem places_lt_length_padded (d : Decimal) : d.places < d.padded.length := by
  simp only [padded, List.length_append, List.length_replicate]
  omega

theorem ofDigitChars_padded (d : Decimal) :
    Nat.ofDigitChars 10 d.padded 0 = d.coefficient * 10 ^ d.exponent.toNat := by
  rw [padded, Nat.ofDigitChars_append, Nat.ofDigitChars_append, Nat.ofDigitChars_replicate_zero,
    Nat.ofDigitChars_replicate_zero, Nat.mul_zero, digits, Nat.ofDigitChars_ten_toDigits,
    Nat.mul_comm]

/-- Digits without a point are read up to the exponent. -/
theorem ofChars?_whole {whole rest : List Char} (hne : whole ≠ [])
    (hwhole : ∀ c ∈ whole, c.isDigit = true)
    (hrest : Reader.Stops (fun c => c.isDigit || c == '.') rest) :
    ofChars? (whole ++ rest) =
      (exponentOfChars? rest).map fun e => ⟨Nat.ofDigitChars 10 whole 0, e⟩ := by
  have hstops : Reader.Stops Char.isDigit rest := fun c hc =>
    (Bool.or_eq_false_iff.1 (hrest c hc)).1
  obtain ⟨htake, hdrop⟩ := Reader.span_of_stops hwhole hstops
  unfold ofChars?
  rw [htake, hdrop]
  cases rest with
  | nil => simp [hne]
  | cons c cs =>
    have hc : c ≠ '.' := by simpa using (Bool.or_eq_false_iff.1 (hrest c rfl)).2
    simp [hne, hc]

/-- Digits around a point are read up to the exponent. -/
theorem ofChars?_fraction {whole fraction rest : List Char} (hne : whole ≠ [])
    (hwhole : ∀ c ∈ whole, c.isDigit = true) (hfraction : ∀ c ∈ fraction, c.isDigit = true)
    (hrest : Reader.Stops Char.isDigit rest) :
    ofChars? (whole ++ '.' :: (fraction ++ rest)) = (exponentOfChars? rest).map fun e =>
      ⟨Nat.ofDigitChars 10 (whole ++ fraction) 0, e - fraction.length⟩ := by
  have hstops : Reader.Stops Char.isDigit ('.' :: (fraction ++ rest)) := by simp [Reader.Stops]
  obtain ⟨htake, hdrop⟩ := Reader.span_of_stops hwhole hstops
  obtain ⟨htake', hdrop'⟩ := Reader.span_of_stops hfraction hrest
  simp [ofChars?, htake, hdrop, htake', hdrop', hne]

theorem ofChars?_positional (d : Decimal) : ofChars? d.positional = some d.plain := by
  have hlt := d.places_lt_length_padded
  rw [positional_eq]
  split
  · next h =>
    have hne : d.padded ≠ [] := List.ne_nil_of_length_pos (Nat.zero_lt_of_lt hlt)
    have hexp : min d.exponent 0 = 0 := by
      have : (-d.exponent).toNat = 0 := h
      omega
    have hread := ofChars?_whole hne (fun _ => isDigit_of_mem_padded) (Reader.stops_nil _)
    rw [List.append_nil] at hread
    rw [hread, ofDigitChars_padded, plain, hexp]
    rfl
  · next h =>
    have hne : d.padded.take (d.padded.length - d.places) ≠ [] := by
      apply List.ne_nil_of_length_pos
      rw [List.length_take]
      omega
    have hexp :
        -((d.padded.drop (d.padded.length - d.places)).length : Int) = min d.exponent 0 := by
      have : d.places = (-d.exponent).toNat := rfl
      rw [List.length_drop]
      omega
    have hfraction : ∀ c ∈ d.padded.drop (d.padded.length - d.places), c.isDigit = true :=
      fun c hc => isDigit_of_mem_padded (List.mem_of_mem_drop hc)
    have hread := ofChars?_fraction hne
      (fun _ hc => isDigit_of_mem_padded (List.mem_of_mem_take hc)) hfraction
      (Reader.stops_nil _)
    rw [List.append_nil] at hread
    rw [hread, List.take_append_drop, ofDigitChars_padded, plain, ← hexp, ← Int.zero_sub]
    rfl

theorem mem_positional {d : Decimal} {c : Char} (h : c ∈ d.positional) :
    c.isDigit = true ∨ c = '.' := by
  rw [positional_eq] at h
  split at h
  · exact .inl (isDigit_of_mem_padded h)
  · rcases List.mem_append.1 h with h | h
    · exact .inl (isDigit_of_mem_padded (List.mem_of_mem_take h))
    · rcases List.mem_cons.1 h with h | h
      · exact .inr h
      · exact .inl (isDigit_of_mem_padded (List.mem_of_mem_drop h))

theorem exists_positional (d : Decimal) :
    ∃ c cs, d.positional = c :: cs ∧ c.isDigit = true := by
  have hlt := d.places_lt_length_padded
  obtain ⟨c, cs, hcs⟩ := List.exists_cons_of_length_pos (Nat.zero_lt_of_lt hlt)
  have hc : c.isDigit = true := isDigit_of_mem_padded (hcs ▸ List.mem_cons_self)
  rw [positional_eq]
  split
  · exact ⟨c, cs, hcs, hc⟩
  · obtain ⟨n, hn⟩ := Nat.exists_eq_succ_of_ne_zero
      (Nat.sub_ne_zero_of_lt hlt : d.padded.length - d.places ≠ 0)
    rw [hn, hcs]
    exact ⟨c, _, rfl, hc⟩

/-! ## Rounding -/

/-- A finite magnitude does not tell a decimal from its plain form. -/
theorem magnitude_plain {f : Format} {d : Decimal} (h : d.magnitude f < f.infinity) :
    d.plain.magnitude f = d.magnitude f := by
  obtain ⟨c, e⟩ := d
  by_cases he : e < 0
  · have hplain : plain ⟨c, e⟩ = ⟨c, e⟩ := by
      simp [plain, Int.toNat_of_nonpos (Int.le_of_lt he), Int.min_eq_left (Int.le_of_lt he)]
    rw [hplain]
  have hplain : plain ⟨c, e⟩ = ⟨c * 10 ^ e.toNat, 0⟩ := by
    simp [plain, Int.min_eq_right (Int.not_lt.1 he)]
  rw [hplain]
  obtain rfl | hc := Nat.eq_zero_or_pos c
  · rw [Nat.zero_mul, magnitude_zero, magnitude_zero]
  have hpos : 0 < c * 10 ^ e.toNat := Nat.mul_pos hc (Nat.pow_pos (by decide))
  have hup : e.toNat < 2 ^ (f.exponentBits - 1) := by
    refine Nat.lt_of_not_le fun hle => Nat.lt_irrefl f.infinity ?_
    have hinf : (⟨c, e⟩ : Decimal).magnitude f = f.infinity :=
      (if_neg (Nat.ne_of_gt hc)).trans (if_pos hle)
    rwa [hinf] at h
  have hdown : (-e).toNat = 0 := by omega
  rw [magnitude_eq_round f (Nat.ne_of_gt hc) hup (by omega),
    magnitude_eq_round f (Nat.ne_of_gt hpos) (Nat.two_pow_pos _) (by simp), hdown]
  simp

end Decimal

namespace Binary

variable {f : Format} {x y : Binary f}

/-! ## The datum of a pattern -/

/-- All patterns that are no number count as one. -/
def canonical (x : Binary f) : Binary f := if x.isNaN then nan else x

theorem class_cases (x : Binary f) :
    x.isNaN = true ∨ x.isInfinite = true ∨ x.isFinite = true := by
  simp only [isNaN, isInfinite, isFinite, decide_eq_true_eq, beq_iff_eq]
  omega

theorem magnitude_of_isInfinite (h : x.isInfinite = true) : x.magnitude = f.infinity :=
  eq_of_beq h

theorem magnitude_of_isFinite (h : x.isFinite = true) : x.magnitude < f.infinity :=
  of_decide_eq_true h

theorem isNaN_of_isInfinite (h : x.isInfinite = true) : x.isNaN = false :=
  decide_eq_false (Nat.not_lt.2 (Nat.le_of_eq (magnitude_of_isInfinite h)))

theorem isNaN_of_isFinite (h : x.isFinite = true) : x.isNaN = false :=
  decide_eq_false (Nat.not_lt.2 (Nat.le_of_lt (magnitude_of_isFinite h)))

theorem canonical_of_isNaN (h : x.isNaN = true) : x.canonical = nan := if_pos h

theorem canonical_of_not_isNaN (h : x.isNaN = false) : x.canonical = x := by
  rw [canonical, h]
  rfl

theorem isNaN_nan (h : 0 < f.fractionBits) : (nan : Binary f).isNaN = true := by
  have hlt : f.infinity + 2 ^ (f.fractionBits - 1) < f.magnitudes := by
    have hexp := Nat.two_pow_pos f.exponentBits
    have hhalf : 2 ^ (f.fractionBits - 1) < 2 ^ f.fractionBits :=
      Nat.pow_lt_pow_right (by decide) (Nat.sub_lt h Nat.one_pos)
    have hsum : f.infinity + 2 ^ f.fractionBits = f.magnitudes := by
      rw [Format.infinity, Format.magnitudes, Nat.pow_add, ← Nat.succ_mul]
      congr 1
      omega
    omega
  have hpos := Nat.two_pow_pos (f.fractionBits - 1)
  simp only [isNaN, nan, ofPattern, Nat.mod_eq_of_lt hlt, decide_eq_true_eq]
  omega

theorem canonical_eq_canonical_iff (h : 0 < f.fractionBits) :
    x.canonical = y.canonical ↔ x.same y = true := by
  have hnan := isNaN_nan h
  unfold canonical same
  cases hx : x.isNaN <;> cases hy : y.isNaN
  · simp
  · have : x ≠ nan := fun e => by simp [e, hnan] at hx
    have : x ≠ y := fun e => by simp [e, hy] at hx
    simp [*]
  · have : nan ≠ y := fun e => by simp [← e, hnan] at hy
    have : x ≠ y := fun e => by simp [e, hy] at hx
    simp [*]
  · simp

/-! ## Text -/

section

variable (layout : Decimal → List Char)

theorem write_of_isNaN (h : x.isNaN = true) : x.write layout = "NaN" := if_pos h

theorem toList_write_of_isInfinite (h : x.isInfinite = true) :
    (x.write layout).toList = (if x.negative then ['-'] else []) ++ ['i', 'n', 'f'] := by
  simp [write, isNaN_of_isInfinite h, h]

theorem toList_write_of_isFinite (h : x.isFinite = true) :
    (x.write layout).toList = (if x.negative then ['-'] else []) ++ layout x.decimal := by
  have hinf : x.isInfinite = false := by
    simp [isInfinite, Nat.ne_of_lt (magnitude_of_isFinite h)]
  simp [write, isNaN_of_isFinite h, hinf]

theorem write_canonical (h : 0 < f.fractionBits) (x : Binary f) :
    x.canonical.write layout = x.write layout := by
  cases hx : x.isNaN with
  | false => rw [canonical_of_not_isNaN hx]
  | true =>
    rw [canonical_of_isNaN hx, write_of_isNaN layout (isNaN_nan h), write_of_isNaN layout hx]

/-- The characters that numbers are written with. -/
def isNumeral (c : Char) : Bool := c.isDigit || c ∈ ['-', '.', 'i', 'n', 'f', 'N', 'a']

theorem mem_write {c : Char} (h : c ∈ (x.write layout).toList) :
    isNumeral c = true ∨ c ∈ layout x.decimal := by
  have hsign : c ∈ (if x.negative then ['-'] else []) → isNumeral c = true := by
    cases x.negative <;> simp +contextual [isNumeral]
  rcases x.class_cases with hx | hx | hx
  · rw [write_of_isNaN layout hx] at h
    simp at h
    rcases h with rfl | rfl | rfl <;> exact .inl rfl
  · rw [toList_write_of_isInfinite layout hx, List.mem_append] at h
    refine .inl (h.elim hsign fun h => ?_)
    simp at h
    rcases h with rfl | rfl | rfl <;> rfl
  · rw [toList_write_of_isFinite layout hx, List.mem_append] at h
    exact h.imp_left hsign

end

theorem toLower_of_isDigit {c : Char} (h : c.isDigit = true) : c.toLower = c := by
  have hnine : c.val ≤ '9'.val := of_decide_eq_true (Bool.and_eq_true_iff.1 h).2
  have hlt : '9'.val < 'A'.val := by decide
  exact dif_neg fun hupper => UInt32.not_le.2 hlt (UInt32.le_trans hupper.1 hnine)

theorem takeSign_append {c : Char} {cs : List Char} (negative : Bool) (h : c.isDigit = true) :
    Decimal.takeSign ((if negative then ['-'] else []) ++ c :: cs) = (negative, c :: cs) := by
  cases negative with
  | true => rfl
  | false =>
    show Decimal.takeSign (c :: cs) = _
    unfold Decimal.takeSign
    split
    · next heq => cases heq; cases h
    · next heq => cases heq; cases h
    · rfl

theorem ofText?_infinity (negative : Bool) :
    (ofText? (String.ofList ((if negative then ['-'] else []) ++ ['i', 'n', 'f'])) :
      Option (Binary f)) = some (infinity negative) := by
  cases negative <;> rfl

/-- A text that begins with a digit is read as a decimal. -/
theorem ofText?_digit {c : Char} {cs : List Char} (negative : Bool) (h : c.isDigit = true) :
    (ofText? (String.ofList ((if negative then ['-'] else []) ++ c :: cs)) : Option (Binary f)) =
      (Decimal.ofChars? (c :: cs)).map (ofDecimal negative) := by
  have hne {word : String} (hword : ∀ d ∈ word.toList.head?, d.isDigit = false) :
      String.ofList ((c :: cs).map Char.toLower) ≠ word := by
    rintro rfl
    rw [String.toList_ofList, List.map_cons, toLower_of_isDigit h] at hword
    rw [hword c rfl] at h
    cases h
  unfold ofText?
  rw [String.toList_ofList, takeSign_append negative h]
  dsimp only
  split
  · next heq => exact absurd heq (hne (by simp))
  · next heq => exact absurd heq (hne (by simp))
  · next heq => exact absurd heq (hne (by simp))
  · rfl

/-- A number is read back if the layout begins with a digit and spells a decimal that rounds to the
same magnitude as the shortest. -/
theorem ofText?_write {layout : Decimal → List Char}
    (hdigit : ∃ c cs, layout x.decimal = c :: cs ∧ c.isDigit = true)
    (hread : x.decimal.magnitude f < f.infinity → ∃ d,
      Decimal.ofChars? (layout x.decimal) = some d ∧ d.magnitude f = x.decimal.magnitude f) :
    ofText? (x.write layout) = some x.canonical := by
  rcases x.class_cases with h | h | h
  · rw [write_of_isNaN layout h, canonical_of_isNaN h]
    rfl
  · have hx : infinity x.negative = x := ext_fields rfl (magnitude_of_isInfinite h).symm
    rw [← String.ofList_toList (s := x.write layout), toList_write_of_isInfinite layout h,
      ofText?_infinity, hx, canonical_of_not_isNaN (isNaN_of_isInfinite h)]
  · have hlt := magnitude_of_isFinite h
    have hdecimal : x.decimal.magnitude f = x.magnitude :=
      Decimal.magnitude_shortest f (Nat.le_of_lt hlt)
    obtain ⟨c, cs, hcs, hc⟩ := hdigit
    obtain ⟨d, hd, hmagnitude⟩ := hread (hdecimal ▸ hlt)
    rw [← String.ofList_toList (s := x.write layout), toList_write_of_isFinite layout h, hcs,
      ofText?_digit x.negative hc, ← hcs, hd, canonical_of_not_isNaN (isNaN_of_isFinite h)]
    exact congrArg some (ext_fields rfl (hmagnitude.trans hdecimal))

/-- A number is read back from its text. -/
theorem ofText?_text (x : Binary f) : ofText? x.text = some x.canonical :=
  ofText?_write x.decimal.exists_positional fun h =>
    ⟨_, x.decimal.ofChars?_positional, Decimal.magnitude_plain h⟩

theorem text_canonical (h : 0 < f.fractionBits) (x : Binary f) : x.canonical.text = x.text :=
  write_canonical Decimal.positional h x

/-- Two numbers have the same text only if they are the same datum. -/
theorem text_eq_text_iff (h : 0 < f.fractionBits) : x.text = y.text ↔ x.same y = true := by
  rw [← canonical_eq_canonical_iff h]
  constructor
  · intro htext
    have hread : some x.canonical = some y.canonical := by
      rw [← x.ofText?_text, htext, y.ofText?_text]
    exact Option.some.inj hread
  · intro hcanonical
    rw [← text_canonical h x, hcanonical, text_canonical h y]

/-! ## Fields -/

theorem isNumeral_of_mem_text {c : Char} (h : c ∈ x.text.toList) : isNumeral c = true := by
  rcases mem_write Decimal.positional h with h | h
  · exact h
  · rcases Decimal.mem_positional h with h | rfl
    · simp [isNumeral, h]
    · rfl

end Binary

namespace Reader

/-- Reads a number of the format. -/
def numeral {f : Format} : Reader (Binary f) :=
  field Binary.isNumeral fun cs => Binary.ofText? (String.ofList cs)

theorem run_numeral_bind {f : Format} {α : Type} {k : Binary f → Reader α} (x : Binary f)
    {cs : List Char} (h : Stops Binary.isNumeral cs) :
    (numeral >>= k).run (x.text.toList ++ cs) = (k x.canonical).run cs := by
  refine run_field_bind (fun _ => Binary.isNumeral_of_mem_text) ?_ h
  rw [String.ofList_toList, Binary.ofText?_text]

end Reader

end TickMachine
