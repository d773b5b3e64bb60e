import TickMachine.Proofs.NumberText

/-!
# Numbers of log fields

`Binary.ofText?_fieldText`: a number is read back from what `Binary.fieldText` writes.
`Binary.fieldText_notation` tells which numbers have which notation.

Scientific notation spells the shortest decimal itself. The `.0` of a whole number makes the
coefficient ten times as large, and the number stays the same.
-/

namespace TickMachine

attribute [local instance (high)] instPowNat

namespace Decimal

variable {f : Format} {d : Decimal} {c : Char}

/-! ## Scientific notation -/

theorem exists_toDigits (n : Nat) : ∃ c cs, Nat.toDigits 10 n = c :: cs ∧ c.isDigit = true ∧
    ∀ e ∈ cs, e.isDigit = true := by
  have hall : ∀ c ∈ Nat.toDigits 10 n, c.isDigit = true := fun c => Reader.isDigit_of_mem_toDigits
  obtain ⟨c, cs, hcs⟩ := List.exists_cons_of_ne_nil (Nat.toDigits_ne_nil : Nat.toDigits 10 n ≠ [])
  rw [hcs] at hall
  exact ⟨c, cs, hcs, hall c List.mem_cons_self, fun e he => hall e (List.mem_cons_of_mem c he)⟩

theorem intOfChars?_sign (negative : Bool) (n : Nat) :
    intOfChars? ((if negative then ['-'] else []) ++ Nat.toDigits 10 n) =
      some (if negative then -(n : Int) else n) := by
  obtain ⟨c, cs, hcs, hc, -⟩ := exists_toDigits n
  unfold intOfChars?
  rw [hcs, Binary.takeSign_append negative hc, ← hcs]
  dsimp only
  rw [Reader.natOfChars?_toDigits]
  rfl

theorem toList_toString_int (n : Int) : (toString n).toList =
    (if decide (n < 0) then ['-'] else []) ++ Nat.toDigits 10 n.natAbs := by
  cases n with
  | ofNat n =>
    show (toString n).toList = _
    rw [Reader.toList_toString]
    rfl
  | negSucc n =>
    show ("-" ++ toString (n + 1)).toList = _
    rw [String.toList_append, Reader.toList_toString]
    simp

theorem intOfChars?_toString (n : Int) : intOfChars? (toString n).toList = some n := by
  rw [toList_toString_int, intOfChars?_sign]
  congr 1
  simp only [decide_eq_true_eq]
  split <;> omega

/-- Scientific notation is read back as the decimal that it was written for. -/
theorem ofChars?_scientific (d : Decimal) : ofChars? d.scientific = some d := by
  obtain ⟨c, cs, hcs, hc, hall⟩ := exists_toDigits d.coefficient
  have hcoefficient : Nat.ofDigitChars 10 (c :: cs) 0 = d.coefficient := by
    rw [← hcs, Nat.ofDigitChars_ten_toDigits]
  have hwhole : ∀ e ∈ [c], e.isDigit = true := List.forall_mem_singleton.2 hc
  have hexponent (n : Int) : exponentOfChars? ('e' :: (toString n).toList) = some n :=
    intOfChars?_toString n
  have hdigits : d.digits = c :: cs := hcs
  unfold scientific
  rw [hdigits]
  cases cs with
  | nil =>
    show ofChars? ([c] ++ 'e' :: (toString (d.exponent + (1 : Nat) - 1)).toList) = _
    have hpower : d.exponent + (1 : Nat) - 1 = d.exponent := by omega
    rw [hpower, ofChars?_whole (List.cons_ne_nil c []) hwhole (by simp [Reader.Stops]), hexponent,
      hcoefficient]
    rfl
  | cons e es =>
    show ofChars? ([c] ++ '.' :: (e :: es ++ 'e' ::
      (toString (d.exponent + (es.length + 1 + 1 : Nat) - 1)).toList)) = _
    have hpower :
        d.exponent + (es.length + 1 + 1 : Nat) - 1 - (es.length + 1 : Nat) = d.exponent := by
      omega
    rw [ofChars?_fraction (List.cons_ne_nil c []) hwhole hall (by simp [Reader.Stops]), hexponent,
      List.singleton_append, hcoefficient, Option.map_some, List.length_cons, hpower]

theorem mem_scientific (h : c ∈ d.scientific) :
    c.isDigit = true ∨ c = '.' ∨ c = 'e' ∨ c = '-' := by
  have hdigits : ∀ {e}, e ∈ d.digits → e.isDigit = true := Reader.isDigit_of_mem_toDigits
  have hpower : c ∈ (toString (d.exponent + d.digits.length - 1)).toList →
      c.isDigit = true ∨ c = '-' := by
    rw [toList_toString_int, List.mem_append]
    rintro (h | h)
    · split at h
      · exact .inr (List.mem_singleton.1 h)
      · cases h
    · exact .inl (Reader.isDigit_of_mem_toDigits h)
  simp only [scientific, List.mem_append, List.mem_cons] at h
  rcases h with (h | h) | rfl | h
  · exact .inl (hdigits (List.mem_of_mem_take h))
  · split at h
    · cases h
    · rcases List.mem_cons.1 h with rfl | h
      · exact .inr (.inl rfl)
      · exact .inl (hdigits (List.mem_of_mem_drop h))
  · exact .inr (.inr (.inl rfl))
  · exact (hpower h).imp_right fun h => .inr (.inr h)

/-! ## Whole numbers -/

theorem positional_of_nonneg (h : 0 ≤ d.exponent) : d.positional = d.padded := by
  have hplaces : d.places = 0 := Int.toNat_of_nonpos (Int.neg_nonpos_of_nonneg h)
  rw [positional_eq, if_pos hplaces]

/-- A zero behind the point is read as ten times the coefficient. -/
theorem ofChars?_pointZero (h : 0 ≤ d.exponent) :
    ofChars? (d.positional ++ ['.', '0']) = some ⟨d.plain.coefficient * 10, -1⟩ := by
  have hne : d.padded ≠ [] :=
    List.ne_nil_of_length_pos (Nat.zero_lt_of_lt d.places_lt_length_padded)
  have hzero : ∀ c ∈ ['0'], c.isDigit = true := List.forall_mem_singleton.2 rfl
  have hread := ofChars?_fraction hne (fun _ => isDigit_of_mem_padded) hzero
    (Reader.stops_nil _)
  have hcoefficient : Nat.ofDigitChars 10 (d.padded ++ ['0']) 0 = d.plain.coefficient * 10 := by
    rw [Nat.ofDigitChars_append, ofDigitChars_padded]
    exact Nat.mul_comm 10 _
  rw [List.append_nil] at hread
  rw [positional_of_nonneg h, hread, hcoefficient]
  rfl

theorem magnitude_tenfold (f : Format) (n : Nat) :
    (⟨n * 10, -1⟩ : Decimal).magnitude f = (⟨n, 0⟩ : Decimal).magnitude f := by
  obtain rfl | hn := Nat.eq_zero_or_pos n
  · rw [Nat.zero_mul, magnitude_zero, magnitude_zero]
  have hten : n * 10 ≠ 0 := Nat.mul_ne_zero (Nat.ne_of_gt hn) (by decide)
  have hdown : (- -1 : Int).toNat < (n * 10).log2 + f.scale + 2 := by
    show 1 < _
    omega
  rw [magnitude_eq_round f hten (Nat.two_pow_pos _) hdown,
    magnitude_eq_round f (Nat.ne_of_gt hn) (Nat.two_pow_pos _) (by simp)]
  show f.round (n * 10 * 1 * 2 ^ f.scale) (1 * 10) = f.round (n * 1 * 2 ^ f.scale) 1
  rw [← f.round_mul_mul (n * 1 * 2 ^ f.scale) 1 (by decide : 0 < 10)]
  congr 1
  rw [Nat.mul_one, Nat.mul_one, Nat.mul_right_comm]

theorem exists_scientific (d : Decimal) :
    ∃ c cs, d.scientific = c :: cs ∧ c.isDigit = true := by
  obtain ⟨c, cs, hcs, hc, -⟩ := exists_toDigits d.coefficient
  have hdigits : d.digits = c :: cs := hcs
  unfold scientific
  rw [hdigits]
  exact ⟨c, _, rfl, hc⟩

end Decimal

namespace Binary

variable {f : Format} {x : Binary f}

/-! ## The notations -/

/-- The three notations of a field. -/
theorem fieldText_cases (x : Binary f) :
    (x.isModerate = false ∧ x.fieldText = x.write Decimal.scientific) ∨
      (x.isModerate = true ∧ x.decimal.exponent < 0 ∧ x.fieldText = x.write Decimal.positional) ∨
      (x.isModerate = true ∧ 0 ≤ x.decimal.exponent ∧
        x.fieldText = x.write fun d => d.positional ++ ['.', '0']) := by
  unfold fieldText write
  by_cases hm : x.isModerate = true
  · by_cases he : x.decimal.exponent < 0
    · exact .inr (.inl ⟨hm, he, by simp [hm, he]⟩)
    · exact .inr (.inr ⟨hm, Int.not_lt.1 he, by simp [hm, he]⟩)
  · exact .inl ⟨Bool.not_eq_true _ ▸ hm, by simp [hm]⟩

/-- A number is read back from its field. -/
theorem ofText?_fieldText (x : Binary f) : ofText? x.fieldText = some x.canonical := by
  rcases x.fieldText_cases with ⟨-, h⟩ | ⟨-, -, h⟩ | ⟨-, he, h⟩
  · rw [h]
    exact ofText?_write x.decimal.exists_scientific fun _ => ⟨_, x.decimal.ofChars?_scientific, rfl⟩
  · rw [h]
    exact x.ofText?_text
  · rw [h]
    obtain ⟨c, cs, hcs, hc⟩ := x.decimal.exists_positional
    refine ofText?_write ⟨c, cs ++ ['.', '0'], by rw [hcs, List.cons_append], hc⟩ fun hlt =>
      ⟨_, Decimal.ofChars?_pointZero he, ?_⟩
    have hplain : x.decimal.plain = ⟨x.decimal.plain.coefficient, 0⟩ := by
      rw [Decimal.plain, Int.min_eq_right he]
    rw [Decimal.magnitude_tenfold, ← hplain, Decimal.magnitude_plain hlt]

theorem fieldText_canonical (h : 0 < f.fractionBits) (x : Binary f) :
    x.canonical.fieldText = x.fieldText := by
  cases hx : x.isNaN with
  | false => rw [canonical_of_not_isNaN hx]
  | true =>
    rw [canonical_of_isNaN hx, fieldText, fieldText, write_of_isNaN _ (isNaN_nan h),
      write_of_isNaN _ hx]

theorem isModerate_iff (x : Binary f) : x.isModerate = true ↔ x.magnitude = 0 ∨
    2 ^ f.scale ≤ x.units * 10 ^ (4 : Nat) ∧ x.units < 10 ^ (16 : Nat) * 2 ^ f.scale := by
  simp [isModerate]

/-- A finite number has an exponent if it is not zero, and smaller than `10 ^ -4` or not smaller
than `10 ^ 16`; without an exponent it has a point. -/
theorem fieldText_notation (h : x.isFinite = true) :
    ('e' ∈ x.fieldText.toList ↔ ¬ (x.magnitude = 0 ∨
      2 ^ f.scale ≤ x.units * 10 ^ (4 : Nat) ∧ x.units < 10 ^ (16 : Nat) * 2 ^ f.scale)) ∧
    ('e' ∈ x.fieldText.toList ∨ '.' ∈ x.fieldText.toList) := by
  have hmem {layout : Decimal → List Char} {c : Char} (hc : c ∈ layout x.decimal) :
      c ∈ (x.write layout).toList := by
    rw [toList_write_of_isFinite layout h]
    exact List.mem_append_right _ hc
  have hnone {layout : Decimal → List Char} (hc : 'e' ∉ layout x.decimal) :
      'e' ∉ (x.write layout).toList := fun he => (mem_write layout he).elim (by decide) hc
  have hpositional : 'e' ∉ x.decimal.positional := fun he =>
    (Decimal.mem_positional he).elim (by decide) (by decide)
  rw [← isModerate_iff]
  rcases x.fieldText_cases with ⟨hm, ht⟩ | ⟨hm, he, ht⟩ | ⟨hm, he, ht⟩
  · have hexp : 'e' ∈ x.fieldText.toList := by
      rw [ht]
      exact hmem (List.mem_append_right _ List.mem_cons_self)
    exact ⟨iff_of_true hexp (by simp [hm]), .inl hexp⟩
  · have hplaces : x.decimal.places ≠ 0 := by
      have : x.decimal.places = (-x.decimal.exponent).toNat := rfl
      omega
    have hpoint : '.' ∈ x.decimal.positional := by
      rw [Decimal.positional_eq, if_neg hplaces]
      exact List.mem_append_right _ List.mem_cons_self
    rw [ht]
    exact ⟨iff_of_false (hnone hpositional) (by simp [hm]), .inr (hmem hpoint)⟩
  · have hpointZero : 'e' ∉ x.decimal.positional ++ ['.', '0'] := fun he =>
      (List.mem_append.1 he).elim hpositional (by decide)
    rw [ht]
    exact ⟨iff_of_false (hnone hpointZero) (by simp [hm]), .inr (hmem (by simp))⟩

/-! ## Fields -/

/-- The characters that numbers of fields are written with. -/
def isFieldNumeral (c : Char) : Bool := isNumeral c || c == 'e'

theorem isFieldNumeral_of_mem_fieldText {c : Char} (h : c ∈ x.fieldText.toList) :
    isFieldNumeral c = true := by
  have hnumeral (h : isNumeral c = true) : isFieldNumeral c = true := by simp [isFieldNumeral, h]
  have hdigit (h : c.isDigit = true) : isFieldNumeral c = true := by
    simp [isFieldNumeral, isNumeral, h]
  rcases x.fieldText_cases with ⟨-, ht⟩ | ⟨-, -, ht⟩ | ⟨-, -, ht⟩
  · rw [ht] at h
    refine (mem_write _ h).elim hnumeral fun h => ?_
    rcases Decimal.mem_scientific h with h | rfl | rfl | rfl
    · exact hdigit h
    all_goals rfl
  · rw [ht] at h
    exact hnumeral (isNumeral_of_mem_text h)
  · rw [ht] at h
    refine (mem_write _ h).elim hnumeral fun h => ?_
    rcases List.mem_append.1 h with h | h
    · rcases Decimal.mem_positional h with h | rfl
      · exact hdigit h
      · rfl
    · simp only [List.mem_cons, List.not_mem_nil, or_false] at h
      rcases h with rfl | rfl <;> rfl

end Binary

namespace Reader

/-- Reads a number of a field. -/
def fieldNumeral {f : Format} : Reader (Binary f) :=
  field Binary.isFieldNumeral fun cs => Binary.ofText? (String.ofList cs)

theorem run_fieldNumeral_bind {f : Format} {α : Type} {k : Binary f → Reader α} (x : Binary f)
    {cs : List Char} (h : Stops Binary.isFieldNumeral cs) :
    (fieldNumeral >>= k).run (x.fieldText.toList ++ cs) = (k x.canonical).run cs := by
  refine run_field_bind (fun _ => Binary.isFieldNumeral_of_mem_fieldText) ?_ h
  rw [String.ofList_toList, Binary.ofText?_fieldText]

end Reader

end TickMachine
