import TickMachine.Program

/-!
# Decoding read off the bytes

What stands at a position depends on the bytes from there on. `decode_eq_instruction_iff`: an
instruction is decoded where its bytes stand; `decode_eq_truncated_iff`, `decode_eq_unknown_iff` and
`decode_eq_ended_iff` say the same of the other outcomes.
-/

namespace TickMachine.Program

variable {p : Program} {n pos : Nat} {b : UInt8} {op : Opcode} {i : Instruction}

/-! ## Fetching -/

theorem fetch?_eq_some_iff : p.fetch? pos = some b ↔ ∃ bs, p.toList.drop pos = b :: bs := by
  have hget : p.fetch? pos = (p.toList.drop pos).head? := by
    rw [List.head?_drop]
    simp [fetch?, toList]
  rw [hget]
  cases p.toList.drop pos <;> simp

theorem fetch?_eq_none_iff : p.fetch? pos = none ↔ p.size ≤ pos := by simp [fetch?, size]

theorem lt_size_of_fetch? (h : p.fetch? pos = some b) : pos < p.size := by
  rw [← Nat.not_le, ← fetch?_eq_none_iff, h]
  exact Option.some_ne_none b

theorem fetchN?_eq_none_iff : p.fetchN? n pos = none ↔ p.size < pos + n := by
  rw [← Option.not_isSome_iff_eq_none, isSome_fetchN?, Nat.not_le]

/-- The bytes that are read stand there. -/
theorem prefix_of_fetchN? {v : Vector UInt8 n} (h : p.fetchN? n pos = some v) :
    v.toList <+: p.toList.drop pos := by
  rw [List.prefix_iff_getElem?]
  intro k hk
  rw [List.getElem?_drop]
  have hf := fetch?_of_fetchN? h k (by simpa using hk)
  simpa [fetch?, toList] using hf

theorem fetchN?_eq_some_iff {v : Vector UInt8 n} (hn : 0 < n) :
    p.fetchN? n pos = some v ↔ v.toList <+: p.toList.drop pos := by
  constructor
  · exact prefix_of_fetchN?
  · intro h
    have hle := h.length_le
    rw [Vector.length_toList, List.length_drop, length_toList] at hle
    obtain ⟨w, hw⟩ := Option.isSome_iff_exists.1 ((isSome_fetchN? p n pos).2 (by omega))
    have hwv : w.toList <+: v.toList :=
      List.prefix_of_prefix_length_le (prefix_of_fetchN? hw) h (by simp)
    rw [hw, ← Vector.toList_inj.1 (hwv.eq_of_length (by simp))]

/-! ## Operands -/

theorem operandAt_eq_instruction_iff :
    p.operandAt pos op = .instruction i ↔ i.opcode = op ∧ i.operand <+: p.toList.drop pos := by
  cases op with
  | set =>
    constructor
    · intro h
      cases hf : p.fetchN? 1 pos with
      | none => simp [operandAt, hf] at h
      | some v =>
        simp only [operandAt, hf, Decoded.instruction.injEq] at h
        have hv : [v[0]] <+: p.toList.drop pos := by
          obtain ⟨b, hb⟩ := List.length_eq_one_iff.1 v.length_toList
          have h0 : v[0] = b := by
            rw [← Vector.getElem_toList (by simp)]
            simp [hb]
          rw [h0, ← hb]
          exact prefix_of_fetchN? hf
        rw [← h]
        exact ⟨rfl, hv⟩
    · rintro ⟨ho, h⟩
      cases i <;> cases ho
      next value =>
      have hf : p.fetchN? 1 pos = some #v[value] := (fetchN?_eq_some_iff Nat.one_pos).2 h
      simp [operandAt, hf]
  | printInline =>
    constructor
    · intro h
      cases hf : p.fetchN? 4 pos with
      | none => simp [operandAt, hf] at h
      | some v =>
        simp only [operandAt, hf, Decoded.instruction.injEq] at h
        rw [← h]
        exact ⟨rfl, prefix_of_fetchN? hf⟩
    · rintro ⟨ho, h⟩
      cases i <;> cases ho
      next operand =>
      have hf : p.fetchN? 4 pos = some operand := (fetchN?_eq_some_iff (by omega)).2 h
      simp [operandAt, hf]
  | _ => cases i <;> simp [operandAt, Instruction.opcode, Instruction.operand]

/-- An operand is missing exactly where the bytes end before it does. -/
theorem operandAt_eq_truncated_iff {o : Opcode} :
    p.operandAt pos op = .truncated o ↔
      o = op ∧ 0 < op.operandWidth ∧ p.size < pos + op.operandWidth := by
  cases op with
  | set =>
    cases hf : p.fetchN? 1 pos with
    | none => simp [operandAt, hf, Opcode.operandWidth, fetchN?_eq_none_iff.1 hf, eq_comm]
    | some v =>
      have := (isSome_fetchN? p 1 pos).1 (by rw [hf]; rfl)
      simp [operandAt, hf, Opcode.operandWidth]
      omega
  | printInline =>
    cases hf : p.fetchN? 4 pos with
    | none => simp [operandAt, hf, Opcode.operandWidth, fetchN?_eq_none_iff.1 hf, eq_comm]
    | some v =>
      have := (isSome_fetchN? p 4 pos).1 (by rw [hf]; rfl)
      simp [operandAt, hf, Opcode.operandWidth]
      omega
  | _ => simp [operandAt, Opcode.operandWidth]

theorem operandAt_ne_ended : p.operandAt pos op ≠ .ended := by
  cases op <;> simp only [operandAt] <;> (try split) <;> simp

theorem operandAt_ne_unknown : p.operandAt pos op ≠ .unknown b := by
  cases op <;> simp only [operandAt] <;> (try split) <;> simp

/-! ## Decoding -/

theorem decode_of_fetch? (h : p.fetch? pos = some op.byte) :
    p.decode pos = p.operandAt (pos + 1) op := by
  simp [decode, h]

/-- Every position falls under one of three: the end, a byte that is no opcode, an opcode. -/
theorem decode_cases (p : Program) (pos : Nat) :
    (p.fetch? pos = none ∧ p.decode pos = .ended) ∨
      (∃ b, p.fetch? pos = some b ∧ Opcode.ofByte? b = none ∧ p.decode pos = .unknown b) ∨
        ∃ op : Opcode, p.fetch? pos = some op.byte ∧ p.decode pos = p.operandAt (pos + 1) op := by
  cases hf : p.fetch? pos with
  | none => exact .inl ⟨rfl, by simp [decode, hf]⟩
  | some b =>
    cases ho : Opcode.ofByte? b with
    | none => exact .inr (.inl ⟨b, rfl, ho, by simp [decode, hf, ho]⟩)
    | some op =>
      obtain rfl := Opcode.ofByte?_eq_some_iff.1 ho
      exact .inr (.inr ⟨op, rfl, decode_of_fetch? hf⟩)

theorem decode_eq_ended_iff : p.decode pos = .ended ↔ p.size ≤ pos := by
  rw [← fetch?_eq_none_iff]
  rcases decode_cases p pos with ⟨hf, hd⟩ | ⟨b, hf, _, hd⟩ | ⟨op, hf, hd⟩ <;> rw [hf, hd]
  · simp
  · simp
  · simp [operandAt_ne_ended]

theorem decode_eq_unknown_iff :
    p.decode pos = .unknown b ↔ p.fetch? pos = some b ∧ Opcode.ofByte? b = none := by
  rcases decode_cases p pos with ⟨hf, hd⟩ | ⟨c, hf, ho, hd⟩ | ⟨op, hf, hd⟩ <;> rw [hf, hd]
  · simp
  · simp only [Decoded.unknown.injEq, Option.some.injEq]
    exact ⟨fun h => ⟨h, h ▸ ho⟩, And.left⟩
  · simp only [operandAt_ne_unknown, Option.some.injEq, false_iff]
    rintro ⟨rfl, ho⟩
    rw [Opcode.ofByte?_byte] at ho
    cases ho

/-- An opcode without its operand is found where the bytes end too early. -/
theorem decode_eq_truncated_iff : p.decode pos = .truncated op ↔
    p.fetch? pos = some op.byte ∧ 0 < op.operandWidth ∧ p.size < pos + 1 + op.operandWidth := by
  rcases decode_cases p pos with ⟨hf, hd⟩ | ⟨c, hf, ho, hd⟩ | ⟨op', hf, hd⟩ <;> rw [hf, hd]
  · simp
  · simp only [reduceCtorEq, Option.some.injEq, false_iff]
    rintro ⟨rfl, _⟩
    rw [Opcode.ofByte?_byte] at ho
    cases ho
  · rw [operandAt_eq_truncated_iff, Option.some.injEq, Opcode.byte_inj, eq_comm]
    constructor
    · rintro ⟨rfl, h⟩
      exact ⟨rfl, h⟩
    · rintro ⟨rfl, h⟩
      exact ⟨rfl, h⟩

/-- Where its bytes stand, and only there, an instruction is decoded. -/
theorem decode_eq_instruction_iff :
    p.decode pos = .instruction i ↔ i.encode <+: p.toList.drop pos := by
  rw [Instruction.encode]
  rcases decode_cases p pos with ⟨hf, hd⟩ | ⟨c, hf, ho, hd⟩ | ⟨op, hf, hd⟩ <;> rw [hd]
  · have hnil : p.toList.drop pos = [] := by
      rw [List.drop_eq_nil_iff, length_toList]
      exact fetch?_eq_none_iff.1 hf
    simp [hnil]
  · obtain ⟨bs, hbs⟩ := fetch?_eq_some_iff.1 hf
    rw [hbs, List.cons_prefix_cons]
    simp only [reduceCtorEq, false_iff]
    rintro ⟨rfl, _⟩
    rw [Opcode.ofByte?_byte] at ho
    cases ho
  · obtain ⟨bs, hbs⟩ := fetch?_eq_some_iff.1 hf
    have hdrop : p.toList.drop (pos + 1) = bs := by rw [← List.drop_drop, hbs]; rfl
    rw [operandAt_eq_instruction_iff, hdrop, hbs, List.cons_prefix_cons, Opcode.byte_inj]

theorem add_width_le_of_decode (h : p.decode pos = .instruction i) : pos + i.width ≤ p.size := by
  have hle := (decode_eq_instruction_iff.1 h).length_le
  rw [Instruction.length_encode, List.length_drop, length_toList] at hle
  have := i.width_pos
  omega

/-- The opcode of an instruction is its first byte. -/
theorem fetch?_of_decode (h : p.decode pos = .instruction i) :
    p.fetch? pos = some i.opcode.byte := by
  obtain ⟨bs, hbs⟩ := decode_eq_instruction_iff.1 h
  exact fetch?_eq_some_iff.2 ⟨i.operand ++ bs, hbs.symm⟩

end TickMachine.Program
