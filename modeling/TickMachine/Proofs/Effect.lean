import TickMachine.Machine.Effect

/-!
# When instructions succeed and when they fail

`Yields` lists what each instruction does to the bytes on the stack, said without reading them in
reverse. `effect_eq_ok_iff` and `effect_eq_error_iff` state that `effect` is this relation where an
instruction succeeds, and that it fails for want of room or of bytes alone.
-/

namespace TickMachine.Instruction

/-- The bytes before an instruction, the bytes after it and the event it reports. -/
inductive Yields : Instruction → List UInt8 → List UInt8 → Event → Prop where
  | greet (xs : List UInt8) : Yields greet xs xs .helloWorld
  | set (xs : List UInt8) (v : UInt8) (h : xs.length < stackCapacity) :
    Yields (set v) xs (xs ++ [v]) (.set v)
  | add (xs : List UInt8) (a b : UInt8) :
    Yields add (xs ++ [a, b]) (xs ++ [a + b]) (.add a b (a + b))
  | printFloat (xs : List UInt8) (b0 b1 b2 b3 : UInt8) :
    Yields printFloat (xs ++ [b0, b1, b2, b3]) xs (.printFloat (Binary.ofBytes b0 b1 b2 b3) .stack)
  | printInline (xs : List UInt8) (operand : Vector UInt8 4) :
    Yields (printInline operand) xs xs (.printFloat (Binary.ofVector operand) .operand)
  | wait (xs : List UInt8) (amount : UInt8) : Yields wait (xs ++ [amount]) xs (.wait amount)
  | restart (xs : List UInt8) : Yields restart xs [] .restart

variable {i : Instruction} {xs ys : List UInt8} {e : Event} {fault : Fault}

theorem effect_of_yields (h : i.Yields xs ys e) : i.effect xs = .ok (ys, e) := by
  unfold effect
  cases h with
  | set xs v h => exact if_pos h
  | _ => simp

theorem yields_of_effect (h : i.effect xs = .ok (ys, e)) : i.Yields xs ys e := by
  have hxs := xs.reverse_reverse
  unfold effect at h
  cases i with
  | greet => cases h; exact .greet xs
  | printInline operand => cases h; exact .printInline xs operand
  | restart => cases h; exact .restart xs
  | set v =>
    dsimp only at h
    split at h
    · next hlt => cases h; exact .set xs v hlt
    · cases h
  | wait =>
    rcases hr : xs.reverse with _ | ⟨n, zs⟩ <;> rw [hr] at h hxs <;> cases h
    rw [← hxs, List.reverse_cons]
    exact .wait _ n
  | add =>
    rcases hr : xs.reverse with _ | ⟨b, _ | ⟨a, zs⟩⟩ <;> rw [hr] at h hxs <;> cases h
    rw [← hxs, List.reverse_cons, List.reverse_cons, List.append_assoc]
    exact .add _ a b
  | printFloat =>
    rcases hr : xs.reverse with _ | ⟨b3, _ | ⟨b2, _ | ⟨b1, _ | ⟨b0, zs⟩⟩⟩⟩ <;> rw [hr] at h hxs <;>
      cases h
    simp only [List.reverse_cons, List.append_assoc] at hxs
    rw [← hxs]
    exact .printFloat _ b0 b1 b2 b3

theorem effect_eq_ok_iff : i.effect xs = .ok (ys, e) ↔ i.Yields xs ys e :=
  ⟨yields_of_effect, effect_of_yields⟩

theorem yields_wait_iff {amount : UInt8} :
    i.Yields xs ys (.wait amount) ↔ i = wait ∧ xs = ys ++ [amount] := by
  constructor
  · intro h
    cases h
    exact ⟨rfl, rfl⟩
  · rintro ⟨rfl, rfl⟩
    exact .wait ys amount

theorem yields_restart_iff : i.Yields xs ys .restart ↔ i = restart ∧ ys = [] := by
  constructor
  · intro h
    cases h
    exact ⟨rfl, rfl⟩
  · rintro ⟨rfl, rfl⟩
    exact .restart xs

theorem effect_of_length_lt (h : xs.length < i.need) :
    i.effect xs = .error (.stackUnderflow i.need xs.length) := by
  have hlen : xs.reverse.length = xs.length := List.length_reverse
  unfold effect
  cases i with
  | greet | set _ | printInline _ | restart => cases h
  | wait =>
    rcases hr : xs.reverse with _ | ⟨n, zs⟩
    · rfl
    · rw [hr, List.length_cons] at hlen
      simp only [need] at h
      omega
  | add =>
    rcases hr : xs.reverse with _ | ⟨b, _ | ⟨a, zs⟩⟩
    · rfl
    · rfl
    · rw [hr, List.length_cons, List.length_cons] at hlen
      simp only [need] at h
      omega
  | printFloat =>
    rcases hr : xs.reverse with _ | ⟨b3, _ | ⟨b2, _ | ⟨b1, _ | ⟨b0, zs⟩⟩⟩⟩
    · rfl
    · rfl
    · rfl
    · rfl
    · simp only [hr, List.length_cons] at hlen
      simp only [need] at h
      omega

/-- With its bytes at hand and room for a push, an instruction succeeds. -/
theorem exists_yields (h : i.need ≤ xs.length)
    (hroom : ∀ v, i = set v → xs.length < stackCapacity) : ∃ ys e, i.Yields xs ys e := by
  obtain ⟨zs, bs, rfl, hbs⟩ : ∃ zs bs, xs = zs ++ bs ∧ bs.length = i.need :=
    ⟨_, _, (List.take_append_drop (xs.length - i.need) xs).symm, by rw [List.length_drop]; omega⟩
  cases i with
  | greet => exact ⟨_, _, .greet _⟩
  | set v => exact ⟨_, _, .set _ v (hroom v rfl)⟩
  | printInline operand => exact ⟨_, _, .printInline _ operand⟩
  | restart => exact ⟨_, _, .restart _⟩
  | wait =>
    match bs, hbs with
    | [n], _ => exact ⟨_, _, .wait zs n⟩
  | add =>
    match bs, hbs with
    | [a, b], _ => exact ⟨_, _, .add zs a b⟩
  | printFloat =>
    match bs, hbs with
    | [b0, b1, b2, b3], _ => exact ⟨_, _, .printFloat zs b0 b1 b2 b3⟩

/-- Only a push can find the stack full. -/
theorem effect_eq_error_iff : i.effect xs = .error fault ↔
    (∃ v, i = set v ∧ stackCapacity ≤ xs.length ∧ fault = .stackOverflow stackCapacity) ∨
      (xs.length < i.need ∧ fault = .stackUnderflow i.need xs.length) := by
  constructor
  · intro h
    by_cases hn : xs.length < i.need
    · rw [effect_of_length_lt hn] at h
      cases h
      exact .inr ⟨hn, rfl⟩
    · by_cases hroom : ∀ v, i = set v → xs.length < stackCapacity
      · obtain ⟨ys, e, hy⟩ := exists_yields (Nat.le_of_not_lt hn) hroom
        rw [effect_of_yields hy] at h
        cases h
      · obtain ⟨v, rfl, hfull⟩ : ∃ v, i = set v ∧ ¬ xs.length < stackCapacity := by
          simpa using hroom
        unfold effect at h
        dsimp only at h
        rw [if_neg hfull] at h
        cases h
        exact .inl ⟨v, rfl, Nat.le_of_not_lt hfull, rfl⟩
  · rintro (⟨v, rfl, hfull, rfl⟩ | ⟨hn, rfl⟩)
    · exact if_neg (Nat.not_lt.2 hfull)
    · exact effect_of_length_lt hn

end TickMachine.Instruction
