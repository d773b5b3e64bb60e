import TickMachine.Binary.Basic

/-!
# Rounding to a format

Every inexact result is a quotient of natural numbers, in units, rounded once to the nearest number
of the format; halfway between two it goes to the one with the even magnitude.

`roundDiv_mul` and `round_unitsOf` state that what needs no rounding is kept.
-/

namespace TickMachine

attribute [local instance (high)] instPowNat

/-- The quotient rounded to the nearest whole number, a half to the even one. -/
def roundDiv (num den : Nat) : Nat :=
  let q := num / den
  let twice := 2 * (num % den)
  if twice < den then q else if den < twice then q + 1 else q + q % 2

theorem roundDiv_mul (q : Nat) {den : Nat} (h : 0 < den) : roundDiv (q * den) den = q := by
  simp [roundDiv, h]

theorem roundDiv_mul_mul (num den : Nat) {k : Nat} (h : 0 < k) :
    roundDiv (num * k) (den * k) = roundDiv num den := by
  have hlt (a b : Nat) : a * k < b * k ↔ a < b := Nat.mul_lt_mul_right h
  simp only [roundDiv, Nat.mul_div_mul_right _ _ h, Nat.mul_mod_mul_right, ← Nat.mul_assoc, hlt]

namespace Format

/-- The magnitude nearest to `num / den` units, infinity from where the exponents end. The quotient
is cut to `fractionBits + 1` binary digits; what is cut off counts one exponent step a digit. -/
def round (f : Format) (num den : Nat) : Nat :=
  let cut := (num / den).log2 - f.fractionBits
  min (roundDiv num (den * 2 ^ cut) + cut * 2 ^ f.fractionBits) f.infinity

theorem round_le (f : Format) (num den : Nat) : f.round num den ≤ f.infinity :=
  Nat.min_le_right _ _

theorem round_zero (f : Format) (den : Nat) : f.round 0 den = 0 := by
  simp only [round, roundDiv, Nat.zero_div, Nat.zero_mod, Nat.log2_zero, Nat.zero_sub]
  split <;> simp_all

theorem round_mul_mul (f : Format) (num den : Nat) {k : Nat} (h : 0 < k) :
    f.round (num * k) (den * k) = f.round num den := by
  simp only [round, Nat.mul_div_mul_right _ _ h, Nat.mul_right_comm den k,
    roundDiv_mul_mul _ _ h]

/-- `m * 2 ^ e` units, for `m` of `fractionBits + 1` binary digits, have the magnitude
`m + e * 2 ^ fractionBits`. -/
theorem unitsOf_add_mul (f : Format) {e m : Nat} (hlo : 2 ^ f.fractionBits ≤ m)
    (hhi : m < 2 * 2 ^ f.fractionBits) :
    Binary.unitsOf f (m + e * 2 ^ f.fractionBits) = m * 2 ^ e := by
  have hp := Nat.two_pow_pos f.fractionBits
  unfold Binary.unitsOf
  generalize 2 ^ f.fractionBits = p at *
  obtain ⟨r, rfl⟩ : ∃ r, m = p + r := ⟨m - p, by omega⟩
  have hr : r < p := by omega
  have hsum : p + r + e * p = r + (e + 1) * p := by rw [Nat.add_mul]; omega
  have hdiv : (p + r + e * p) / p = e + 1 := by
    rw [hsum, Nat.add_mul_div_right _ _ hp, Nat.div_eq_of_lt hr, Nat.zero_add]
  have hmod : (p + r + e * p) % p = r := by
    rw [hsum, Nat.add_mul_mod_self_right, Nat.mod_eq_of_lt hr]
  rw [if_neg (by omega), hdiv, hmod, Nat.add_sub_cancel]

/-- Every magnitude beyond the fractions alone is one of the shape of `unitsOf_add_mul`. -/
theorem exists_add_mul (f : Format) {a : Nat} (h : 2 ^ f.fractionBits ≤ a) :
    ∃ e m, 2 ^ f.fractionBits ≤ m ∧ m < 2 * 2 ^ f.fractionBits ∧
      a = m + e * 2 ^ f.fractionBits := by
  have hp := Nat.two_pow_pos f.fractionBits
  generalize 2 ^ f.fractionBits = p at *
  have hmod := Nat.mod_lt a hp
  have hdiv := Nat.div_add_mod' a p
  have hpos : 1 ≤ a / p := (Nat.le_div_iff_mul_le hp).2 (by omega)
  refine ⟨a / p - 1, p + a % p, by omega, by omega, ?_⟩
  rw [Nat.sub_mul]
  have := Nat.mul_le_mul_right p hpos
  omega

/-- Numbers of the format are kept. -/
theorem round_unitsOf (f : Format) {a : Nat} (h : a ≤ f.infinity) :
    f.round (Binary.unitsOf f a) 1 = a := by
  have hp := Nat.two_pow_pos f.fractionBits
  unfold round
  simp only [Nat.div_one, Nat.one_mul]
  by_cases hs : a < 2 ^ f.fractionBits
  · have hu : Binary.unitsOf f a = a := by simp [Binary.unitsOf, hs]
    have hl : a.log2 - f.fractionBits = 0 := by
      by_cases h0 : a = 0
      · simp [h0]
      · have := (Nat.log2_lt h0).2 hs
        omega
    rw [hu, hl, Nat.pow_zero]
    have := roundDiv_mul a Nat.one_pos
    simp_all
  · obtain ⟨e, m, hlo, hhi, rfl⟩ := f.exists_add_mul (Nat.le_of_not_lt hs)
    have hl : (m * 2 ^ e).log2 - f.fractionBits = e := by
      have hne : m * 2 ^ e ≠ 0 := by
        have := Nat.two_pow_pos e
        exact Nat.mul_ne_zero (by omega) (by omega)
      have h1 : f.fractionBits + e ≤ (m * 2 ^ e).log2 :=
        (Nat.le_log2 hne).2 (by rw [Nat.pow_add]; exact Nat.mul_le_mul_right _ hlo)
      have h2 : (m * 2 ^ e).log2 < f.fractionBits + 1 + e :=
        (Nat.log2_lt hne).2 (by
          rw [Nat.pow_add, Nat.pow_succ, Nat.mul_comm _ 2]
          exact Nat.mul_lt_mul_of_pos_right hhi (Nat.two_pow_pos _))
      omega
    rw [f.unitsOf_add_mul hlo hhi, hl, roundDiv_mul _ (Nat.two_pow_pos e)]
    exact Nat.min_eq_left h

end Format

end TickMachine
