import TickMachine.Binary.Arithmetic

/-!
# Decimal numbers

A `Decimal` is a natural number times a power of ten. `magnitude` finds the nearest number of a
binary format, `Binary.ofDecimal` gives it a sign.
-/

namespace TickMachine

attribute [local instance (high)] instPowNat

/-- The number `coefficient * 10 ^ exponent`. -/
structure Decimal where
  coefficient : Nat
  exponent : Int
  deriving DecidableEq, Repr

namespace Decimal

/-- The magnitude of `f` nearest to the decimal. Exponents so large or small that the answer is
plain are decided first, before a power of ten is computed. -/
def magnitude (f : Format) (d : Decimal) : Nat :=
  let up := d.exponent.toNat
  let down := (-d.exponent).toNat
  if d.coefficient = 0 then 0
  else if 2 ^ (f.exponentBits - 1) ≤ up then f.infinity
  else if d.coefficient.log2 + f.scale + 2 ≤ down then 0
  else f.round (d.coefficient * 10 ^ up * 2 ^ f.scale) (10 ^ down)

theorem magnitude_le (f : Format) (d : Decimal) : d.magnitude f ≤ f.infinity := by
  unfold magnitude
  dsimp only
  split
  · exact Nat.zero_le _
  split
  · exact Nat.le_refl _
  split
  · exact Nat.zero_le _
  · exact f.round_le _ _

theorem magnitude_zero (f : Format) (e : Int) : (⟨0, e⟩ : Decimal).magnitude f = 0 := rfl

/-- Between the plain cases the decimal is rounded. -/
theorem magnitude_eq_round (f : Format) {c : Nat} {e : Int} (hc : c ≠ 0)
    (hup : e.toNat < 2 ^ (f.exponentBits - 1)) (hdown : (-e).toNat < c.log2 + f.scale + 2) :
    (⟨c, e⟩ : Decimal).magnitude f =
      f.round (c * 10 ^ e.toNat * 2 ^ f.scale) (10 ^ (-e).toNat) :=
  (if_neg hc).trans ((if_neg (Nat.not_le.2 hup)).trans (if_neg (Nat.not_le.2 hdown)))

end Decimal

/-- The number nearest to a decimal of the given sign. -/
def Binary.ofDecimal {f : Format} (negative : Bool) (d : Decimal) : Binary f :=
  ⟨negative, d.magnitude f, Nat.lt_of_le_of_lt (d.magnitude_le f) f.infinity_lt_magnitudes⟩

end TickMachine
