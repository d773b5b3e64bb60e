import TickMachine.Decimal.Basic

/-!
# The shortest decimal of a number

Among the decimals that read back as a number, the shortest has the fewest digits, and of those it
is the nearest, the larger one when two are equally near.

The search runs over the grids `10 ^ g`, from the first power of ten above the number to finer and
finer ones. On each grid only the two neighbours of the number can be nearest. The first grid with a
hit ends the search, so no digit of the answer can be spared.

`magnitude_shortest` states that the answer reads back.
-/

namespace TickMachine.Decimal

attribute [local instance (high)] instPowNat

variable (f : Format)

/-- The decimal number of digits of a natural number. -/
def digitCount (n : Nat) : Nat := (Nat.toDigits 10 n).length

/-- The `g` with `10 ^ (g - 1) ≤ num / den < 10 ^ g`, for a positive quotient. -/
def pointPosition (num den : Nat) : Int :=
  if den ≤ num then digitCount (num / den) else 1 - (digitCount ((den - 1) / num) : Int)

/-- The neighbour of the magnitude `a` on the grid `10 ^ g` that reads back as `a`: the nearer one
if both do, the upper one of two equally near. -/
def onGrid? (a : Nat) (g : Int) : Option Decimal :=
  let num := Binary.unitsOf f a * 10 ^ (-g).toNat
  let den := 2 ^ f.scale * 10 ^ g.toNat
  let below : Decimal := ⟨num / den, g⟩
  let above : Decimal := ⟨num / den + 1, g⟩
  if below.magnitude f = a then
    if above.magnitude f = a ∧ den ≤ 2 * (num % den) then some above else some below
  else if above.magnitude f = a then some above
  else none

/-- The value of the magnitude `a` with all its decimals: one unit is `5 ^ scale / 10 ^ scale`. -/
def exact (a : Nat) : Decimal := ⟨Binary.unitsOf f a * 5 ^ f.scale, -f.scale⟩

/-- The shortest decimal that reads back as the magnitude `a`. A grid with as many digits as the
fraction has bits, and two more, always has a hit. -/
def shortest (a : Nat) : Decimal :=
  let top := pointPosition (Binary.unitsOf f a) (2 ^ f.scale)
  if a = 0 then ⟨0, 0⟩
  else
    let grids := (List.range (f.fractionBits + 3)).map fun n : Nat => top - n
    (grids.findSome? (onGrid? f a)).getD (exact f a)

/-! ## Reading back -/

theorem magnitude_of_onGrid? {a : Nat} {g : Int} {d : Decimal} (h : onGrid? f a g = some d) :
    d.magnitude f = a := by
  unfold onGrid? at h
  grind

theorem magnitude_exact {a : Nat} (h : a ≤ f.infinity) : (exact f a).magnitude f = a := by
  have hu := f.round_unitsOf h
  have hfive : 0 < 5 ^ f.scale := Nat.pow_pos (by decide)
  by_cases h0 : Binary.unitsOf f a = 0
  · rw [h0, f.round_zero] at hu
    rw [exact, h0, Nat.zero_mul, magnitude_zero, hu]
  · have hup := Nat.two_pow_pos (f.exponentBits - 1)
    rw [exact, magnitude_eq_round f (Nat.mul_ne_zero h0 (Nat.ne_of_gt hfive)) (by omega) (by omega),
      show (-(f.scale : Int)).toNat = 0 by omega,
      show (- -(f.scale : Int)).toNat = f.scale by omega, Nat.pow_zero, Nat.mul_one, Nat.mul_assoc,
      ← Nat.mul_pow]
    have hr := f.round_mul_mul (Binary.unitsOf f a) 1 (k := 10 ^ f.scale) (Nat.pow_pos (by decide))
    rwa [Nat.one_mul, hu] at hr

theorem magnitude_shortest {a : Nat} (h : a ≤ f.infinity) : (shortest f a).magnitude f = a := by
  unfold shortest
  dsimp only
  split
  · next h0 => exact h0 ▸ magnitude_zero f 0
  · cases hs : ((List.range (f.fractionBits + 3)).map fun n : Nat =>
        pointPosition (Binary.unitsOf f a) (2 ^ f.scale) - n).findSome? (onGrid? f a) with
    | none => exact magnitude_exact f h
    | some d =>
      obtain ⟨g, -, hg⟩ := List.exists_of_findSome?_eq_some hs
      exact magnitude_of_onGrid? f hg

end TickMachine.Decimal
