import TickMachine.Binary.Rounding

/-!
# Arithmetic and order

Sums, products and whole numbers are computed exactly in units and rounded once. Infinities and
patterns that are no number follow the usual rules: a comparison with no number is false, and
`∞ - ∞` and `0 * ∞` are no number.
-/

namespace TickMachine.Binary

attribute [local instance (high)] instPowNat

variable {f : Format}

/-- The number of the given sign nearest to `num / den` units. -/
def ofRatio (negative : Bool) (num den : Nat) : Binary f :=
  ⟨negative, f.round num den, Nat.lt_of_le_of_lt (f.round_le num den) f.infinity_lt_magnitudes⟩

/-- A whole number. -/
def ofNat (n : Nat) : Binary f := ofRatio false (n * 2 ^ f.scale) 1

/-! ## Order -/

/-- Orders the numbers of a format, the two zeros together. -/
def rank (x : Binary f) : Int := if x.negative then -(x.magnitude : Int) else x.magnitude

def lt (x y : Binary f) : Bool := !x.isNaN && !y.isNaN && x.rank < y.rank

instance : LT (Binary f) := ⟨fun x y => x.lt y⟩

instance (x y : Binary f) : Decidable (x < y) := inferInstanceAs (Decidable (x.lt y = true))

theorem lt_iff {x y : Binary f} :
    x < y ↔ x.isNaN = false ∧ y.isNaN = false ∧ x.rank < y.rank := by
  show x.lt y = true ↔ _
  simp [lt, and_assoc]

/-! ## Operations -/

def neg (x : Binary f) : Binary f := { x with negative := !x.negative }

/-- An exact zero is positive unless both terms are negative. -/
def add (x y : Binary f) : Binary f :=
  if x.isNaN || y.isNaN then nan
  else if x.isInfinite && y.isInfinite then if x.negative == y.negative then x else nan
  else if x.isInfinite then x
  else if y.isInfinite then y
  else
    let sum := x.signedUnits + y.signedUnits
    ofRatio (if sum = 0 then x.negative && y.negative else sum < 0) sum.natAbs 1

def mul (x y : Binary f) : Binary f :=
  let negative := x.negative != y.negative
  if x.isNaN || y.isNaN then nan
  else if x.isInfinite || y.isInfinite then
    if x.magnitude == 0 || y.magnitude == 0 then nan else infinity negative
  else ofRatio negative (x.units * y.units) (2 ^ f.scale)

instance : Neg (Binary f) := ⟨neg⟩
instance : Add (Binary f) := ⟨add⟩
instance : Sub (Binary f) := ⟨fun x y => x + -y⟩
instance : Mul (Binary f) := ⟨mul⟩

/-- The least whole number not below `x`; between minus one and zero that is negative zero. -/
def ceil (x : Binary f) : Binary f :=
  if x.isFinite then
    let one := 2 ^ f.scale
    let up := if x.negative || x.units % one == 0 then 0 else 1
    ofRatio x.negative ((x.units / one + up) * one) 1
  else x

end TickMachine.Binary
