/-!
# Binary floating-point numbers

A `Binary f` is one bit pattern of the interchange format `f`: a sign, and the exponent and fraction
fields read together as one number, the magnitude. Read this way larger magnitudes are larger
numbers, and a carry out of the fraction runs into the exponent.

Every finite number is a whole multiple of the least positive number of its format. `units` is that
multiple; `2 ^ f.scale` units make one. All arithmetic on numbers is arithmetic on units.

`ofPattern_pattern` and `pattern_ofPattern` state that patterns and numbers correspond one to one,
`ofVector_bytes` and `bytes_ofBytes` the same for the four bytes of a `Binary32`.
-/

namespace TickMachine

-- Powers of natural numbers are the ones of core, whatever other powers are in scope.
attribute [local instance (high)] instPowNat

/-- An interchange format: the widths of the exponent and fraction fields. -/
structure Format where
  exponentBits : Nat
  fractionBits : Nat
  deriving DecidableEq, Repr

namespace Format

/-- The number of magnitudes: all exponent and fraction fields together. -/
def magnitudes (f : Format) : Nat := 2 ^ (f.exponentBits + f.fractionBits)

/-- The magnitude of infinity. Smaller ones are finite, larger ones are not numbers. -/
def infinity (f : Format) : Nat := (2 ^ f.exponentBits - 1) * 2 ^ f.fractionBits

/-- The number one is `2 ^ scale` units. -/
def scale (f : Format) : Nat := 2 ^ (f.exponentBits - 1) + f.fractionBits - 2

def binary32 : Format := ⟨8, 23⟩
def binary64 : Format := ⟨11, 52⟩

theorem magnitudes_pos (f : Format) : 0 < f.magnitudes := Nat.two_pow_pos _

theorem infinity_lt_magnitudes (f : Format) : f.infinity < f.magnitudes := by
  unfold infinity magnitudes
  rw [Nat.pow_add]
  exact Nat.mul_lt_mul_of_pos_right
    (Nat.sub_lt (Nat.two_pow_pos _) Nat.one_pos) (Nat.two_pow_pos _)

end Format

/-- A bit pattern of the format `f`. -/
structure Binary (f : Format) where
  negative : Bool
  magnitude : Nat
  magnitude_lt : magnitude < f.magnitudes
  deriving DecidableEq, Repr

abbrev Binary32 := Binary Format.binary32
abbrev Binary64 := Binary Format.binary64

namespace Binary

variable {f : Format}

theorem ext_fields {x y : Binary f} (hs : x.negative = y.negative)
    (hm : x.magnitude = y.magnitude) : x = y := by
  cases x; cases y; simp_all

/-! ## Bit patterns -/

/-- The bit pattern as a number, the sign above the magnitude. -/
def pattern (x : Binary f) : Nat := x.negative.toNat * f.magnitudes + x.magnitude

/-- The number with the given bit pattern. Bits beyond the format's width are dropped. -/
def ofPattern (n : Nat) : Binary f where
  negative := n / f.magnitudes % 2 == 1
  magnitude := n % f.magnitudes
  magnitude_lt := Nat.mod_lt _ f.magnitudes_pos

theorem pattern_lt (x : Binary f) : x.pattern < 2 * f.magnitudes := by
  have := x.magnitude_lt
  cases h : x.negative <;> simp [pattern, h] <;> omega

theorem ofPattern_pattern (x : Binary f) : ofPattern x.pattern = x := by
  have hm := x.magnitude_lt
  have hp := f.magnitudes_pos
  apply ext_fields
  · cases h : x.negative <;>
      simp [ofPattern, pattern, h, Nat.div_eq_of_lt hm, Nat.add_div_left _ hp]
  · simp [ofPattern, pattern, Nat.mod_eq_of_lt hm]

theorem pattern_ofPattern {n : Nat} (h : n < 2 * f.magnitudes) :
    (ofPattern n : Binary f).pattern = n := by
  have hd : n / f.magnitudes < 2 := Nat.div_lt_of_lt_mul (by rwa [Nat.mul_comm])
  have hn := Nat.div_add_mod n f.magnitudes
  rw [Nat.mul_comm] at hn
  simp only [pattern, ofPattern]
  generalize n / f.magnitudes = q at hd hn ⊢
  match q, hd with
  | 0, _ => simpa using hn
  | 1, _ => simpa using hn

/-- The bytes of a 32-bit pattern, the most significant first. -/
def bytes (x : Binary32) : Vector UInt8 4 :=
  #v[.ofNat (x.pattern / 0x1000000), .ofNat (x.pattern / 0x10000), .ofNat (x.pattern / 0x100),
    .ofNat x.pattern]

/-- The number whose pattern has the given bytes, the most significant first. -/
def ofBytes (b0 b1 b2 b3 : UInt8) : Binary32 :=
  ofPattern (b0.toNat * 0x1000000 + b1.toNat * 0x10000 + b2.toNat * 0x100 + b3.toNat)

def ofVector (b : Vector UInt8 4) : Binary32 := ofBytes b[0] b[1] b[2] b[3]

theorem ofVector_bytes (x : Binary32) : ofVector x.bytes = x := by
  have h : x.pattern < 2 ^ 32 := x.pattern_lt
  refine Eq.trans (congrArg ofPattern ?_) (ofPattern_pattern x)
  simp [bytes]
  omega

theorem pattern_ofBytes (b0 b1 b2 b3 : UInt8) : (ofBytes b0 b1 b2 b3).pattern =
    b0.toNat * 0x1000000 + b1.toNat * 0x10000 + b2.toNat * 0x100 + b3.toNat := by
  have h0 := b0.toNat_lt
  have h1 := b1.toNat_lt
  have h2 := b2.toNat_lt
  have h3 := b3.toNat_lt
  apply pattern_ofPattern
  rw [show 2 * Format.binary32.magnitudes = 2 ^ 32 from rfl]
  omega

theorem bytes_ofBytes (b0 b1 b2 b3 : UInt8) : (ofBytes b0 b1 b2 b3).bytes = #v[b0, b1, b2, b3] := by
  have h0 := b0.toNat_lt
  have h1 := b1.toNat_lt
  have h2 := b2.toNat_lt
  have h3 := b3.toNat_lt
  apply Vector.ext
  intro i hi
  simp only [bytes, pattern_ofBytes]
  apply UInt8.toNat_inj.1
  match i, hi with
  | 0, _ => simp; omega
  | 1, _ => simp; omega
  | 2, _ => simp; omega
  | 3, _ => simp

/-! ## Classes of numbers -/

def isFinite (x : Binary f) : Bool := x.magnitude < f.infinity
def isInfinite (x : Binary f) : Bool := x.magnitude == f.infinity
def isNaN (x : Binary f) : Bool := f.infinity < x.magnitude

/-- The zero of the given sign. -/
def zero (negative : Bool) : Binary f := ⟨negative, 0, f.magnitudes_pos⟩

/-- The infinity of the given sign. -/
def infinity (negative : Bool) : Binary f := ⟨negative, f.infinity, f.infinity_lt_magnitudes⟩

/-- What arithmetic answers where no number is right: only the first bit of the fraction is set. -/
def nan : Binary f := ofPattern (f.infinity + 2 ^ (f.fractionBits - 1))

/-- Whether two patterns stand for the same datum: the same pattern, or both no number. -/
def same (x y : Binary f) : Bool := x == y || (x.isNaN && y.isNaN)

/-! ## Units -/

/-- The size of a finite magnitude, in units. With an exponent field of zero the fraction counts
alone; otherwise a leading one joins it, and each further exponent doubles. -/
def unitsOf (f : Format) (magnitude : Nat) : Nat :=
  if magnitude < 2 ^ f.fractionBits then magnitude
  else (2 ^ f.fractionBits + magnitude % 2 ^ f.fractionBits) *
    2 ^ (magnitude / 2 ^ f.fractionBits - 1)

/-- The size of a finite number, in units. -/
def units (x : Binary f) : Nat := unitsOf f x.magnitude

/-- A finite number, in units. -/
def signedUnits (x : Binary f) : Int := if x.negative then -(x.units : Int) else x.units

end Binary

end TickMachine
