import TickMachine.Decimal.Shortest

/-!
# Numbers as text

Two notations write the shortest decimal of a number. `Binary.text` is positional however long that
is; `Binary.fieldText`, for the fields of a log line, keeps a point in every positional number and
turns to scientific notation for very large and very small ones.

`Binary.ofText?` reads what `Binary.text` writes, and more: signs, exponents, a point at either end.
-/

namespace TickMachine

attribute [local instance (high)] instPowNat

namespace Decimal

/-! ## Writing -/

/-- The digits of the coefficient, the most significant first. -/
def digits (d : Decimal) : List Char := Nat.toDigits 10 d.coefficient

/-- Positional notation, with at least one digit before the point and none to spare after it. -/
def positional (d : Decimal) : List Char :=
  let places := (-d.exponent).toNat
  let padded := List.replicate (places + 1 - d.digits.length) '0' ++ d.digits ++
    List.replicate d.exponent.toNat '0'
  if places = 0 then padded
  else padded.take (padded.length - places) ++ '.' :: padded.drop (padded.length - places)

/-- Scientific notation: one digit, the point and the further digits if there are any, and the
power of ten of the first digit. -/
def scientific (d : Decimal) : List Char :=
  let power := d.exponent + d.digits.length - 1
  let fraction := d.digits.drop 1
  d.digits.take 1 ++ (if fraction.isEmpty then [] else '.' :: fraction) ++
    'e' :: (toString power).toList

/-! ## Reading -/

/-- A sign, if there is one, and what follows it. -/
def takeSign : List Char → Bool × List Char
  | '-' :: cs => (true, cs)
  | '+' :: cs => (false, cs)
  | cs => (false, cs)

/-- A natural number: one digit or more, and nothing else. -/
def natOfChars? (cs : List Char) : Option Nat :=
  if cs.isEmpty || !cs.all Char.isDigit then none else some (Nat.ofDigitChars 10 cs 0)

/-- A natural number after an optional sign. -/
def intOfChars? (cs : List Char) : Option Int :=
  let (negative, body) := takeSign cs
  (natOfChars? body).map fun n => if negative then -(n : Int) else n

/-- The exponent that the rest of a number spells: none at all counts as zero. -/
def exponentOfChars? : List Char → Option Int
  | [] => some 0
  | c :: cs => if c = 'e' ∨ c = 'E' then intOfChars? cs else none

/-- Digits with an optional point and an optional exponent. The digits may be missing on one side of
the point, not on both. -/
def ofChars? (cs : List Char) : Option Decimal :=
  let whole := cs.takeWhile Char.isDigit
  let afterWhole := cs.dropWhile Char.isDigit
  let (fraction, rest) := match afterWhole with
    | '.' :: r => (r.takeWhile Char.isDigit, r.dropWhile Char.isDigit)
    | r => ([], r)
  if whole.isEmpty && fraction.isEmpty then none
  else (exponentOfChars? rest).map fun e =>
    ⟨Nat.ofDigitChars 10 (whole ++ fraction) 0, e - fraction.length⟩

end Decimal

namespace Binary

variable {f : Format}

/-- The shortest decimal of the magnitude of a finite number. -/
def decimal (x : Binary f) : Decimal := Decimal.shortest f x.magnitude

/-- A number with its digits laid out by `layout`; the sign of a zero is kept. -/
def write (layout : Decimal → List Char) (x : Binary f) : String :=
  if x.isNaN then "NaN"
  else String.ofList ((if x.negative then ['-'] else []) ++
    (if x.isInfinite then ['i', 'n', 'f'] else layout x.decimal))

/-- Positional notation, a whole number without a point. -/
def text (x : Binary f) : String := x.write Decimal.positional

/-- Whether a log field writes the number positionally: zero, and from `10 ^ -4` to below
`10 ^ 16`. -/
def isModerate (x : Binary f) : Bool :=
  x.magnitude == 0 || (2 ^ f.scale ≤ x.units * 10000 && x.units < 10000000000000000 * 2 ^ f.scale)

/-- The notation of log fields: positional for moderate numbers, a whole one with `.0`, and
scientific for all others. -/
def fieldText (x : Binary f) : String :=
  x.write fun d =>
    if !x.isModerate then d.scientific
    else if d.exponent < 0 then d.positional else d.positional ++ ['.', '0']

/-- Reads a number. Letters count the same in either case. -/
def ofText? (s : String) : Option (Binary f) :=
  let (negative, body) := Decimal.takeSign s.toList
  match String.ofList (body.map Char.toLower) with
  | "inf" | "infinity" => some (infinity negative)
  | "nan" => some nan
  | _ => (Decimal.ofChars? body).map (ofDecimal negative)

end Binary

end TickMachine
