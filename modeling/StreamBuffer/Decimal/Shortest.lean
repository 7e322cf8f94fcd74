/-
  StreamBuffer.Decimal.Shortest

  The fewest decimal digits that read back as a given double, and of those with
  as few digits the nearest; an exact tie goes to the even digit.

  All is exact arithmetic on natural numbers. A double stands for the reals that
  round to it; a decimal grid is searched, from coarse to fine, for a point among
  them. If any point of a grid is, one of the two next to the double itself is.
-/

namespace StreamBuffer

/-- The reals that round to a positive double, as a multiple of a power of two:
    their ends, the double between them, and whether the ends belong to them. -/
structure Rounding where
  low : Nat
  value : Nat
  high : Nat
  exponent : Int
  closed : Bool
  deriving Repr, DecidableEq

namespace Rounding

/-- The bit above a double's fraction of 52 bits: set in every mantissa but those of
    the least exponent, and not stored. -/
def implicitBit : Nat := 0x10000000000000

/-- The reals that round to the double with the given bits, its sign aside. The
    next double below is nearer than the one above where the fraction is zero. -/
def ofBits (bits : UInt64) : Rounding :=
  let fraction := bits.toNat % implicitBit
  let biased := bits.toNat / implicitBit % 2048
  let mantissa := if biased = 0 then fraction else implicitBit + fraction
  { low := 4 * mantissa - (if fraction = 0 ∧ 1 < biased then 1 else 2)
    value := 4 * mantissa
    high := 4 * mantissa + 2
    exponent := (max biased 1 : Nat) - 1077
    closed := mantissa % 2 = 0 }

/-- Over a common denominator, the factors that measure the double's unit and the
    step `10 ^ g` of a decimal grid. -/
def factors (r : Rounding) (g : Int) : Nat × Nat :=
  (Nat.pow 2 r.exponent.toNat * Nat.pow 10 (-g).toNat,
    Nat.pow 2 (-r.exponent).toNat * Nat.pow 10 g.toNat)

/-- The point of the grid with step `10 ^ g` that is nearest to the double, if one
    rounds to it; in steps. -/
def onGrid (r : Rounding) (g : Int) : Option Nat :=
  let (unit, step) := r.factors g
  let c := r.value * unit / step
  let inside (c : Nat) : Bool :=
    if r.closed then r.low * unit ≤ c * step && c * step ≤ r.high * unit
    else r.low * unit < c * step && c * step < r.high * unit
  let offset := 2 * (r.value * unit - c * step)
  match inside c, inside (c + 1) with
  | true, true =>
    if offset < step ∨ (offset = step ∧ c % 2 = 0) then some c else some (c + 1)
  | true, false => some c
  | false, true => some (c + 1)
  | false, false => none

/-- The place of the double's first decimal digit, counted from the point: one
    for the units. The scale reaches below the least double. -/
def magnitude (r : Rounding) : Int :=
  let (unit, step) := r.factors (-400)
  (Nat.toDigits 10 (r.value * unit / step)).length - 400

end Rounding

/-- A decimal number `0.d₁d₂… · 10 ^ point`, with no zero at its end. -/
structure Decimal where
  digits : List Char
  point : Int
  deriving Repr, DecidableEq

/-- The shortest decimal that reads back as the positive double with these bits. -/
def Decimal.shortest (bits : UInt64) : Decimal :=
  let r := Rounding.ofBits bits
  let grids := (List.range 17).map fun (n : Nat) => r.magnitude - ((n + 1 : Nat) : Int)
  match grids.findSome? fun g => (r.onGrid g).map fun c => (c, g) with
  | some (c, g) =>
    let digits := Nat.toDigits 10 c
    { digits := (digits.reverse.dropWhile (· = '0')).reverse, point := digits.length + g }
  | none => { digits := [], point := 0 }

end StreamBuffer
