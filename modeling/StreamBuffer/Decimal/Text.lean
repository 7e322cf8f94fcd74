/-
  StreamBuffer.Decimal.Text

  The text of a double: its shortest decimal, written out where the point is near
  its digits and with an exponent otherwise.
-/
import StreamBuffer.Decimal.Shortest

namespace StreamBuffer

/-- How a number is written. It is written out if its point stands above `lowest`
    and at most at `highest`, counted from the first digit; otherwise it has an
    exponent, and `plusSign` says whether one that is not negative shows its sign. -/
structure DecimalStyle where
  lowest : Int
  highest : Int
  plusSign : Bool

/-- An exponent of ten behind its mark. -/
def DecimalStyle.exponent (style : DecimalStyle) (e : Int) : List Char :=
  let digits := (toString e).toList
  'e' :: if style.plusSign ∧ 0 ≤ e then '+' :: digits else digits

namespace Decimal

/-- The decimal in the given style; a number that is written out always shows its
    point and a digit behind it. -/
def text (style : DecimalStyle) (d : Decimal) : String :=
  let zeros (n : Int) : List Char := List.replicate n.toNat '0'
  String.ofList <|
    if style.lowest < d.point ∧ d.point ≤ style.highest then
      if d.point ≤ 0 then '0' :: '.' :: (zeros (-d.point) ++ d.digits)
      else if d.digits.length ≤ d.point then
        d.digits ++ zeros (d.point - d.digits.length) ++ ['.', '0']
      else d.digits.take d.point.toNat ++ '.' :: d.digits.drop d.point.toNat
    else
      let mantissa := match d.digits with
        | first :: second :: rest => first :: '.' :: second :: rest
        | digits => digits
      mantissa ++ style.exponent (d.point - 1)

end Decimal

/-- The text of a finite double in the given style. -/
def floatText (style : DecimalStyle) (x : Float) : String :=
  let signBit : UInt64 := 0x8000000000000000
  let sign := if signBit ≤ x.toBits then "-" else ""
  let magnitude := x.toBits % signBit
  sign ++ if magnitude = 0 then "0.0" else (Decimal.shortest magnitude).text style

end StreamBuffer
