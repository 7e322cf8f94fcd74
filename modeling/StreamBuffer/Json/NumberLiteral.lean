/-
  StreamBuffer.Json.NumberLiteral

  Number literals of JSON, read one character at a time, and what they stand for
  to serde_json: an integer if they are written as one and it fits 64 bits, else a
  double.

  The double is computed in three steps that each round: the digits are gathered
  into a 64-bit significand as long as they fit, that is converted, and it is
  multiplied or divided by a power of ten. A number too large for a double stands
  for nothing.
-/

namespace StreamBuffer

/-! ## Reading -/

/-- Where a number literal stands between characters: behind its minus sign; behind
    a leading zero, or among the digits of its whole part; behind its point, or
    among the digits of its fraction; behind the exponent's mark, behind its sign,
    or among its digits. -/
inductive NumberPlace where
  | minus
  | zero
  | whole
  | point
  | fraction
  | mark
  | sign
  | exponent
  deriving Repr, DecidableEq

/-- The literal may end here. -/
def NumberPlace.isComplete : NumberPlace → Bool
  | .zero | .whole | .fraction | .exponent => true
  | .minus | .point | .mark | .sign => false

/-- A number literal read in part: its signs, and the digits of its parts, newest
    first. -/
structure NumberScan where
  place : NumberPlace
  negative : Bool := false
  whole : List Nat := []
  fraction : List Nat := []
  exponentNegative : Bool := false
  exponent : List Nat := []
  deriving Repr, DecidableEq

/-- What a character does to a literal: it goes on, it has ended before the
    character, or it is none. -/
inductive NumberStep where
  | more (scan : NumberScan)
  | ended
  | bad
  deriving Repr, DecidableEq

/-- The value of a decimal digit. -/
def digitValue (c : Char) : Nat := c.toNat - '0'.toNat

namespace NumberScan

/-- The literal that a character begins, if one can begin with it. -/
def start? (c : Char) : Option NumberScan :=
  if c = '-' then some { place := .minus, negative := true }
  else if c = '0' then some { place := .zero, whole := [0] }
  else if c.isDigit then some { place := .whole, whole := [digitValue c] }
  else none

/-- Behind the whole part, a point or an exponent may follow. -/
def afterWhole (s : NumberScan) (c : Char) : NumberStep :=
  if c = '.' then .more { s with place := .point }
  else if c = 'e' ∨ c = 'E' then .more { s with place := .mark }
  else .ended

/-- A digit of the exponent. -/
def exponentDigit (s : NumberScan) (c : Char) : NumberStep :=
  .more { s with place := .exponent, exponent := digitValue c :: s.exponent }

/-- The literal after one more character. -/
def step (s : NumberScan) (c : Char) : NumberStep :=
  match s.place with
  | .minus =>
    if c = '0' then .more { s with place := .zero, whole := [0] }
    else if c.isDigit then .more { s with place := .whole, whole := [digitValue c] }
    else .bad
  | .zero => if c.isDigit then .bad else s.afterWhole c
  | .whole =>
    if c.isDigit then .more { s with whole := digitValue c :: s.whole } else s.afterWhole c
  | .point =>
    if c.isDigit then .more { s with place := .fraction, fraction := [digitValue c] } else .bad
  | .fraction =>
    if c.isDigit then .more { s with fraction := digitValue c :: s.fraction }
    else if c = 'e' ∨ c = 'E' then .more { s with place := .mark }
    else .ended
  | .mark =>
    if c = '+' then .more { s with place := .sign }
    else if c = '-' then .more { s with place := .sign, exponentNegative := true }
    else if c.isDigit then s.exponentDigit c
    else .bad
  | .sign => if c.isDigit then s.exponentDigit c else .bad
  | .exponent => if c.isDigit then s.exponentDigit c else .ended

end NumberScan

/-! ## Meaning -/

/-- What a number literal stands for. -/
inductive Number where
  | integer (n : Int)
  | double (x : Float)
  deriving DecidableEq

/-- The number that a row of digits writes, after the digits of another. -/
def ofDigits (n : Nat) (digits : List Nat) : Nat := digits.foldl (fun n d => 10 * n + d) n

/-- Gather leading digits behind a number, as many as keep it within 64 bits: the
    number they make, and how many they are. -/
def gather : Nat → List Nat → Nat × Nat
  | n, [] => (n, 0)
  | n, d :: digits =>
    if 10 * n + d < UInt64.size then
      let (n, count) := gather (10 * n + d) digits
      (n, count + 1)
    else (n, 0)

/-- A power of ten as a double. -/
def powerOfTen (k : Nat) : Float := Float.ofScientific 1 false k

/-- The largest exponent of ten with a double. -/
def maxPower : Nat := 308

/-- Divide by a power of ten, in strides that have a double. -/
def divideByPower (x : Float) (k : Nat) : Float :=
  if k ≤ maxPower then x / powerOfTen k
  else if x == 0 then x
  else divideByPower (x / powerOfTen maxPower) (k - maxPower)
termination_by k
decreasing_by simp only [maxPower] at *; omega

/-- Multiply by a power of ten, if the product has a double. -/
def multiplyByPower? (x : Float) (k : Nat) : Option Float :=
  if k ≤ maxPower then
    let y := x * powerOfTen k
    if y.isInf then none else some y
  else if x == 0 then some x
  else none

namespace NumberScan

/-- The exponent's amount, without its sign. -/
def exponentAmount (s : NumberScan) : Nat := ofDigits 0 s.exponent.reverse

/-- The magnitude of the double that the literal stands for, if there is one. An
    exponent of more than 31 bits settles it by itself. -/
def magnitude? (s : NumberScan) : Option Float :=
  let (n, taken) := gather 0 s.whole.reverse
  let (n, places) := gather n s.fraction.reverse
  let x := (UInt64.ofNat n).toFloat
  let shift : Int := (s.whole.length - taken : Nat) - (places : Int)
  if s.exponentAmount < UInt32.size / 2 then
    let shift := if s.exponentNegative then shift - s.exponentAmount else shift + s.exponentAmount
    if 0 ≤ shift then multiplyByPower? x shift.toNat else some (divideByPower x (-shift).toNat)
  else if n = 0 ∨ s.exponentNegative then some 0
  else none

/-- The double that the literal stands for, if there is one. -/
def double? (s : NumberScan) : Option Number :=
  s.magnitude?.map fun x => .double (if s.negative then -x else x)

/-- What the literal stands for, if anything: an integer from `-2 ^ 63` up to
    `2 ^ 64 - 1`, negative zero excepted, if it is written without point and
    exponent; else a double. -/
def value? (s : NumberScan) : Option Number :=
  match s.place with
  | .zero | .whole =>
    let n := ofDigits 0 s.whole.reverse
    if s.negative then
      if 0 < n ∧ n ≤ UInt64.size / 2 then some (.integer (-n)) else s.double?
    else if n < UInt64.size then some (.integer n)
    else s.double?
  | _ => s.double?

end NumberScan

end StreamBuffer
