/-
  StreamBuffer.Json.StringLiteral

  String literals of JSON: reading one character at a time, from behind the
  opening quote up to the closing one, and writing, both as serde_json does it.

  A code unit of a surrogate pair may be written only as the pair's first half
  followed at once by its second, unless the reading is lenient: then any four
  hexadecimal digits will do, and the text is of no use. The four digits are
  judged together, when as many bytes have been seen; a text that ends before
  that is cut short, whatever they are.
-/
import StreamBuffer.Text.Quoted

namespace StreamBuffer

/-! ## Reading -/

/-- The value of a hexadecimal digit of either case. -/
def hexValue? (c : Char) : Option Nat :=
  if '0' ≤ c ∧ c ≤ '9' then some (c.toNat - '0'.toNat)
  else if 'a' ≤ c ∧ c ≤ 'f' then some (c.toNat - 'a'.toNat + 10)
  else if 'A' ≤ c ∧ c ≤ 'F' then some (c.toNat - 'A'.toNat + 10)
  else none

/-- The code unit that four hexadecimal digits name. -/
def codeUnit? : List Char → Option Nat
  | [a, b, c, d] => do
    return 4096 * (← hexValue? a) + 256 * (← hexValue? b) + 16 * (← hexValue? c) + (← hexValue? d)
  | _ => none

/-- The code unit is the first half of a pair. -/
def isLeadUnit (n : Nat) : Bool := 0xD800 ≤ n && n ≤ 0xDBFF

/-- The code unit is the second half of a pair. -/
def isTrailUnit (n : Nat) : Bool := 0xDC00 ≤ n && n ≤ 0xDFFF

/-- The number of bytes that the characters take in UTF-8. -/
def utf8Length : List Char → Nat
  | [] => 0
  | c :: cs => c.utf8Size + utf8Length cs

/-- The character that a pair of code units names. -/
def pairedChar (lead trail : Nat) : Char :=
  Char.ofNat (0x10000 + (lead - 0xD800) * 0x400 + (trail - 0xDC00))

/-- The character that a backslash and a letter stand for. -/
def shortEscape? : Char → Option Char
  | '"' => some '"'
  | '\\' => some '\\'
  | '/' => some '/'
  | 'b' => some '\x08'
  | 'f' => some '\x0c'
  | 'n' => some '\n'
  | 'r' => some '\r'
  | 't' => some '\t'
  | _ => none

/-- Where a string literal stands between characters: in its plain text; behind a
    backslash; among the digits of a code unit, newest first; or where the second
    half of a pair is due, before its backslash and before its letter. -/
inductive StringPlace where
  | plain
  | escape
  | digits (lead : Option Nat) (seen : List Char)
  | pairEscape (lead : Nat)
  | pairLetter (lead : Nat)
  deriving Repr, DecidableEq

/-- A string literal read in part; its characters so far, newest first. -/
structure StringScan where
  lenient : Bool := false
  place : StringPlace := .plain
  chars : List Char := []
  deriving Repr, DecidableEq

/-- What a character does to a literal: it goes on, it is complete, or it is none. -/
inductive StringStep where
  | more (scan : StringScan)
  | closed (text : String)
  | bad
  deriving Repr, DecidableEq

namespace StringScan

/-- The literal with a character added to its text. -/
def push (s : StringScan) (c : Char) : StringScan :=
  { s with place := .plain, chars := c :: s.chars }

/-- The literal after a code unit written by its digits. -/
def pushUnit (s : StringScan) (lead : Option Nat) (n : Nat) : StringStep :=
  if s.lenient then .more { s with place := .plain }
  else match lead with
    | some lead => if isTrailUnit n then .more (s.push (pairedChar lead n)) else .bad
    | none =>
      if isLeadUnit n then .more { s with place := .pairEscape n }
      else if isTrailUnit n then .bad
      else .more (s.push (Char.ofNat n))

/-- The literal after one more character. -/
def step (s : StringScan) (c : Char) : StringStep :=
  match s.place with
  | .plain =>
    if c = '"' then .closed (String.ofList s.chars.reverse)
    else if c = '\\' then .more { s with place := .escape }
    else if c.toNat < 0x20 then .bad
    else .more (s.push c)
  | .escape =>
    if c = 'u' then .more { s with place := .digits none [] }
    else match shortEscape? c with
      | some e => .more (s.push e)
      | none => .bad
  | .digits lead seen =>
    let seen := c :: seen
    if utf8Length seen < 4 then .more { s with place := .digits lead seen }
    else match codeUnit? seen.reverse with
      | some n => s.pushUnit lead n
      | none => .bad
  | .pairEscape lead => if c = '\\' then .more { s with place := .pairLetter lead } else .bad
  | .pairLetter lead =>
    if c = 'u' then .more { s with place := .digits (some lead) [] } else .bad

end StringScan

/-! ## Writing -/

/-- One character of a string literal. Only what has to be escaped is. -/
def literalChar (c : Char) : List Char :=
  if c = '"' then ['\\', '"']
  else if c = '\\' then ['\\', '\\']
  else if c = '\x08' then ['\\', 'b']
  else if c = '\x0c' then ['\\', 'f']
  else if c = '\n' then ['\\', 'n']
  else if c = '\r' then ['\\', 'r']
  else if c = '\t' then ['\\', 't']
  else if c.toNat < 0x20 then
    ['\\', 'u', '0', '0', hexDigit (c.toNat / 16), hexDigit (c.toNat % 16)]
  else [c]

/-- The text as a string literal, in its quotes. -/
def stringLiteral (text : List Char) : List Char :=
  '"' :: (text.flatMap literalChar ++ ['"'])

end StreamBuffer
