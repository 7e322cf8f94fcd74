/-
  StreamBuffer.Proofs.Json.StringLiteral

  The parts of string literals.

  A character is written in one of three forms (`literalChar_cases`). `StringScan.run?`
  reads characters of which none ends the literal; it composes (`run?_append`), and a
  backslash with a letter adds the character that they stand for (`run?_shortEscape`).
-/
import StreamBuffer.Json.StringLiteral
import Mathlib.Tactic.SplitIfs

namespace StreamBuffer

/-! ## Hexadecimal digits -/

theorem hexValue?_hexDigit {n : Nat} (h : n < 16) : hexValue? (hexDigit n) = some n := by
  have hall : ∀ k : Fin 16, hexValue? (hexDigit k) = some k.val := by decide
  exact hall ⟨n, h⟩

/-- The two digits of a control character name it. -/
theorem codeUnit?_control {n : Nat} (h : n < 0x20) :
    codeUnit? ['0', '0', hexDigit (n / 16), hexDigit (n % 16)] = some n := by
  have hzero : hexValue? '0' = some 0 := rfl
  simp only [codeUnit?, hzero, hexValue?_hexDigit (show n / 16 < 16 by omega),
    hexValue?_hexDigit (show n % 16 < 16 by omega)]
  show some (4096 * 0 + 256 * 0 + 16 * (n / 16) + n % 16) = some n
  congr 1
  omega

/-! ## Written characters -/

/-- A character is written by the letter that stands for it behind a backslash, as a code
    unit, or as itself. -/
theorem literalChar_cases (c : Char) :
    (∃ letter, shortEscape? letter = some c ∧ literalChar c = ['\\', letter])
      ∨ (c.toNat < 0x20 ∧ literalChar c
          = ['\\', 'u', '0', '0', hexDigit (c.toNat / 16), hexDigit (c.toNat % 16)])
      ∨ (c ≠ '"' ∧ c ≠ '\\' ∧ ¬ c.toNat < 0x20 ∧ literalChar c = [c]) := by
  unfold literalChar
  split_ifs with hquote hslash hback hfeed hline hreturn htab hcontrol
  · exact Or.inl ⟨'"', by rw [hquote]; rfl, rfl⟩
  · exact Or.inl ⟨'\\', by rw [hslash]; rfl, rfl⟩
  · exact Or.inl ⟨'b', by rw [hback]; rfl, rfl⟩
  · exact Or.inl ⟨'f', by rw [hfeed]; rfl, rfl⟩
  · exact Or.inl ⟨'n', by rw [hline]; rfl, rfl⟩
  · exact Or.inl ⟨'r', by rw [hreturn]; rfl, rfl⟩
  · exact Or.inl ⟨'t', by rw [htab]; rfl, rfl⟩
  · exact Or.inr (Or.inl ⟨hcontrol, rfl⟩)
  · exact Or.inr (Or.inr ⟨hquote, hslash, hcontrol, rfl⟩)

namespace StringScan

/-! ## Reading on -/

/-- The literal after characters that all go on with it. -/
def run? (s : StringScan) : List Char → Option StringScan
  | [] => some s
  | c :: rest =>
    match s.step c with
    | .more t => t.run? rest
    | .closed _ | .bad => none

theorem run?_cons_of_more {s t : StringScan} {c : Char} (h : s.step c = .more t)
    (rest : List Char) : s.run? (c :: rest) = t.run? rest := by
  rw [run?, h]

theorem run?_append {s t : StringScan} {first : List Char} (h : s.run? first = some t)
    (second : List Char) : s.run? (first ++ second) = t.run? second := by
  induction first generalizing s with
  | nil =>
    obtain rfl : s = t := Option.some.inj h
    rfl
  | cons c rest ih =>
    rw [run?] at h
    rw [List.cons_append, run?]
    split at h
    · exact ih h
    · cases h
    · cases h

/-- A backslash and a letter add the character that they stand for. -/
theorem run?_shortEscape {s : StringScan} (hplain : s.place = .plain) {letter c : Char}
    (hletter : shortEscape? letter = some c) :
    s.run? ['\\', letter] = some (s.push c) := by
  have hfirst : s.step '\\' = .more { s with place := .escape } := by
    rw [step, hplain]
    rfl
  have hu : letter ≠ 'u' := by
    rintro rfl
    cases hletter
  have hsecond : ({ s with place := .escape } : StringScan).step letter = .more (s.push c) := by
    simp only [step, if_neg hu, hletter]
    rfl
  rw [run?_cons_of_more hfirst, run?_cons_of_more hsecond]
  rfl

end StringScan

end StreamBuffer
