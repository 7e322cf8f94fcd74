/-
  StreamBuffer.Proofs.Json.NumberLiteral

  Natural numbers read back from their decimal digits.

  A literal of digits alone goes on to its last digit and collects them
  (`NumberScan.run?_digits`); written digits have no zero in front unless they are that
  zero alone (`toDigits_cases`), so that they are a literal, and the literal stands for the
  number (`exists_scan_toDigits`). A character that goes on with no number ends a literal or
  breaks it off, and which of the two is settled before it (`step_eq_ended`, `step_eq_bad`).
-/
import StreamBuffer.Json.NumberLiteral
import Mathlib.Data.List.Basic

namespace StreamBuffer

/-! ## The digits of a number -/

/-- The values of digits make up the number that the digits write. -/
theorem ofDigits_digitValue (digits : List Char) :
    ofDigits 0 (digits.map digitValue) = Nat.ofDigitChars 10 digits 0 := by
  rw [ofDigits, List.foldl_map, Nat.ofDigitChars_eq_foldl]
  rfl

/-- Written digits make up their number. -/
theorem ofDigits_toDigits (n : Nat) : ofDigits 0 ((Nat.toDigits 10 n).map digitValue) = n := by
  rw [ofDigits_digitValue]
  exact Nat.ofDigitChars_ten_toDigits

/-- No number but zero is written with a zero in front: by induction on it, since the
    digits of a tenth of it stand in front of its last digit. -/
theorem head?_toDigits_ne {n : Nat} (h : 0 < n) : (Nat.toDigits 10 n).head? ≠ some '0' := by
  induction n using Nat.strongRecOn with
  | ind n ih =>
    by_cases hsmall : n < 10
    · rw [Nat.toDigits_of_lt_base hsmall, List.head?_cons, ne_eq, Option.some.injEq,
        Nat.digitChar_eq_zero]
      omega
    · rw [Nat.toDigits_of_base_le (by omega) (by omega),
        List.head?_append_of_ne_nil _ Nat.toDigits_ne_nil]
      exact ih (n / 10) (by omega) (by omega)

/-- A number is written as a zero alone, or with another digit in front. -/
theorem toDigits_cases (n : Nat) :
    Nat.toDigits 10 n = ['0']
      ∨ ∃ c rest, Nat.toDigits 10 n = c :: rest ∧ c ≠ '0' ∧ c.isDigit = true
          ∧ ∀ d ∈ rest, d.isDigit = true := by
  rcases Nat.eq_zero_or_pos n with rfl | hpos
  · exact Or.inl (Nat.toDigits_zero 10)
  · obtain ⟨c, rest, hdigits⟩ := List.exists_cons_of_ne_nil (Nat.toDigits_ne_nil (b := 10) (n := n))
    have hhead := head?_toDigits_ne hpos
    have hall : ∀ d ∈ c :: rest, d.isDigit = true := by
      rw [← hdigits]
      exact fun d hd => Nat.isDigit_of_mem_toDigits (by omega) (by omega) hd
    rw [hdigits, List.head?_cons, ne_eq, Option.some.injEq] at hhead
    exact Or.inr ⟨c, rest, hdigits, hhead, hall c List.mem_cons_self,
      fun d hd => hall d (List.mem_cons_of_mem c hd)⟩

/-! ## Behind a number -/

/-- The character can stand in a number behind the first one. -/
def continuesNumber (c : Char) : Bool :=
  c.isDigit || c = '+' || c = '-' || c = '.' || c = 'e' || c = 'E'

theorem continuesNumber_eq_false {c : Char} (hc : continuesNumber c = false) :
    c.isDigit = false ∧ c ≠ '+' ∧ c ≠ '-' ∧ c ≠ '.' ∧ ¬ (c = 'e' ∨ c = 'E') := by
  simp only [continuesNumber, Bool.or_eq_false_iff, decide_eq_false_iff_not] at hc
  obtain ⟨⟨⟨⟨⟨hdigit, hplus⟩, hminus⟩, hpoint⟩, hsmall⟩, hlarge⟩ := hc
  exact ⟨hdigit, hplus, hminus, hpoint, not_or.mpr ⟨hsmall, hlarge⟩⟩

namespace NumberScan

/-! ## Reading on -/

/-- The literal after characters that all go on with it. -/
def run? (s : NumberScan) : List Char → Option NumberScan
  | [] => some s
  | c :: rest =>
    match s.step c with
    | .more t => t.run? rest
    | .ended | .bad => none

/-- Digits go on with a whole part and are collected. -/
theorem run?_digits {s : NumberScan} (hplace : s.place = .whole) {digits : List Char}
    (hdigits : ∀ c ∈ digits, c.isDigit = true) :
    s.run? digits = some { s with whole := (digits.map digitValue).reverse ++ s.whole } := by
  induction digits generalizing s with
  | nil => rfl
  | cons c rest ih =>
    have hstep : s.step c = .more { s with whole := digitValue c :: s.whole } := by
      simp only [step, hplace, hdigits c List.mem_cons_self, if_true]
    have hrest := ih (s := { s with whole := digitValue c :: s.whole }) hplace
      fun d hd => hdigits d (List.mem_cons_of_mem c hd)
    rw [run?, hstep]
    dsimp only
    rw [hrest, List.map_cons, List.reverse_cons, List.append_assoc]
    rfl

/-- The digits of a number are a literal of its own, without sign, point and exponent. -/
theorem exists_scan_toDigits (n : Nat) :
    ∃ c rest scan scan', Nat.toDigits 10 n = c :: rest ∧ c.isDigit = true
      ∧ start? c = some scan ∧ scan.run? rest = some scan'
      ∧ (scan'.place = .zero ∨ scan'.place = .whole) ∧ scan'.negative = false
      ∧ ofDigits 0 scan'.whole.reverse = n := by
  have hvalue := ofDigits_toDigits n
  rcases toDigits_cases n with hdigits | ⟨c, rest, hdigits, hzero, hc, hrest⟩
  · rw [hdigits] at hvalue ⊢
    exact ⟨'0', [], _, _, rfl, rfl, rfl, rfl, Or.inl rfl, rfl, hvalue⟩
  · have hminus : c ≠ '-' := by
      rintro rfl
      cases hc
    have hstart : start? c = some { place := .whole, whole := [digitValue c] } := by
      simp only [start?, if_neg hminus, if_neg hzero, hc, if_true]
    have hrun := run?_digits (s := { place := .whole, whole := [digitValue c] }) rfl hrest
    rw [hdigits] at hvalue
    refine ⟨c, rest, _, _, hdigits, hc, hstart, hrun, Or.inr rfl, rfl, ?_⟩
    rw [List.reverse_append, List.reverse_reverse]
    exact hvalue

/-- A whole number of no more than 64 bits stands for itself. -/
theorem value?_of_lt {s : NumberScan} {n : Nat} (hplace : s.place = .zero ∨ s.place = .whole)
    (hnegative : s.negative = false) (hn : ofDigits 0 s.whole.reverse = n)
    (hlt : n < UInt64.size) : s.value? = some (.integer n) := by
  have hvalue : ¬ s.negative = true := by simp [hnegative]
  rcases hplace with hplace | hplace
  · simp only [value?, hplace, hn, if_neg hvalue, if_pos hlt]
  · simp only [value?, hplace, hn, if_neg hvalue, if_pos hlt]

/-- Where a literal may end, a character that goes on with no number ends it. -/
theorem step_eq_ended {s : NumberScan} (hplace : s.place.isComplete = true) {c : Char}
    (hc : continuesNumber c = false) : s.step c = .ended := by
  obtain ⟨hdigit, -, -, hpoint, hmark⟩ := continuesNumber_eq_false hc
  have hafter : s.afterWhole c = .ended := by
    rw [afterWhole, if_neg hpoint, if_neg hmark]
  cases h : s.place with
  | zero => simp only [step, h, hdigit, hafter, Bool.false_eq_true, if_false]
  | whole => simp only [step, h, hdigit, hafter, Bool.false_eq_true, if_false]
  | fraction => simp only [step, h, hdigit, if_neg hmark, Bool.false_eq_true, if_false]
  | exponent => simp only [step, h, hdigit, Bool.false_eq_true, if_false]
  | _ =>
    rw [h] at hplace
    cases hplace

/-- Where a literal may not end, such a character breaks it off. -/
theorem step_eq_bad {s : NumberScan} (hplace : s.place.isComplete = false) {c : Char}
    (hc : continuesNumber c = false) : s.step c = .bad := by
  obtain ⟨hdigit, hplus, hminus, -, -⟩ := continuesNumber_eq_false hc
  cases h : s.place with
  | minus =>
    have hzero : c ≠ '0' := by
      rintro rfl
      cases hdigit
    simp only [step, h, hdigit, if_neg hzero, Bool.false_eq_true, if_false]
  | point => simp only [step, h, hdigit, Bool.false_eq_true, if_false]
  | mark =>
    simp only [step, h, hdigit, if_neg hplus, if_neg hminus, Bool.false_eq_true, if_false]
  | sign => simp only [step, h, hdigit, Bool.false_eq_true, if_false]
  | _ =>
    rw [h] at hplace
    cases hplace

end NumberScan

end StreamBuffer
