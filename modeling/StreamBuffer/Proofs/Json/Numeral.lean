/-
  StreamBuffer.Proofs.Json.Numeral

  The grammar of number literals, and that each of them is read to its end.

  `IsNumber` puts a literal together from its sign, its whole part, its fraction and its
  exponent, and `Numeral` keeps the parts. A scan takes each part in its turn, whatever its
  size, and collects its digits: more digits stay with those before
  (`NumberScan.run?_moreDigits`), the whole part leads before the fraction
  (`exists_scan_whole`), and fraction and exponent leave the scan where the literal may end
  (`run?_fraction`, `run?_exponent`). So a literal is begun by its first character and
  complete behind its last (`exists_scan_number`), and what has been read then are its parts
  (`exists_scan_numeral`).
-/
import StreamBuffer.Proofs.Json.NumberLiteral

namespace StreamBuffer

/-! ## Literals -/

/-- Some digits, and at least one. -/
def IsDigits (text : List Char) : Prop := text ≠ [] ∧ ∀ c ∈ text, c.isDigit = true

instance (text : List Char) : Decidable (IsDigits text) :=
  decidable_of_iff ((!text.isEmpty && text.all Char.isDigit) = true) (by simp [IsDigits])

/-- The whole part of a number: a zero alone, or digits with another one in front. -/
inductive IsWhole : List Char → Prop where
  | zero : IsWhole ['0']
  | digits {c : Char} {rest : List Char} (hzero : c ≠ '0') (hc : c.isDigit = true)
      (hrest : ∀ d ∈ rest, d.isDigit = true) : IsWhole (c :: rest)

/-- The fraction of a number, if it has one. -/
inductive IsFraction : List Char → Prop where
  | none : IsFraction []
  | digits {digits : List Char} (hdigits : IsDigits digits) : IsFraction ('.' :: digits)

/-- The exponent of a number, if it has one. -/
inductive IsExponent : List Char → Prop where
  | none : IsExponent []
  | digits {mark : Char} {sign digits : List Char} (hmark : mark = 'e' ∨ mark = 'E')
      (hsign : sign = [] ∨ sign = ['+'] ∨ sign = ['-']) (hdigits : IsDigits digits) :
      IsExponent (mark :: (sign ++ digits))

/-- A number literal of any size. -/
inductive IsNumber : List Char → Prop where
  | mk {sign whole fraction exponent : List Char} (hsign : sign = [] ∨ sign = ['-'])
      (hwhole : IsWhole whole) (hfraction : IsFraction fraction)
      (hexponent : IsExponent exponent) : IsNumber (sign ++ (whole ++ (fraction ++ exponent)))

/-- A number literal by its parts. -/
structure Numeral where
  sign : List Char
  whole : List Char
  fraction : List Char
  exponent : List Char
  hsign : sign = [] ∨ sign = ['-']
  hwhole : IsWhole whole
  hfraction : IsFraction fraction
  hexponent : IsExponent exponent

namespace Numeral

/-- The literal itself. -/
def text (n : Numeral) : List Char := n.sign ++ (n.whole ++ (n.fraction ++ n.exponent))

/-- The digits of the exponent, without its mark and its sign. -/
def exponentDigits (n : Numeral) : List Char := n.exponent.filter Char.isDigit

/-- The place of a scan behind the literal. -/
def place (n : Numeral) : NumberPlace :=
  if n.exponent ≠ [] then .exponent
  else if n.fraction ≠ [] then .fraction
  else if n.whole = ['0'] then .zero
  else .whole

/-- A scan that has read the literal. -/
def scan (n : Numeral) : NumberScan where
  place := n.place
  negative := n.sign = ['-']
  whole := (n.whole.map digitValue).reverse
  fraction := (n.fraction.tail.map digitValue).reverse
  exponentNegative := '-' ∈ n.exponent
  exponent := (n.exponentDigits.map digitValue).reverse

end Numeral

/-- The number literals are those of the numerals. -/
theorem isNumber_iff {text : List Char} : IsNumber text ↔ ∃ n : Numeral, n.text = text := by
  constructor
  · rintro ⟨hsign, hwhole, hfraction, hexponent⟩
    exact ⟨⟨_, _, _, _, hsign, hwhole, hfraction, hexponent⟩, rfl⟩
  · rintro ⟨n, rfl⟩
    exact .mk n.hsign n.hwhole n.hfraction n.hexponent

namespace NumberScan

/-! ## Reading the parts -/

theorem run?_cons_of_more {s t : NumberScan} {c : Char} (h : s.step c = .more t)
    (rest : List Char) : s.run? (c :: rest) = t.run? rest := by
  rw [run?, h]

theorem run?_append {s t : NumberScan} {first : List Char} (h : s.run? first = some t)
    (second : List Char) : s.run? (first ++ second) = t.run? second := by
  induction first generalizing s with
  | nil =>
    obtain rfl : s = t := Option.some.inj h
    rfl
  | cons c rest ih =>
    rw [run?] at h
    rw [List.cons_append, run?]
    split at h
    · exact ih h
    · cases h
    · cases h

/-- The scan with more digits of the part that it is in. -/
def moreDigits (s : NumberScan) (digits : List Nat) : NumberScan :=
  match s.place with
  | .whole => { s with whole := digits.reverse ++ s.whole }
  | .fraction => { s with fraction := digits.reverse ++ s.fraction }
  | .exponent => { s with exponent := digits.reverse ++ s.exponent }
  | _ => s

/-- Among the digits of a part, more of them are collected. -/
theorem run?_moreDigits {s : NumberScan}
    (hplace : s.place = .whole ∨ s.place = .fraction ∨ s.place = .exponent) {digits : List Char}
    (hdigits : ∀ c ∈ digits, c.isDigit = true) :
    s.run? digits = some (s.moreDigits (digits.map digitValue)) := by
  induction digits generalizing s with
  | nil =>
    obtain ⟨place, _, _, _, _, _⟩ := s
    rcases hplace with rfl | rfl | rfl <;> rfl
  | cons c rest ih =>
    have hc := hdigits c List.mem_cons_self
    have hrest := fun d hd => hdigits d (List.mem_cons_of_mem c hd)
    have hstep : s.step c = .more (s.moreDigits [digitValue c]) := by
      rcases hplace with hplace | hplace | hplace <;>
        simp [step, moreDigits, exponentDigit, hplace, hc]
    have hsame : (s.moreDigits [digitValue c]).place = s.place := by
      rcases hplace with hplace | hplace | hplace <;> simp [moreDigits, hplace]
    rw [run?_cons_of_more hstep, ih (by rwa [hsame]) hrest]
    rcases hplace with hplace | hplace | hplace <;> simp [moreDigits, hplace]

/-- Behind a whole part. -/
def BehindWhole (place : NumberPlace) : Prop := place = .zero ∨ place = .whole

/-- Behind a fraction, or a whole part without one. -/
def BehindFraction (place : NumberPlace) : Prop := BehindWhole place ∨ place = .fraction

theorem BehindFraction.isComplete {place : NumberPlace} (h : BehindFraction place) :
    place.isComplete = true := by
  rcases h with (rfl | rfl) | rfl <;> rfl

/-- A whole part is begun by its first character, behind a minus sign or without one. -/
theorem exists_scan_whole {sign text : List Char} (hsign : sign = [] ∨ sign = ['-'])
    (h : IsWhole text) :
    ∃ c rest scan, sign ++ text = c :: rest ∧ start? c = some scan
      ∧ scan.run? rest = some { place := if text = ['0'] then .zero else .whole,
                                negative := sign = ['-'],
                                whole := (text.map digitValue).reverse } := by
  cases h with
  | zero =>
    rcases hsign with rfl | rfl
    · exact ⟨'0', [], _, rfl, rfl, rfl⟩
    · exact ⟨'-', ['0'], _, rfl, rfl, rfl⟩
  | @digits c rest hzero hc hrest =>
    have hplace : ¬ c :: rest = ['0'] := fun h => hzero (List.cons.inj h).1
    have hrun : ∀ negative : Bool,
        ({ place := .whole, negative, whole := [digitValue c] } : NumberScan).run? rest
          = some { place := .whole, negative, whole := ((c :: rest).map digitValue).reverse } := by
      intro negative
      rw [run?_moreDigits (Or.inl rfl) hrest]
      simp [moreDigits]
    rcases hsign with rfl | rfl
    · have hminus : c ≠ '-' := by
        rintro rfl
        cases hc
      refine ⟨c, rest, { place := .whole, whole := [digitValue c] }, rfl, ?_, ?_⟩
      · simp only [start?, if_neg hminus, if_neg hzero, hc, if_true]
      · rw [if_neg hplace]
        exact hrun false
    · have hstep : ({ place := .minus, negative := true } : NumberScan).step c
          = .more { place := .whole, negative := true, whole := [digitValue c] } := by
        simp only [step, if_neg hzero, hc, if_true]
      refine ⟨'-', c :: rest, { place := .minus, negative := true }, rfl, rfl, ?_⟩
      rw [if_neg hplace, run?_cons_of_more hstep]
      exact hrun true

/-- A fraction, or none, is read behind a whole part. -/
theorem run?_fraction {s : NumberScan} (hplace : BehindWhole s.place) (hnone : s.fraction = [])
    {text : List Char} (h : IsFraction text) :
    s.run? text = some { s with place := if text ≠ [] then .fraction else s.place,
                                fraction := (text.tail.map digitValue).reverse } := by
  cases h with
  | none =>
    obtain ⟨_, _, _, fraction, _, _⟩ := s
    obtain rfl : fraction = [] := hnone
    rfl
  | @digits digits hdigits =>
    obtain ⟨hne, hall⟩ := hdigits
    obtain ⟨c, rest, rfl⟩ := List.exists_cons_of_ne_nil hne
    have hpoint : s.step '.' = .more { s with place := .point } := by
      rcases hplace with hplace | hplace <;> simp only [step, hplace] <;> rfl
    have hfirst : ({ s with place := .point } : NumberScan).step c
        = .more { s with place := .fraction, fraction := [digitValue c] } := by
      simp only [step, hall c List.mem_cons_self, if_true]
    rw [run?_cons_of_more hpoint, run?_cons_of_more hfirst,
      run?_moreDigits (Or.inr (Or.inl rfl)) fun d hd => hall d (List.mem_cons_of_mem c hd)]
    simp [moreDigits]

/-- An exponent, or none, is read behind a fraction or a whole part. -/
theorem run?_exponent {s : NumberScan} (hplace : BehindFraction s.place)
    (hnone : s.exponent = []) (hpositive : s.exponentNegative = false) {text : List Char}
    (h : IsExponent text) :
    s.run? text = some { s with place := if text ≠ [] then .exponent else s.place,
                                exponentNegative := '-' ∈ text,
                                exponent :=
                                  ((text.filter Char.isDigit).map digitValue).reverse } := by
  cases h with
  | none =>
    obtain ⟨_, _, _, _, negative, exponent⟩ := s
    obtain rfl : exponent = [] := hnone
    obtain rfl : negative = false := hpositive
    rfl
  | @digits mark sign digits hmark hsign hdigits =>
    obtain ⟨hne, hall⟩ := hdigits
    have hkept : (mark :: (sign ++ digits)).filter Char.isDigit = digits := by
      have hmark : mark.isDigit = false := by rcases hmark with rfl | rfl <;> rfl
      have hsign : sign.filter Char.isDigit = [] := by rcases hsign with rfl | rfl | rfl <;> rfl
      rw [List.filter_cons_of_neg (by simp [hmark]), List.filter_append, hsign,
        List.filter_eq_self.mpr hall, List.nil_append]
    have hnegative : '-' ∈ mark :: (sign ++ digits) ↔ sign = ['-'] := by
      have hmark : '-' ≠ mark := by rcases hmark with rfl | rfl <;> decide
      have hdigit : '-' ∉ digits := fun h => by cases hall _ h
      rw [List.mem_cons, List.mem_append, or_iff_right hmark, or_iff_left hdigit]
      rcases hsign with rfl | rfl | rfl <;> decide
    have hstep : s.step mark = .more { s with place := .mark } := by
      rcases hplace with (hplace | hplace) | hplace <;> rcases hmark with rfl | rfl <;>
        simp only [step, hplace] <;> rfl
    -- the sign leads from the mark to the first digit
    obtain ⟨c, rest, rfl⟩ := List.exists_cons_of_ne_nil hne
    have hc := hall c List.mem_cons_self
    let first : NumberScan := { s with
      place := .exponent, exponentNegative := sign = ['-'], exponent := [digitValue c] }
    have hsigned : ({ s with place := .mark } : NumberScan).run? (sign ++ c :: rest)
        = first.run? rest := by
      rcases hsign with rfl | rfl | rfl
      · have hplus : c ≠ '+' := by
          rintro rfl
          cases hc
        have hminus : c ≠ '-' := by
          rintro rfl
          cases hc
        refine run?_cons_of_more ?_ rest
        simp [step, exponentDigit, hplus, hminus, hc, hnone, first, hpositive]
      · refine run?_cons_of_more ?_ rest
        simp [step, exponentDigit, hc, hnone, first, hpositive]
      · refine run?_cons_of_more ?_ rest
        simp [step, exponentDigit, hc, hnone, first]
    rw [run?_cons_of_more hstep, hsigned, hkept, run?_moreDigits (Or.inr (Or.inr rfl))
      fun d hd => hall d (List.mem_cons_of_mem c hd)]
    simp [moreDigits, first, hnegative]

/-! ## Reading a literal -/

/-- A number literal is begun by its first character, and behind its last all its parts have
    been read. -/
theorem exists_scan_numeral (n : Numeral) :
    ∃ c rest scan, n.text = c :: rest ∧ start? c = some scan ∧ scan.run? rest = some n.scan := by
  obtain ⟨c, rest, scan, htext, hstart, hwhole⟩ := exists_scan_whole n.hsign n.hwhole
  let whole : NumberScan := { n.scan with
    place := if n.whole = ['0'] then .zero else .whole
    fraction := [], exponentNegative := false, exponent := [] }
  let fraction : NumberScan := { n.scan with
    place := if n.fraction ≠ [] then .fraction else whole.place
    exponentNegative := false, exponent := [] }
  have hbehindWhole : BehindWhole whole.place := by
    simp only [whole]
    split
    · exact Or.inl rfl
    · exact Or.inr rfl
  have hbehindFraction : BehindFraction fraction.place := by
    simp only [fraction]
    split
    · exact Or.inr rfl
    · exact Or.inl hbehindWhole
  have hfraction : whole.run? n.fraction = some fraction :=
    run?_fraction hbehindWhole rfl n.hfraction
  have hexponent : fraction.run? n.exponent = some n.scan :=
    run?_exponent hbehindFraction rfl rfl n.hexponent
  refine ⟨c, rest ++ (n.fraction ++ n.exponent), scan, ?_, hstart, ?_⟩
  · rw [Numeral.text, ← List.append_assoc, htext, List.cons_append]
  · rw [run?_append (t := whole) hwhole, run?_append hfraction, hexponent]

theorem isComplete_place (n : Numeral) : n.place.isComplete = true := by
  unfold Numeral.place
  split
  · rfl
  · split
    · rfl
    · split <;> rfl

/-- A number literal is begun by its first character, and complete behind its last. -/
theorem exists_scan_number {text : List Char} (h : IsNumber text) :
    ∃ c rest scan scan', text = c :: rest ∧ start? c = some scan ∧ scan.run? rest = some scan'
      ∧ scan'.place.isComplete = true := by
  obtain ⟨n, rfl⟩ := isNumber_iff.mp h
  obtain ⟨c, rest, scan, htext, hstart, hrun⟩ := exists_scan_numeral n
  exact ⟨c, rest, scan, n.scan, htext, hstart, hrun, isComplete_place n⟩

end NumberScan

end StreamBuffer
