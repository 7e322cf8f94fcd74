/-
  StreamBuffer.Proofs.Json.Spelling

  All the ways to spell a string literal, and that each of them is read.

  `SpelledText text chars` says that `text` spells the characters: each as itself, by a
  letter behind a backslash, by a code unit with hexadecimal digits of either case, or by the
  two code units of a pair. `LooseText text` is what the literals of skipped strings may
  hold: there, code units may be any, and stand alone.

  Four hexadecimal digits are read as one code unit (`StringScan.run?_digits`); a spelling is
  read to its end and adds its characters (`run?_spelledText`), and a loose text is read to
  its end when reading is lenient (`run?_looseText`).
-/
import StreamBuffer.Proofs.Json.StringLiteral

namespace StreamBuffer

/-! ## Spellings -/

/-- The character may stand in a string literal as itself. -/
def isPlainChar (c : Char) : Bool := c ≠ '"' && c ≠ '\\' && 0x20 ≤ c.toNat

/-- The first half of the pair that names a character beyond 16 bits. -/
def leadUnit (c : Char) : Nat := 0xD800 + (c.toNat - 0x10000) / 0x400

/-- The second half of the pair. -/
def trailUnit (c : Char) : Nat := 0xDC00 + (c.toNat - 0x10000) % 0x400

/-- The ways to spell one character. -/
inductive SpelledChar : List Char → Char → Prop where
  | plain {c : Char} (hplain : isPlainChar c = true) : SpelledChar [c] c
  | short {letter c : Char} (hletter : shortEscape? letter = some c) :
      SpelledChar ['\\', letter] c
  | unit {digits : List Char} {c : Char} (hdigits : codeUnit? digits = some c.toNat) :
      SpelledChar ('\\' :: 'u' :: digits) c
  | pair {first second : List Char} {c : Char} (hlarge : 0x10000 ≤ c.toNat)
      (hfirst : codeUnit? first = some (leadUnit c))
      (hsecond : codeUnit? second = some (trailUnit c)) :
      SpelledChar ('\\' :: 'u' :: first ++ '\\' :: 'u' :: second) c

/-- A spelling of characters, one after the other. -/
inductive SpelledText : List Char → List Char → Prop where
  | nil : SpelledText [] []
  | cons {first rest chars : List Char} {c : Char} (hfirst : SpelledChar first c)
      (hrest : SpelledText rest chars) : SpelledText (first ++ rest) (c :: chars)

/-- What may stand in a string literal whose text is of no use. -/
inductive LooseText : List Char → Prop where
  | nil : LooseText []
  | plain {c : Char} {rest : List Char} (hplain : isPlainChar c = true)
      (hrest : LooseText rest) : LooseText (c :: rest)
  | short {letter c : Char} {rest : List Char} (hletter : shortEscape? letter = some c)
      (hrest : LooseText rest) : LooseText ('\\' :: letter :: rest)
  | unit {digits rest : List Char} {n : Nat} (hdigits : codeUnit? digits = some n)
      (hrest : LooseText rest) : LooseText ('\\' :: 'u' :: digits ++ rest)

/-- The text is a literal of the string, in its quotes. -/
def IsLiteralOf (s : String) (text : List Char) : Prop :=
  ∃ body, SpelledText body s.toList ∧ text = '"' :: (body ++ ['"'])

/-- The text is a literal of a string that is of no use. -/
def IsLooseLiteral (text : List Char) : Prop :=
  ∃ body, LooseText body ∧ text = '"' :: (body ++ ['"'])

theorem isPlainChar_iff {c : Char} :
    isPlainChar c = true ↔ c ≠ '"' ∧ c ≠ '\\' ∧ ¬ c.toNat < 0x20 := by
  simp [isPlainChar, and_assoc]

/-- What is written for a character spells it. -/
theorem spelledChar_literalChar (c : Char) : SpelledChar (literalChar c) c := by
  rcases literalChar_cases c with ⟨letter, hletter, hc⟩ | ⟨hcontrol, hc⟩
    | ⟨hquote, hslash, hcontrol, hc⟩
  · rw [hc]
    exact .short hletter
  · rw [hc]
    exact .unit (codeUnit?_control hcontrol)
  · rw [hc]
    exact .plain (isPlainChar_iff.mpr ⟨hquote, hslash, hcontrol⟩)

/-- What is written for a text spells it. -/
theorem spelledText_flatMap_literalChar (text : List Char) :
    SpelledText (text.flatMap literalChar) text := by
  induction text with
  | nil => exact .nil
  | cons c rest ih => exact .cons (spelledChar_literalChar c) ih

/-- The literal that is written for a string is one of its literals. -/
theorem isLiteralOf_stringLiteral (s : String) : IsLiteralOf s (stringLiteral s.toList) :=
  ⟨_, spelledText_flatMap_literalChar s.toList, rfl⟩

/-! ## Code units -/

/-- A character is no code unit of a pair. -/
theorem toNat_not_surrogate (c : Char) :
    c.toNat < 0xD800 ∨ (0xDFFF < c.toNat ∧ c.toNat < 0x110000) := c.valid

/-- The halves of a pair are what they are for. -/
theorem isLeadUnit_leadUnit {c : Char} (hlarge : 0x10000 ≤ c.toNat) :
    isLeadUnit (leadUnit c) = true := by
  have hvalid := toNat_not_surrogate c
  rw [isLeadUnit, Bool.and_eq_true, decide_eq_true_eq, decide_eq_true_eq, leadUnit]
  omega

theorem isTrailUnit_trailUnit (c : Char) : isTrailUnit (trailUnit c) = true := by
  rw [isTrailUnit, Bool.and_eq_true, decide_eq_true_eq, decide_eq_true_eq, trailUnit]
  omega

/-- Together they name the character. -/
theorem pairedChar_units {c : Char} (hlarge : 0x10000 ≤ c.toNat) :
    pairedChar (leadUnit c) (trailUnit c) = c := by
  have hnumber : 0x10000 + (leadUnit c - 0xD800) * 0x400 + (trailUnit c - 0xDC00) = c.toNat := by
    simp only [leadUnit, trailUnit]
    omega
  rw [pairedChar, hnumber, Char.ofNat_toNat]

/-- Hexadecimal digits take one byte each. -/
theorem utf8Size_of_hexValue? {c : Char} {v : Nat} (h : hexValue? c = some v) :
    c.utf8Size = 1 := by
  have hsmall : c.val ≤ 0x7f := by
    unfold hexValue? at h
    split at h
    · rename_i hrange
      exact Nat.le_trans hrange.2 (by decide)
    · split at h
      · rename_i hrange
        exact Nat.le_trans hrange.2 (by decide)
      · split at h
        · rename_i hrange
          exact Nat.le_trans hrange.2 (by decide)
        · cases h
  unfold Char.utf8Size
  exact if_pos hsmall

/-- The digits of a code unit are four characters of one byte each. -/
theorem codeUnit?_cases {digits : List Char} {n : Nat} (h : codeUnit? digits = some n) :
    ∃ a b c d, digits = [a, b, c, d] ∧ a.utf8Size = 1 ∧ b.utf8Size = 1 ∧ c.utf8Size = 1
      ∧ d.utf8Size = 1 := by
  unfold codeUnit? at h
  split at h
  · rename_i a b c d
    cases ha : hexValue? a with
    | none => simp [ha] at h
    | some va =>
      cases hb : hexValue? b with
      | none => simp [ha, hb] at h
      | some vb =>
        cases hc : hexValue? c with
        | none => simp [ha, hb, hc] at h
        | some vc =>
          cases hd : hexValue? d with
          | none => simp [ha, hb, hc, hd] at h
          | some vd =>
            exact ⟨a, b, c, d, rfl, utf8Size_of_hexValue? ha, utf8Size_of_hexValue? hb,
              utf8Size_of_hexValue? hc, utf8Size_of_hexValue? hd⟩
  · cases h

namespace StringScan

/-- Where the digits of a code unit are due, four of them are read as one unit. -/
theorem run?_digits {s t : StringScan} {lead : Option Nat} (hplace : s.place = .digits lead [])
    {digits : List Char} {n : Nat} (hdigits : codeUnit? digits = some n)
    (hunit : s.pushUnit lead n = .more t) : s.run? digits = some t := by
  obtain ⟨a, b, c, d, rfl, ha, hb, hc, hd⟩ := codeUnit?_cases hdigits
  have hfirst : s.step a = .more { s with place := .digits lead [a] } := by
    simp only [step, hplace, utf8Length, ha]
    rfl
  have hsecond : ({ s with place := .digits lead [a] } : StringScan).step b
      = .more { s with place := .digits lead [b, a] } := by
    simp only [step, utf8Length, ha, hb]
    rfl
  have hthird : ({ s with place := .digits lead [b, a] } : StringScan).step c
      = .more { s with place := .digits lead [c, b, a] } := by
    simp only [step, utf8Length, ha, hb, hc]
    rfl
  -- with the fourth digit the code unit is complete
  have hfourth : ({ s with place := .digits lead [c, b, a] } : StringScan).step d = .more t := by
    have hpush : ({ s with place := .digits lead [c, b, a] } : StringScan).pushUnit lead n
        = .more t := by
      rw [← hunit]
      rfl
    simp only [step, utf8Length, ha, hb, hc, hd, List.reverse_cons, List.reverse_nil,
      List.nil_append, List.cons_append, hdigits, hpush]
    rfl
  rw [run?_cons_of_more hfirst, run?_cons_of_more hsecond, run?_cons_of_more hthird,
    run?_cons_of_more hfourth]
  rfl

/-- A backslash, the letter `u` and the digits of a code unit. -/
theorem run?_unit {s t : StringScan} (hplain : s.place = .plain) {digits : List Char} {n : Nat}
    (hdigits : codeUnit? digits = some n) (hunit : s.pushUnit none n = .more t) :
    s.run? ('\\' :: 'u' :: digits) = some t := by
  have hslash : s.step '\\' = .more { s with place := .escape } := by
    rw [step, hplain]
    rfl
  have hletter : ({ s with place := .escape } : StringScan).step 'u'
      = .more { s with place := .digits none [] } := rfl
  rw [run?_cons_of_more hslash, run?_cons_of_more hletter]
  refine run?_digits rfl hdigits ?_
  rw [← hunit]
  rfl

/-- A plain character adds itself. -/
theorem run?_plain {s : StringScan} (hplace : s.place = .plain) {c : Char}
    (hc : isPlainChar c = true) : s.run? [c] = some (s.push c) := by
  obtain ⟨hquote, hslash, hcontrol⟩ := isPlainChar_iff.mp hc
  have hstep : s.step c = .more (s.push c) := by
    simp only [step, hplace, if_neg hquote, if_neg hslash, if_neg hcontrol]
  rw [run?_cons_of_more hstep]
  rfl

/-! ## Reading a spelling -/

/-- However a character is spelled, its spelling adds it. -/
theorem run?_spelledChar {s : StringScan} (hplain : s.place = .plain)
    (hstrict : s.lenient = false) {text : List Char} {c : Char} (h : SpelledChar text c) :
    s.run? text = some (s.push c) := by
  cases h with
  | plain hc => exact run?_plain hplain hc
  | short hletter => exact run?_shortEscape hplain hletter
  | unit hdigits =>
    have hvalid := toNat_not_surrogate c
    have hlead : isLeadUnit c.toNat = false := by
      simp only [isLeadUnit, Bool.and_eq_false_iff, decide_eq_false_iff_not]
      omega
    have htrail : isTrailUnit c.toNat = false := by
      simp only [isTrailUnit, Bool.and_eq_false_iff, decide_eq_false_iff_not]
      omega
    refine run?_unit hplain hdigits ?_
    simp only [pushUnit, hstrict, hlead, htrail, Bool.false_eq_true, if_false, Char.ofNat_toNat]
  | @pair first second c hlarge hfirst hsecond =>
    let lead := leadUnit c
    have hlead : isLeadUnit lead = true := isLeadUnit_leadUnit hlarge
    have htrail := isTrailUnit_trailUnit c
    have hhalf : s.run? ('\\' :: 'u' :: first) = some { s with place := .pairEscape lead } := by
      refine run?_unit hplain hfirst ?_
      simp only [pushUnit, hstrict]
      rw [if_neg Bool.false_ne_true, if_pos hlead]
    -- the other half has to follow at once
    have hslash : ({ s with place := .pairEscape lead } : StringScan).step '\\'
        = .more { s with place := .pairLetter lead } := rfl
    have hletter : ({ s with place := .pairLetter lead } : StringScan).step 'u'
        = .more { s with place := .digits (some lead) [] } := rfl
    have hother : ({ s with place := .digits (some lead) [] } : StringScan).run? second
        = some (s.push c) := by
      refine run?_digits rfl hsecond ?_
      simp only [pushUnit, hstrict, htrail, Bool.false_eq_true, if_false, if_true, lead,
        pairedChar_units hlarge]
      simp only [push, hstrict]
    rw [run?_append hhalf, run?_cons_of_more hslash, run?_cons_of_more hletter, hother]

/-- A spelling adds its characters, one after the other. -/
theorem run?_spelledText {s : StringScan} (hplain : s.place = .plain)
    (hstrict : s.lenient = false) {text chars : List Char} (h : SpelledText text chars) :
    s.run? text = some { s with chars := chars.reverse ++ s.chars } := by
  induction h generalizing s with
  | nil => rfl
  | @cons first rest chars c hfirst _ ih =>
    have hrest := ih (s := s.push c) rfl hstrict
    rw [run?_append (run?_spelledChar hplain hstrict hfirst), hrest, List.reverse_cons,
      List.append_assoc, push, hplain]
    rfl

/-- Lenient reading gets to the end of a loose text, whatever it takes it for. -/
theorem run?_looseText {s : StringScan} (hplain : s.place = .plain) (hlenient : s.lenient = true)
    {text : List Char} (h : LooseText text) :
    ∃ t, s.run? text = some t ∧ t.place = .plain ∧ t.lenient = true := by
  induction h generalizing s with
  | nil => exact ⟨s, rfl, hplain, hlenient⟩
  | @plain c rest hc _ ih =>
    obtain ⟨t, hrest, ht⟩ := ih (s := s.push c) rfl hlenient
    refine ⟨t, ?_, ht⟩
    exact (run?_append (run?_plain hplain hc) rest).trans hrest
  | @short letter c rest hletter _ ih =>
    obtain ⟨t, hrest, ht⟩ := ih (s := s.push c) rfl hlenient
    refine ⟨t, ?_, ht⟩
    exact (run?_append (run?_shortEscape hplain hletter) rest).trans hrest
  | @unit digits rest n hdigits _ ih =>
    obtain ⟨t, hrest, ht⟩ := ih (s := { s with place := .plain }) rfl hlenient
    refine ⟨t, ?_, ht⟩
    have hunit : s.run? ('\\' :: 'u' :: digits) = some { s with place := .plain } := by
      refine run?_unit hplain hdigits ?_
      simp only [pushUnit, hlenient, if_true]
    exact (run?_append hunit rest).trans hrest

end StringScan

end StreamBuffer
