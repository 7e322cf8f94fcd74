/-
  StreamBuffer.Proofs.Config.FirstError

  A document is decided from left to right, and the first error in it wins.

  Where the characters of a text have failed, characters behind them change nothing: that
  is how errors pass through `List.foldlM`. The end of a text fails for one reason of its
  own, that the text is cut short, and for one that it shares with the next character: a
  number is complete, or is broken off, only by what stands behind it
  (`DocumentScan.accept_of_finish`). A document that is read holds nothing behind its closing
  bracket but white space (`DocumentScan.finish_blanks`).
-/
import StreamBuffer.Config.Document
import StreamBuffer.Proofs.Json.NumberLiteral

namespace StreamBuffer

namespace DocumentScan

/-! ## The end of a text -/

/-- A failure at the end of a text, other than that the text is cut short, is met by the
    next character too, unless it goes on with a number. -/
theorem accept_of_finish {r : DocumentScan} {e : ConfigError} (h : r.finish = .error e)
    (he : e ≠ .truncated) {c : Char} (hc : continuesNumber c = false) :
    r.accept c = .error e := by
  unfold finish at h
  split at h
  · cases h
  · rename_i use scan hplace
    split at h
    · -- the number is complete, and it is what fails
      rename_i hcomplete
      have hended := NumberScan.step_eq_ended hcomplete hc
      cases hnumber : r.deliverNumber use scan with
      | ok t =>
        rw [hnumber] at h
        cases h
        exact absurd rfl he
      | error e' =>
        rw [hnumber] at h
        cases h
        simp only [accept, hplace, hended, hnumber]
        rfl
    · rename_i hcomplete
      have hbad := NumberScan.step_eq_bad (Bool.eq_false_iff.mpr hcomplete) hc
      have hmalformed : r.accept c = .error .malformed := by
        simp only [accept, hplace, hbad]
      split at h
      · cases h
        exact hmalformed
      · cases h
        exact absurd rfl he
  · cases h
    exact absurd rfl he

/-- A text that ends in a config ends behind the closing bracket. -/
theorem place_of_finish {r : DocumentScan} {c : Config} (h : r.finish = .ok c) :
    r.place = .done := by
  unfold finish at h
  split at h
  · assumption
  · rename_i use scan hplace
    split at h
    · cases hnumber : r.deliverNumber use scan <;> rw [hnumber] at h <;> cases h
    · split at h <;> cases h
  · cases h

/-- Behind the closing bracket white space is read over, and all else is an error. -/
theorem foldlM_accept_of_done {r : DocumentScan} (hplace : r.place = .done) (s : List Char) :
    s.foldlM accept r = if s.all isBlank then .ok r else .error .malformed := by
  induction s with
  | nil => rfl
  | cons c rest ih =>
    have hfirst : r.accept c = if isBlank c then .ok r else .error .malformed := by
      simp only [accept, hplace, acceptBetween]
    rw [List.foldlM_cons, hfirst, List.all_cons]
    by_cases hblank : isBlank c = true
    · rw [if_pos hblank, hblank, Bool.true_and]
      exact ih
    · rw [if_neg hblank, Bool.eq_false_iff.mpr hblank]
      rfl

end DocumentScan

namespace Config

/-- Reading a text is reading its characters and then its end. -/
theorem parse_append_eq (t s : List Char) :
    parse (t ++ s)
      = t.foldlM DocumentScan.accept {} >>= fun r =>
          s.foldlM DocumentScan.accept r >>= DocumentScan.finish := by
  rw [parse, List.foldlM_append, bind_assoc]

/-- A failure but for the end of the text stays, whatever follows that does not go on with a
    number. -/
theorem parse_append_of_error {t s : List Char} {e : ConfigError} (h : parse t = .error e)
    (he : e ≠ .truncated) (hs : ∀ c ∈ s.head?, continuesNumber c = false) :
    parse (t ++ s) = .error e := by
  cases s with
  | nil => rw [List.append_nil, h]
  | cons c rest =>
    rw [parse_append_eq]
    rw [parse] at h
    cases hread : t.foldlM DocumentScan.accept {} with
    | error e' =>
      rw [hread] at h
      exact h
    | ok r =>
      rw [hread] at h
      have hfirst := DocumentScan.accept_of_finish (r := r) h he (hs c rfl)
      show (c :: rest).foldlM DocumentScan.accept r >>= DocumentScan.finish = _
      rw [List.foldlM_cons, hfirst]
      rfl

/-- A text that is read may be followed by white space, and by nothing else. -/
theorem parse_append_of_ok {t : List Char} {c : Config} (h : parse t = .ok c) (s : List Char) :
    parse (t ++ s) = if s.all isBlank then .ok c else .error .malformed := by
  rw [parse_append_eq]
  rw [parse] at h
  cases hread : t.foldlM DocumentScan.accept {} with
  | error e =>
    rw [hread] at h
    cases h
  | ok r =>
    rw [hread] at h
    have hfinish : r.finish = .ok c := h
    show s.foldlM DocumentScan.accept r >>= DocumentScan.finish = _
    rw [DocumentScan.foldlM_accept_of_done (DocumentScan.place_of_finish hfinish)]
    split
    · exact hfinish
    · rfl

/-- What is read of a text, for any text behind it. If the text is a config, white space
    behind it leaves it that config, and all else makes it malformed. If the text fails with
    a message, or is malformed, it does so in front of every text that does not go on with a
    number, with the same message. -/
theorem first_error_wins (t s : List Char) :
    (∀ c, parse t = .ok c →
        (s.all isBlank = true → parse (t ++ s) = .ok c)
          ∧ (s.all isBlank = false → parse (t ++ s) = .error .malformed))
      ∧ ((∀ c ∈ s.head?, continuesNumber c = false) →
        (∀ e message, parse t = .error e → e.message? = some message →
            ∃ e', parse (t ++ s) = .error e' ∧ e'.message? = some message)
          ∧ (parse t = .error .malformed → parse (t ++ s) = .error .malformed)) := by
  refine ⟨fun c hc => ⟨fun hblank => ?_, fun hblank => ?_⟩, fun hs => ⟨?_, fun h => ?_⟩⟩
  · rw [parse_append_of_ok hc, hblank]
    rfl
  · rw [parse_append_of_ok hc, hblank]
    rfl
  · intro e message h hmessage
    refine ⟨e, parse_append_of_error h ?_ hs, hmessage⟩
    rintro rfl
    cases hmessage
  · exact parse_append_of_error h (by decide) hs

/-- A document with a field twice is a failure with a message, though it is cut short
    behind the key; a number that breaks off in a skipped value is malformed; and an empty
    array may be followed by a line's end. -/
theorem first_error_wins_duplicate :
    let twice := "\x7b\"segment_capacity\":1,\"segment_capacity\"".toList
    let broken := "\x7b\"x\":[-".toList
    (parse twice = .error (.duplicateField .segmentCapacity)
        ∧ ∃ e', parse (twice ++ ": tru".toList) = .error e'
          ∧ e'.message? = some "duplicate field `segment_capacity`")
      ∧ (parse broken = .error .malformed ∧ parse (broken ++ ['}']) = .error .malformed)
      ∧ (parse "[]".toList = .ok {} ∧ parse ("[]".toList ++ ['\n']) = .ok {}
        ∧ parse ("[]".toList ++ ['0']) = .error .malformed) := by
  intro twice broken
  have htwice : parse twice = .error (.duplicateField .segmentCapacity) := by decide +kernel
  have hbroken : parse broken = .error .malformed := by decide +kernel
  have hempty : parse "[]".toList = .ok {} := by decide +kernel
  have hcolon : ∀ c ∈ (": tru".toList).head?, continuesNumber c = false := by
    rintro c ⟨⟩
    rfl
  have hbrace : ∀ c ∈ ['}'].head?, continuesNumber c = false := by
    rintro c ⟨⟩
    rfl
  refine ⟨⟨htwice, ?_⟩, ⟨hbroken, ?_⟩, hempty, ?_, ?_⟩
  · exact ((first_error_wins twice _).2 hcolon).1 _ _ htwice rfl
  · exact ((first_error_wins broken _).2 hbrace).2 hbroken
  · exact ((first_error_wins _ ['\n']).1 {} hempty).1 rfl
  · exact ((first_error_wins _ ['0']).1 {} hempty).2 rfl

end Config

end StreamBuffer
