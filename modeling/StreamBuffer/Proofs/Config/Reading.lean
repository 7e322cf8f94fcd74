/-
  StreamBuffer.Proofs.Config.Reading

  Reading a config document part by part.

  `Reads r text t` says that `text` leads from the place `r` of a document to the place
  `t`; it composes (`Reads.trans`). A number leads there only with the character behind it:
  `Completes r text t` says that such a character finds the document at `t`
  (`Completes.foldlM_eq`). Blanks lead nowhere (`reads_blanks`). A literal of a string leads to
  where the string is delivered, however it is spelled (`foldlM_literal`), and a number to
  where its value is (`completes_number`), or to the error if it is refused there
  (`foldlM_number_of_error`).
-/
import StreamBuffer.Config.Document
import StreamBuffer.Proofs.Json.Spelling
import StreamBuffer.Proofs.Json.Numeral

namespace StreamBuffer

namespace DocumentScan

/-! ## Parts of a document -/

/-- The text leads from one place of a document to another, without an error. -/
def Reads (r : DocumentScan) (text : List Char) (t : DocumentScan) : Prop :=
  text.foldlM accept r = .ok t

theorem Reads.nil (r : DocumentScan) : r.Reads [] r := rfl

/-- What stands behind a text is read from where the text leads. -/
theorem Reads.foldlM_eq {r t : DocumentScan} {text : List Char} (h : r.Reads text t)
    (rest : List Char) : (text ++ rest).foldlM accept r = rest.foldlM accept t := by
  rw [List.foldlM_append, h]
  rfl

theorem Reads.trans {r t u : DocumentScan} {first second : List Char} (h₁ : r.Reads first t)
    (h₂ : t.Reads second u) : r.Reads (first ++ second) u :=
  (h₁.foldlM_eq second).trans h₂

theorem reads_singleton {r t : DocumentScan} {c : Char} (h : r.accept c = .ok t) :
    r.Reads [c] t := by
  rw [Reads, List.foldlM_cons, h]
  rfl

theorem Reads.cons {r t u : DocumentScan} {c : Char} {rest : List Char} (h : r.accept c = .ok t)
    (hrest : t.Reads rest u) : r.Reads (c :: rest) u :=
  (reads_singleton h).trans hrest

/-- The text leads to a place where every character that goes on with no number finds the
    document as at `t`. -/
def Completes (r : DocumentScan) (text : List Char) (t : DocumentScan) : Prop :=
  ∃ u, r.Reads text u ∧ ∀ c, continuesNumber c = false → u.accept c = t.accept c

theorem Reads.completes {r t : DocumentScan} {text : List Char} (h : r.Reads text t) :
    r.Completes text t :=
  ⟨t, h, fun _ _ => rfl⟩

theorem Reads.trans_completes {r t u : DocumentScan} {first second : List Char}
    (h₁ : r.Reads first t) (h₂ : t.Completes second u) : r.Completes (first ++ second) u := by
  obtain ⟨v, hv, haccept⟩ := h₂
  exact ⟨v, h₁.trans hv, haccept⟩

/-- What stands behind the text, and goes on with no number, is read from `t`. -/
theorem Completes.foldlM_eq {r t : DocumentScan} {text : List Char} (h : r.Completes text t)
    {c : Char} (hc : continuesNumber c = false) (rest : List Char) :
    (text ++ c :: rest).foldlM accept r = (c :: rest).foldlM accept t := by
  obtain ⟨u, hu, haccept⟩ := h
  rw [hu.foldlM_eq, List.foldlM_cons, List.foldlM_cons, haccept c hc]

theorem Completes.concat {r t u : DocumentScan} {text : List Char} {c : Char}
    (h : r.Completes text t) (hc : continuesNumber c = false) (hnext : t.accept c = .ok u) :
    r.Reads (text ++ [c]) u :=
  (h.foldlM_eq hc []).trans (reads_singleton hnext)

/-! ## Between literals -/

end DocumentScan

/-- The place is inside no literal. -/
def DocumentPlace.isBetween : DocumentPlace → Bool
  | .string .. | .number .. | .keyword .. => false
  | _ => true

/-- The text is white space. -/
def Blanks (text : List Char) : Prop := ∀ c ∈ text, isBlank c = true

instance (text : List Char) : Decidable (Blanks text) :=
  decidable_of_iff (text.all isBlank = true) List.all_eq_true

theorem blanks_nil : Blanks [] := fun _ hc => nomatch hc

/-- White space goes on with no number. -/
theorem continuesNumber_of_isBlank {c : Char} (hc : isBlank c = true) :
    continuesNumber c = false := by
  simp only [isBlank, Bool.or_eq_true, decide_eq_true_eq] at hc
  rcases hc with ((rfl | rfl) | rfl) | rfl <;> rfl

namespace DocumentScan

theorem accept_of_isBetween {r : DocumentScan} (h : r.place.isBetween = true) (c : Char) :
    r.accept c = r.acceptBetween c := by
  unfold accept
  split
  · rename_i hplace
    rw [hplace] at h
    cases h
  · rename_i hplace
    rw [hplace] at h
    cases h
  · rename_i hplace
    rw [hplace] at h
    cases h
  · rfl

/-- White space between literals changes nothing. -/
theorem reads_blanks {r : DocumentScan} (h : r.place.isBetween = true) {text : List Char}
    (hblanks : Blanks text) : r.Reads text r := by
  induction text with
  | nil => exact .nil r
  | cons c rest ih =>
    have hblank : r.accept c = .ok r := by
      rw [accept_of_isBetween h, acceptBetween, if_pos (hblanks c List.mem_cons_self)]
    exact .cons hblank (ih fun d hd => hblanks d (List.mem_cons_of_mem c hd))

theorem Completes.blanks {r t : DocumentScan} {text blanks : List Char} (h : r.Completes text t)
    (hbetween : t.place.isBetween = true) (hblanks : Blanks blanks) :
    r.Completes (text ++ blanks) t := by
  cases blanks with
  | nil =>
    rw [List.append_nil]
    exact h
  | cons c rest =>
    have hc := continuesNumber_of_isBlank (hblanks c List.mem_cons_self)
    exact Reads.completes ((h.foldlM_eq hc rest).trans (reads_blanks hbetween hblanks))

/-! ## The place of a value

A value is delivered to the same effect from wherever it was begun. -/

theorem deliver_goto (r : DocumentScan) (place : DocumentPlace) (use : ValueUse) (found : Found) :
    (r.goto place).deliver use found = r.deliver use found := by
  have hassign : ∀ f behind, ((r.goto place).assign f found).map (·.goto behind)
      = (r.assign f found).map (·.goto behind) := by
    intro f behind
    unfold assign
    split
    · rfl
    · split <;> rfl
    · rfl
  cases use with
  | document => rfl
  | member f => exact hassign f _
  | element f => exact hassign f _
  | skipped opened => rfl

theorem deliverNumber_goto (r : DocumentScan) (place : DocumentPlace) (use : ValueUse)
    (scan : NumberScan) : (r.goto place).deliverNumber use scan = r.deliverNumber use scan := by
  unfold deliverNumber
  simp only [deliver_goto]
  rfl

theorem deliverString_goto (r : DocumentScan) (place : DocumentPlace) (use : StringUse)
    (text : String) : (r.goto place).deliverString use text = r.deliverString use text := by
  have hset : ∀ f, (r.goto place).isSet f = r.isSet f := by
    intro f
    cases f <;> rfl
  unfold deliverString
  simp only [deliver_goto, hset]
  rfl

/-- A value of the use is due at the place. -/
inductive Awaits : DocumentPlace → ValueUse → Prop where
  | value (use : ValueUse) : Awaits (.value use) use
  | skippedElement (opened : List Bracket) :
      Awaits (.skippedOpen .array opened) (.skipped (.array :: opened))
  | firstElement : Awaits .firstElement (.element .timerThreadName)

theorem Awaits.isBetween {place : DocumentPlace} {use : ValueUse} (h : Awaits place use) :
    place.isBetween = true := by
  cases h <;> rfl

/-- Where a value is due, a character that neither is blank nor ends an array begins it. -/
theorem Awaits.accept_eq {place : DocumentPlace} {use : ValueUse} (h : Awaits place use)
    (r : DocumentScan) {c : Char} (hblank : isBlank c = false) (hclosing : c ≠ ']') :
    (r.goto place).accept c = (r.goto place).beginValue use c := by
  have hnot : ¬ isBlank c = true := by simp [hblank]
  rw [accept_of_isBetween h.isBetween, acceptBetween, if_neg hnot]
  cases h with
  | value use => rfl
  | skippedElement opened => exact if_neg hclosing
  | firstElement => exact if_neg hclosing

/-! ## Literals -/

/-- Characters that go on with a string literal. -/
theorem reads_of_stringRun {scan scan' : StringScan} {text : List Char}
    (h : scan.run? text = some scan') (r : DocumentScan) (use : StringUse) :
    (r.goto (.string use scan)).Reads text (r.goto (.string use scan')) := by
  induction text generalizing scan with
  | nil =>
    obtain rfl : scan = scan' := Option.some.inj h
    exact .nil _
  | cons c rest ih =>
    rw [StringScan.run?] at h
    split at h
    · rename_i next hstep
      refine .cons ?_ (ih h)
      simp only [accept, goto, hstep]
    · cases h
    · cases h

/-- Characters that go on with a number literal. -/
theorem reads_of_numberRun {scan scan' : NumberScan} {text : List Char}
    (h : scan.run? text = some scan') (r : DocumentScan) (use : ValueUse) :
    (r.goto (.number use scan)).Reads text (r.goto (.number use scan')) := by
  induction text generalizing scan with
  | nil =>
    obtain rfl : scan = scan' := Option.some.inj h
    exact .nil _
  | cons c rest ih =>
    rw [NumberScan.run?] at h
    split at h
    · rename_i next hstep
      refine .cons ?_ (ih h)
      simp only [accept, goto, hstep]
    · cases h
    · cases h

/-- Behind its opening quote, characters that go on with a literal and its closing quote
    lead to where its text is delivered. -/
theorem foldlM_quoted {r q : DocumentScan} {use : StringUse} {scan scan' : StringScan}
    (hquote : r.accept '"' = .ok (q.goto (.string use scan))) {body : List Char}
    (hrun : scan.run? body = some scan') (hplain : scan'.place = .plain) :
    ('"' :: (body ++ ['"'])).foldlM accept r
      = q.deliverString use (String.ofList scan'.chars.reverse) := by
  have hclosed : scan'.step '"' = .closed (String.ofList scan'.chars.reverse) := by
    rw [StringScan.step, hplain]
    rfl
  have hclose : (q.goto (.string use scan')).accept '"'
      = q.deliverString use (String.ofList scan'.chars.reverse) := by
    rw [← deliverString_goto q (.string use scan')]
    simp only [accept, goto, hclosed]
  rw [List.foldlM_cons, hquote]
  show (body ++ ['"']).foldlM accept (q.goto (.string use scan)) = _
  rw [(reads_of_stringRun hrun q use).foldlM_eq, List.foldlM_cons, hclose]
  exact bind_pure _

/-- A literal of a string leads to where the string is delivered, however it is spelled. -/
theorem foldlM_literal {r q : DocumentScan} {use : StringUse}
    (hquote : r.accept '"' = .ok (q.goto (.string use {}))) {s : String} {text : List Char}
    (h : IsLiteralOf s text) : text.foldlM accept r = q.deliverString use s := by
  obtain ⟨body, hbody, rfl⟩ := h
  have hrun := StringScan.run?_spelledText (s := {}) rfl rfl hbody
  rw [foldlM_quoted hquote hrun rfl, List.append_nil, List.reverse_reverse, String.ofList_toList]

/-- A loose literal leads to where some string is delivered. -/
theorem foldlM_looseLiteral {r q : DocumentScan} {use : StringUse}
    (hquote : r.accept '"' = .ok (q.goto (.string use { lenient := true }))) {text : List Char}
    (h : IsLooseLiteral text) : ∃ s, text.foldlM accept r = q.deliverString use s := by
  obtain ⟨body, hbody, rfl⟩ := h
  obtain ⟨scan, hrun, hplain, -⟩ :=
    StringScan.run?_looseText (s := { lenient := true }) rfl rfl hbody
  exact ⟨_, foldlM_quoted hquote hrun hplain⟩

/-- A number is begun by its first character. -/
theorem accept_number {place : DocumentPlace} {use : ValueUse} (hawaits : Awaits place use)
    (r : DocumentScan) {c : Char} {scan : NumberScan} (hstart : NumberScan.start? c = some scan) :
    (r.goto place).accept c = .ok (r.goto (.number use scan)) := by
  have hne : ∀ d, NumberScan.start? d = none → c ≠ d := by
    rintro d hd rfl
    rw [hstart] at hd
    cases hd
  have hblank : isBlank c = false := by
    simp [isBlank, hne ' ' rfl, hne '\t' rfl, hne '\n' rfl, hne '\r' rfl]
  rw [hawaits.accept_eq r hblank (hne ']' rfl)]
  unfold beginValue
  split
  · exact absurd rfl (hne '"' rfl)
  · exact absurd rfl (hne '[' rfl)
  · exact absurd rfl (hne '{' rfl)
  · exact absurd rfl (hne 'n' rfl)
  · exact absurd rfl (hne 't' rfl)
  · exact absurd rfl (hne 'f' rfl)
  · rw [hstart]
    rfl

/-- Behind a number that may end, a character that does not go on with it delivers the number
    and is read from there. -/
theorem accept_of_ended (r : DocumentScan) (use : ValueUse) {scan : NumberScan}
    (hcomplete : scan.place.isComplete = true) {c : Char} (hc : continuesNumber c = false) :
    (r.goto (.number use scan)).accept c
      = r.deliverNumber use scan >>= fun t => t.acceptBetween c := by
  have hended := NumberScan.step_eq_ended hcomplete hc
  rw [← deliverNumber_goto r (.number use scan)]
  simp only [accept, goto, hended]

/-- A number leads to where its value is delivered, with the character behind it. -/
theorem completes_number {place : DocumentPlace} {use : ValueUse} (hawaits : Awaits place use)
    {r t : DocumentScan} {c : Char} {rest : List Char} {scan scan' : NumberScan}
    (hstart : NumberScan.start? c = some scan) (hrun : scan.run? rest = some scan')
    (hcomplete : scan'.place.isComplete = true) (hdeliver : r.deliverNumber use scan' = .ok t)
    (hbetween : t.place.isBetween = true) : (r.goto place).Completes (c :: rest) t := by
  refine ⟨r.goto (.number use scan'), ?_, fun d hd => ?_⟩
  · exact .cons (accept_number hawaits r hstart) (reads_of_numberRun hrun r use)
  · rw [accept_of_ended r use hcomplete hd, hdeliver, accept_of_isBetween hbetween]
    rfl

/-- A number that is refused where it is delivered ends the reading with the character behind
    it. -/
theorem foldlM_number_of_error {place : DocumentPlace} {use : ValueUse}
    (hawaits : Awaits place use) {r : DocumentScan} {e : ConfigError} {c : Char}
    {rest : List Char} {scan scan' : NumberScan} (hstart : NumberScan.start? c = some scan)
    (hrun : scan.run? rest = some scan') (hcomplete : scan'.place.isComplete = true)
    (hdeliver : r.deliverNumber use scan' = .error e) {d : Char} (hd : continuesNumber d = false)
    (behind : List Char) :
    (c :: rest ++ d :: behind).foldlM accept (r.goto place) = .error e := by
  have hread : (r.goto place).Reads (c :: rest) (r.goto (.number use scan')) :=
    .cons (accept_number hawaits r hstart) (reads_of_numberRun hrun r use)
  rw [hread.foldlM_eq, List.foldlM_cons, accept_of_ended r use hcomplete hd, hdeliver]
  rfl

end DocumentScan

end StreamBuffer
