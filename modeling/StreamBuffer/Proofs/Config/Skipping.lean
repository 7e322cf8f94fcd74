/-
  StreamBuffer.Proofs.Config.Skipping

  The grammar of values, and that a skipped value is skipped as a whole.

  `IsJson` is the grammar: a value is a word, a number, the literal of a string, or an array
  or object of items; white space may stand around every part. Numbers may be of any size,
  the literals of strings are loose, and values nest to any depth.

  Wherever a skipped value is due, each of its texts leads behind it and no further
  (`completes_skipped`). The proof is by induction on the grammar: within an array or object,
  an item leads behind itself, and the last one to where the bracket may close
  (`SkipsTo`).
-/
import StreamBuffer.Proofs.Config.Reading

namespace StreamBuffer

/-! ## The grammar of values -/

/-- The character that opens the bracket. -/
def Bracket.opening : Bracket → Char
  | .array => '['
  | .object => '{'

/-- The parts of a text of JSON: a value; an item between brackets; or one and more of them,
    with commas in between. -/
inductive JsonPart where
  | value
  | item (b : Bracket)
  | items (b : Bracket)

/-- The text is such a part. -/
inductive IsJson : JsonPart → List Char → Prop where
  | null : IsJson .value ['n', 'u', 'l', 'l']
  | true : IsJson .value ['t', 'r', 'u', 'e']
  | false : IsJson .value ['f', 'a', 'l', 's', 'e']
  | number {text : List Char} (h : IsNumber text) : IsJson .value text
  | string {text : List Char} (h : IsLooseLiteral text) : IsJson .value text
  | empty (b : Bracket) {blanks : List Char} (hblanks : Blanks blanks) :
      IsJson .value (b.opening :: (blanks ++ [b.closing]))
  | bracketed (b : Bracket) {text : List Char} (h : IsJson (.items b) text) :
      IsJson .value (b.opening :: (text ++ [b.closing]))
  | element {before text behind : List Char} (hbefore : Blanks before)
      (h : IsJson .value text) (hbehind : Blanks behind) :
      IsJson (.item .array) (before ++ (text ++ behind))
  | member {before key behindKey beforeValue text behind : List Char} (hbefore : Blanks before)
      (hkey : IsLooseLiteral key) (hbehindKey : Blanks behindKey)
      (hbeforeValue : Blanks beforeValue) (h : IsJson .value text) (hbehind : Blanks behind) :
      IsJson (.item .object)
        (before ++ (key ++ (behindKey ++ ':' :: (beforeValue ++ (text ++ behind)))))
  | last {b : Bracket} {text : List Char} (h : IsJson (.item b) text) : IsJson (.items b) text
  | more {b : Bracket} {first rest : List Char} (hfirst : IsJson (.item b) first)
      (hrest : IsJson (.items b) rest) : IsJson (.items b) (first ++ ',' :: rest)

namespace DocumentScan

/-! ## Skipping -/

/-- An item of the innermost skipped bracket is due at the place. -/
inductive AwaitsItem : DocumentPlace → Bracket → List Bracket → Prop where
  | first (b : Bracket) (opened : List Bracket) : AwaitsItem (.skippedOpen b opened) b opened
  | element (opened : List Bracket) :
      AwaitsItem (.value (.skipped (.array :: opened))) .array opened
  | member (opened : List Bracket) :
      AwaitsItem (.skippedKey (.object :: opened)) .object opened

theorem AwaitsItem.isBetween {place : DocumentPlace} {b : Bracket} {opened : List Bracket}
    (h : AwaitsItem place b opened) : place.isBetween = true := by
  cases h <;> rfl

/-- Behind the comma of a bracket the next item is due. -/
theorem exists_awaitsItem_comma (r : DocumentScan) (b : Bracket) (opened : List Bracket) :
    ∃ place, AwaitsItem place b opened
      ∧ (r.goto (.skippedAfter b opened)).accept ',' = .ok (r.goto place) := by
  cases b with
  | array => exact ⟨_, .element opened, rfl⟩
  | object => exact ⟨_, .member opened, rfl⟩

/-- Where an element of an array is due, so is a value. -/
theorem AwaitsItem.awaits {place : DocumentPlace} {opened : List Bracket}
    (h : AwaitsItem place .array opened) : Awaits place (.skipped (.array :: opened)) := by
  cases h with
  | first => exact .skippedElement opened
  | element => exact .value _

/-- Where a member of an object is due, a quote begins its key. -/
theorem AwaitsItem.accept_quote {place : DocumentPlace} {opened : List Bracket}
    (h : AwaitsItem place .object opened) (r : DocumentScan) :
    (r.goto place).accept '"'
      = .ok (r.goto (.string (.skippedKey (.object :: opened)) { lenient := true })) := by
  cases h <;> rfl

theorem isBetween_behindSkipped (opened : List Bracket) :
    (behindSkipped opened).isBetween = true := by
  cases opened <;> rfl

/-- The bracket's closing character ends it, where it may. -/
theorem accept_closing (r : DocumentScan) (b : Bracket) (opened : List Bracket)
    {place : DocumentPlace} (hplace : place = .skippedOpen b opened
      ∨ place = .skippedAfter b opened) :
    (r.goto place).accept b.closing = .ok (r.goto (behindSkipped opened)) := by
  rcases hplace with rfl | rfl <;> cases b <;> rfl

/-- A bracket opens where a skipped value is due. -/
theorem accept_opening {place : DocumentPlace} {opened : List Bracket}
    (h : Awaits place (.skipped opened)) (r : DocumentScan) (b : Bracket) :
    (r.goto place).accept b.opening = .ok (r.goto (.skippedOpen b opened)) := by
  cases b with
  | array => exact h.accept_eq r rfl (by decide)
  | object => exact h.accept_eq r rfl (by decide)

/-- A quote begins a string where a skipped value is due. -/
theorem accept_skippedQuote {place : DocumentPlace} {opened : List Bracket}
    (h : Awaits place (.skipped opened)) (r : DocumentScan) :
    (r.goto place).accept '"'
      = .ok (r.goto (.string (.value (.skipped opened)) { lenient := true })) :=
  h.accept_eq r rfl (by decide)

/-- What the part of a text does to a document that skips it: a value leads behind itself from
    wherever one is due, and items lead to where their bracket may close. -/
def SkipsTo (part : JsonPart) (text : List Char) : Prop :=
  match part with
  | .value => ∀ (r : DocumentScan) (place : DocumentPlace) (opened : List Bracket),
      Awaits place (.skipped opened) → (r.goto place).Completes text (r.goto (behindSkipped opened))
  | .item b | .items b => ∀ (r : DocumentScan) (place : DocumentPlace) (opened : List Bracket),
      AwaitsItem place b opened → (r.goto place).Completes text (r.goto (.skippedAfter b opened))

/-- A word leads behind itself, letter by letter. -/
theorem reads_word {place : DocumentPlace} {opened : List Bracket}
    (h : Awaits place (.skipped opened)) (r : DocumentScan) {found : Found} {c : Char}
    {rest : List Char} (hword : (c = 'n' ∧ rest = ['u', 'l', 'l'] ∧ found = .null)
      ∨ (c = 't' ∧ rest = ['r', 'u', 'e'] ∧ found = .boolean true)
      ∨ (c = 'f' ∧ rest = ['a', 'l', 's', 'e'] ∧ found = .boolean false)) :
    (r.goto place).Reads (c :: rest) (r.goto (behindSkipped opened)) := by
  rcases hword with ⟨rfl, rfl, rfl⟩ | ⟨rfl, rfl, rfl⟩ | ⟨rfl, rfl, rfl⟩
  · exact .cons (h.accept_eq r rfl (by decide)) rfl
  · exact .cons (h.accept_eq r rfl (by decide)) rfl
  · exact .cons (h.accept_eq r rfl (by decide)) rfl

/-- Each part of a text is skipped as a whole. -/
theorem skipsTo_of_isJson {part : JsonPart} {text : List Char} (h : IsJson part text) :
    SkipsTo part text := by
  induction h with
  | null => exact fun r place opened h => (reads_word h r (Or.inl ⟨rfl, rfl, rfl⟩)).completes
  | true =>
    exact fun r place opened h => (reads_word h r (Or.inr (Or.inl ⟨rfl, rfl, rfl⟩))).completes
  | false =>
    exact fun r place opened h => (reads_word h r (Or.inr (Or.inr ⟨rfl, rfl, rfl⟩))).completes
  | number hnumber =>
    intro r place opened h
    obtain ⟨c, rest, scan, scan', rfl, hstart, hrun, hcomplete⟩ :=
      NumberScan.exists_scan_number hnumber
    exact completes_number h hstart hrun hcomplete rfl (isBetween_behindSkipped opened)
  | string hstring =>
    intro r place opened h
    obtain ⟨s, hread⟩ := foldlM_looseLiteral (accept_skippedQuote h r) hstring
    exact Reads.completes hread
  | empty b hblanks =>
    intro r place opened h
    have hinside := reads_blanks (r := r.goto (.skippedOpen b opened)) rfl hblanks
    exact ((Reads.cons (accept_opening h r b) hinside).trans
      (reads_singleton (accept_closing r b opened (Or.inl rfl)))).completes
  | bracketed b _ ih =>
    intro r place opened h
    have hclosing : continuesNumber b.closing = false := by cases b <;> rfl
    have hinside := (ih r _ opened (.first b opened)).concat hclosing
      (accept_closing r b opened (Or.inr rfl))
    exact (Reads.cons (accept_opening h r b) hinside).completes
  | element hbefore _ hbehind ih =>
    intro r place opened h
    have hvalue := (ih r place (.array :: opened) h.awaits).blanks rfl hbehind
    exact (reads_blanks (r := r.goto place) h.isBetween hbefore).trans_completes hvalue
  | member hbefore hkey hbehindKey hbeforeValue _ hbehind ih =>
    intro r place opened h
    let due := DocumentPlace.value (.skipped (.object :: opened))
    obtain ⟨s, hread⟩ := foldlM_looseLiteral (h.accept_quote r) hkey
    have hname : (r.goto place).Reads _ (r.goto (.colon (.skipped (.object :: opened)))) := hread
    have hcolon : (r.goto (.colon (.skipped (.object :: opened)))).accept ':' = .ok (r.goto due) :=
      rfl
    have hvalue := (ih r due (.object :: opened) (.value _)).blanks rfl hbehind
    have hpart := (reads_blanks (r := r.goto due) rfl hbeforeValue).trans_completes hvalue
    -- from its end to its begin: the colon, the key, and the blanks around them
    have hgap := reads_blanks (r := r.goto (.colon (.skipped (.object :: opened)))) rfl hbehindKey
    exact (reads_blanks (r := r.goto place) h.isBetween hbefore).trans_completes
      (hname.trans_completes (hgap.trans_completes
        ((reads_singleton hcolon).trans_completes hpart)))
  | last _ ih => exact ih
  | more _ _ ihfirst ihrest =>
    rename_i b first rest _ _
    intro r place opened h
    obtain ⟨next, hnext, hcomma⟩ := exists_awaitsItem_comma r b opened
    have hfirst := (ihfirst r place opened h).concat (c := ',') rfl hcomma
    have hall := hfirst.trans_completes (ihrest r next opened hnext)
    rwa [List.append_assoc] at hall

/-- A value is skipped as a whole, wherever a skipped value is due. -/
theorem completes_skipped {place : DocumentPlace} {opened : List Bracket}
    (h : Awaits place (.skipped opened)) (r : DocumentScan) {text : List Char}
    (hvalue : IsJson .value text) :
    (r.goto place).Completes text (r.goto (behindSkipped opened)) :=
  skipsTo_of_isJson hvalue r place opened h

end DocumentScan

end StreamBuffer
