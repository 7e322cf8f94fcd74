/-
  StreamBuffer.Config.Document

  Reading a config document: a JSON object with the two fields, in any order and
  beside any others, or an array of their values.

  The reference is the `Deserialize` that serde derives for ssh-buffer's
  `BufferConfig`, where a missing field has its default, over the `from_str` of
  serde_json. `Config.parse` is the two together.

  The document is decided from left to right. `DocumentScan.accept` takes one
  character and either fails for good or goes on, so what comes later cannot
  change a failure; `DocumentScan.finish` is the end of the text. A number alone
  needs the character behind it to be complete.

  The value of an unknown field is skipped: it must be JSON, but its numbers may
  be of any size, its strings may hold halves of surrogate pairs, and it may nest
  to any depth.
-/
import StreamBuffer.Config.Basic
import StreamBuffer.Config.Error
import StreamBuffer.Json.StringLiteral
import StreamBuffer.Json.NumberLiteral

namespace StreamBuffer

/-! ## Positions in a document -/

/-- An opened array or object. -/
inductive Bracket where
  | array
  | object
  deriving Repr, DecidableEq

/-- The character that closes the bracket. -/
def Bracket.closing : Bracket → Char
  | .array => ']'
  | .object => '}'

/-- What a value is for: it is the document; a field's value, in an object or in
    an array; or skipped, within the brackets opened in it, innermost first. -/
inductive ValueUse where
  | document
  | member (f : ConfigField)
  | element (f : ConfigField)
  | skipped (opened : List Bracket)
  deriving Repr, DecidableEq

/-- The literals of strings in skipped values are read leniently. -/
def ValueUse.isLenient : ValueUse → Bool
  | .skipped _ => true
  | .document | .member _ | .element _ => false

/-- What a string literal is for: a key of the document, a key in a skipped object,
    or a value. -/
inductive StringUse where
  | key
  | skippedKey (opened : List Bracket)
  | value (use : ValueUse)
  deriving Repr, DecidableEq

/-- Where a document stands between characters: a value is due; it is inside a
    literal; a key is due, first in the document's object or behind a comma; a
    colon is due before a value; behind a member; in the document's array, before
    any element or behind one or two; within skipped brackets, behind the opening
    one, behind a value, or behind a comma in an object; or the document is
    complete. -/
inductive DocumentPlace where
  | value (use : ValueUse)
  | string (use : StringUse) (scan : StringScan)
  | number (use : ValueUse) (scan : NumberScan)
  | keyword (use : ValueUse) (found : Found) (left : List Char)
  | firstKey
  | nextKey
  | colon (use : ValueUse)
  | afterMember
  | firstElement
  | afterElement (f : ConfigField)
  | skippedOpen (b : Bracket) (opened : List Bracket)
  | skippedAfter (b : Bracket) (opened : List Bracket)
  | skippedKey (opened : List Bracket)
  | done
  deriving DecidableEq

/-- A document read in part: the place, and the fields that have a value. -/
structure DocumentScan where
  place : DocumentPlace := .value .document
  name : Option String := none
  capacity : Option UInt64 := none
  deriving DecidableEq

/-- White space between the parts of a document. -/
def isBlank (c : Char) : Bool := c = ' ' || c = '\t' || c = '\n' || c = '\r'

namespace DocumentScan

/-- The same document at another place. -/
def goto (r : DocumentScan) (place : DocumentPlace) : DocumentScan := { r with place }

/-- The field has a value already. -/
def isSet (r : DocumentScan) : ConfigField → Bool
  | .timerThreadName => r.name.isSome
  | .segmentCapacity => r.capacity.isSome

/-- The config of the fields read; a field without a value has its default. -/
def config (r : DocumentScan) : Config where
  timerThreadName := r.name.getD (Config.timerThreadName {})
  segmentCapacity := r.capacity.getD (Config.segmentCapacity {})

/-! ## Complete values -/

/-- The place behind a value within skipped brackets, or behind the member that was
    skipped. -/
def behindSkipped : List Bracket → DocumentPlace
  | [] => .afterMember
  | b :: rest => .skippedAfter b rest

/-- Give a field its value, if it is of the field's type. -/
def assign (r : DocumentScan) (f : ConfigField) (found : Found) :
    Except ConfigError DocumentScan :=
  match f, found with
  | .timerThreadName, .text s => .ok { r with name := some s }
  | .segmentCapacity, .integer n =>
    if 0 ≤ n then .ok { r with capacity := some (UInt64.ofNat n.toNat) }
    else .error (.negativeCapacity n)
  | f, found => .error (.wrongType found (.value f))

/-- The document behind a complete value. An opening bracket counts as one where no
    value of that kind can be of use. -/
def deliver (r : DocumentScan) (use : ValueUse) (found : Found) :
    Except ConfigError DocumentScan :=
  match use with
  | .document => .error (.wrongType found .document)
  | .member f => (r.assign f found).map (·.goto .afterMember)
  | .element f => (r.assign f found).map (·.goto (.afterElement f))
  | .skipped opened => .ok (r.goto (behindSkipped opened))

/-- The document behind a complete number. -/
def deliverNumber (r : DocumentScan) (use : ValueUse) (scan : NumberScan) :
    Except ConfigError DocumentScan :=
  match use with
  | .skipped opened => .ok (r.goto (behindSkipped opened))
  | use =>
    match scan.value? with
    | some (.integer n) => r.deliver use (.integer n)
    | some (.double x) => r.deliver use (.double x)
    | none => .error .malformed

/-- The document behind a complete string literal. -/
def deliverString (r : DocumentScan) (use : StringUse) (text : String) :
    Except ConfigError DocumentScan :=
  match use with
  | .value use => r.deliver use (.text text)
  | .skippedKey opened => .ok (r.goto (.colon (.skipped opened)))
  | .key =>
    match ConfigField.ofKey? text with
    | none => .ok (r.goto (.colon (.skipped [])))
    | some f => if r.isSet f then .error (.duplicateField f) else .ok (r.goto (.colon (.member f)))

/-! ## Single characters -/

/-- The place behind an opening bracket. -/
def openBracket (r : DocumentScan) (use : ValueUse) (b : Bracket) :
    Except ConfigError DocumentScan :=
  match use, b with
  | .document, .array => .ok (r.goto .firstElement)
  | .document, .object => .ok (r.goto .firstKey)
  | .skipped opened, b => .ok (r.goto (.skippedOpen b opened))
  | use, .array => r.deliver use .sequence
  | use, .object => r.deliver use .map

/-- A value begins with the character. -/
def beginValue (r : DocumentScan) (use : ValueUse) (c : Char) :
    Except ConfigError DocumentScan :=
  match c with
  | '"' => .ok (r.goto (.string (.value use) { lenient := use.isLenient }))
  | '[' => r.openBracket use .array
  | '{' => r.openBracket use .object
  | 'n' => .ok (r.goto (.keyword use .null ['u', 'l', 'l']))
  | 't' => .ok (r.goto (.keyword use (.boolean true) ['r', 'u', 'e']))
  | 'f' => .ok (r.goto (.keyword use (.boolean false) ['a', 'l', 's', 'e']))
  | c =>
    match NumberScan.start? c with
    | some scan => .ok (r.goto (.number use scan))
    | none => .error .malformed

/-- One more character between literals. -/
def acceptBetween (r : DocumentScan) (c : Char) : Except ConfigError DocumentScan :=
  if isBlank c then .ok r
  else match r.place with
  | .value use => r.beginValue use c
  | .firstKey =>
    if c = '}' then .ok (r.goto .done)
    else if c = '"' then .ok (r.goto (.string .key {}))
    else .error .malformed
  | .nextKey => if c = '"' then .ok (r.goto (.string .key {})) else .error .malformed
  | .colon use => if c = ':' then .ok (r.goto (.value use)) else .error .malformed
  | .afterMember =>
    if c = ',' then .ok (r.goto .nextKey)
    else if c = '}' then .ok (r.goto .done)
    else .error .malformed
  | .firstElement =>
    if c = ']' then .ok (r.goto .done) else r.beginValue (.element .timerThreadName) c
  | .afterElement f =>
    if c = ']' then .ok (r.goto .done)
    else if c = ',' ∧ f = .timerThreadName then
      .ok (r.goto (.value (.element .segmentCapacity)))
    else .error .malformed
  | .skippedOpen b opened =>
    if c = b.closing then .ok (r.goto (behindSkipped opened))
    else match b with
      | .array => r.beginValue (.skipped (b :: opened)) c
      | .object =>
        if c = '"' then .ok (r.goto (.string (.skippedKey (b :: opened)) { lenient := true }))
        else .error .malformed
  | .skippedAfter b opened =>
    if c = b.closing then .ok (r.goto (behindSkipped opened))
    else if c = ',' then
      match b with
      | .array => .ok (r.goto (.value (.skipped (b :: opened))))
      | .object => .ok (r.goto (.skippedKey (b :: opened)))
    else .error .malformed
  | .skippedKey opened =>
    if c = '"' then .ok (r.goto (.string (.skippedKey opened) { lenient := true }))
    else .error .malformed
  | .string .. | .number .. | .keyword .. | .done => .error .malformed

/-- One more character. -/
def accept (r : DocumentScan) (c : Char) : Except ConfigError DocumentScan :=
  match r.place with
  | .string use scan =>
    match scan.step c with
    | .more scan => .ok (r.goto (.string use scan))
    | .closed text => r.deliverString use text
    | .bad => .error .malformed
  | .number use scan =>
    match scan.step c with
    | .more scan => .ok (r.goto (.number use scan))
    | .ended => do (← r.deliverNumber use scan).acceptBetween c
    | .bad => .error .malformed
  | .keyword use found left =>
    match left with
    | [] => .error .malformed
    | d :: left =>
      if c = d then
        if left = [] then r.deliver use found else .ok (r.goto (.keyword use found left))
      else .error .malformed
  | _ => r.acceptBetween c

/-- The end of the text. A skipped number that breaks off is malformed and not cut
    short. -/
def finish (r : DocumentScan) : Except ConfigError Config :=
  match r.place with
  | .done => .ok r.config
  | .number use scan =>
    if scan.place.isComplete then do
      let _ ← r.deliverNumber use scan
      .error .truncated
    else match use with
      | .skipped _ => .error .malformed
      | _ => .error .truncated
  | _ => .error .truncated

end DocumentScan

/-- The config that a document describes. -/
def Config.parse (text : List Char) : Except ConfigError Config := do
  (← text.foldlM DocumentScan.accept {}).finish

end StreamBuffer
