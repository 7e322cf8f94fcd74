/-
  StreamBuffer.Config.Error

  How the reading of a config document can fail: the text ends too early, or it
  breaks the grammar, or it is well-formed as far as it was read but means no
  config. Only the last kind has a message, with the words of serde's `invalid_type`,
  `invalid_value` and `duplicate_field`.
-/
import StreamBuffer.Text.Quoted
import StreamBuffer.Decimal.Text

namespace StreamBuffer

/-- The fields of a config document. -/
inductive ConfigField where
  | timerThreadName
  | segmentCapacity
  deriving Repr, DecidableEq

namespace ConfigField

/-- The field's key in a document. -/
def key : ConfigField → String
  | .timerThreadName => "timer_thread_name"
  | .segmentCapacity => "segment_capacity"

/-- The field with the given key. -/
def ofKey? (key : String) : Option ConfigField :=
  if key = ConfigField.timerThreadName.key then some .timerThreadName
  else if key = ConfigField.segmentCapacity.key then some .segmentCapacity
  else none

end ConfigField

/-- What was found where something else was expected. -/
inductive Found where
  | null
  | boolean (b : Bool)
  | integer (n : Int)
  | double (x : Float)
  | text (s : String)
  | sequence
  | map
  deriving DecidableEq

/-- What was expected: a whole document, or a field's value. -/
inductive Expected where
  | document
  | value (f : ConfigField)
  deriving Repr, DecidableEq

/-- Why a document is not read as a config. -/
inductive ConfigError where
  | truncated
  | malformed
  | duplicateField (f : ConfigField)
  | wrongType (found : Found) (expected : Expected)
  | negativeCapacity (n : Int)
  deriving DecidableEq

/-! ## Messages -/

/-- Doubles in messages are written out as long as the point is near the digits;
    exponents always have a sign. -/
def messageStyle : DecimalStyle := ⟨-5, 16, true⟩

/-- What was found, in words. -/
def Found.describe : Found → String
  | .null => "null"
  | .boolean b => "boolean `" ++ (if b then "true" else "false") ++ "`"
  | .integer n => "integer `" ++ toString n ++ "`"
  | .double x => "floating point `" ++ floatText messageStyle x ++ "`"
  | .text s => "string " ++ quoted s
  | .sequence => "sequence"
  | .map => "map"

/-- What was expected, in words. -/
def Expected.describe : Expected → String
  | .document => "struct BufferConfig"
  | .value .timerThreadName => "a string"
  | .value .segmentCapacity => "usize"

/-- The message of a failure that has one. -/
def ConfigError.message? : ConfigError → Option String
  | .truncated | .malformed => none
  | .duplicateField f => some ("duplicate field `" ++ f.key ++ "`")
  | .wrongType found expected =>
    some ("invalid type: " ++ found.describe ++ ", expected " ++ expected.describe)
  | .negativeCapacity n =>
    some ("invalid value: " ++ (Found.integer n).describe ++ ", expected "
      ++ (Expected.value .segmentCapacity).describe)

end StreamBuffer
