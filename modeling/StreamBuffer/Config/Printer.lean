/-
  StreamBuffer.Config.Printer

  The written form of a config: a JSON object with both fields, the name first,
  and no blank. It is what serde_json's `to_string` makes of the reference's
  `BufferConfig`.
-/
import StreamBuffer.Config.Document

namespace StreamBuffer

namespace Config

/-- The written form of a config. -/
def render (c : Config) : List Char :=
  '{' :: (stringLiteral ConfigField.timerThreadName.key.toList ++ ':' ::
    stringLiteral c.timerThreadName.toList ++ ',' ::
    stringLiteral ConfigField.segmentCapacity.key.toList ++ ':' ::
    c.segmentCapacity.toNat.repr.toList ++ ['}'])

/-- The config reads back from its written form. -/
def readsBack (c : Config) : Bool :=
  match parse c.render with
  | .ok c' => c' = c
  | .error _ => false

end Config

end StreamBuffer
