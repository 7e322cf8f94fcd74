/-
  StreamBuffer.Proofs.Config.RoundTrip

  A config reads back from its written form, whatever its name is made of and however
  large its capacity (`parse_render`).

  The written form is one of the documents with both fields as members.
-/
import StreamBuffer.Config.Printer
import StreamBuffer.Proofs.Config.Members

namespace StreamBuffer

namespace Config

/-- The written form is an object with both fields. -/
theorem writtenObject_render (c : Config) :
    WrittenObject [.name c.timerThreadName, .capacity c.segmentCapacity] c.render := by
  have hname : (Member.name c.timerThreadName).Written
      (stringLiteral ConfigField.timerThreadName.key.toList ++ ':' ::
        stringLiteral c.timerThreadName.toList) := by
    have h := Member.Written.mk blanks_nil (isLiteralOf_stringLiteral _) blanks_nil blanks_nil
      (.name (isLiteralOf_stringLiteral c.timerThreadName)) blanks_nil
    simpa only [Member.key, List.nil_append, List.append_nil] using h
  have hcapacity : (Member.capacity c.segmentCapacity).Written
      (stringLiteral ConfigField.segmentCapacity.key.toList ++ ':' ::
        c.segmentCapacity.toNat.repr.toList) := by
    have h := Member.Written.mk blanks_nil (isLiteralOf_stringLiteral _) blanks_nil blanks_nil
      (.capacity c.segmentCapacity) blanks_nil
    simpa only [Member.key, List.nil_append, List.append_nil] using h
  have hall := WrittenObject.members blanks_nil (.more hname (.last hcapacity)) blanks_nil
  rw [render]
  simpa only [List.append_assoc, List.cons_append, List.nil_append] using hall

/-- Every config reads back from its written form. -/
theorem parse_render (c : Config) : parse c.render = .ok c := by
  rw [DocumentScan.parse_object (writtenObject_render c)]
  rfl

end Config

end StreamBuffer
