/-
  StreamBuffer.Queue.Display

  The diagnostic text of a queue: its segments in order, each with its bytes in
  decimal and its read position. It is what the derived `Debug` of the reference's
  `SegmentQueue` and `Segment` shows.
-/
import StreamBuffer.Queue.Basic

namespace StreamBuffer

/-- The bytes as decimal numbers between square brackets. -/
def Bytes.display (bytes : Bytes) : String :=
  "[" ++ ", ".intercalate (bytes.map fun b => b.toNat.repr) ++ "]"

/-- The diagnostic text of one segment. -/
def Segment.display (s : Segment) : String :=
  "Segment \x7b data: " ++ Bytes.display s.data ++ ", pos: " ++ s.pos.repr ++ " \x7d"

/-- The diagnostic text of a queue. -/
def SegmentQueue.display (q : SegmentQueue) : String :=
  "SegmentQueue \x7b segments: [" ++ ", ".intercalate (q.segments.map Segment.display) ++ "] \x7d"

end StreamBuffer
