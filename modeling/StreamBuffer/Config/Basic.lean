/-
  StreamBuffer.Config.Basic

  What a buffer is made with: the name its timer threads bear, and how many
  segments its queue should have storage for from the start. The reference is
  `BufferConfig` of ssh-buffer, with `effective_segment_capacity` and its constants.
-/

namespace StreamBuffer

/-- The settings of a buffer; a setting left out has its default. The capacity is
    a hint for storage and no limit. -/
structure Config where
  timerThreadName : String := "ssh-buffer-deadline"
  segmentCapacity : UInt64 := 16
  deriving Repr, DecidableEq

namespace Config

/-- Storage is never sized for more segments than this beforehand. -/
def maxCapacity : UInt64 := 4096

/-- The number of segments that storage is sized for. -/
def effectiveCapacity (c : Config) : UInt64 :=
  if c.segmentCapacity ≤ maxCapacity then c.segmentCapacity else maxCapacity

/-- Every setting has its default. -/
def isDefault (c : Config) : Bool := c = {}

end Config

end StreamBuffer
