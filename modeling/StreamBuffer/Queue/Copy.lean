/-
  StreamBuffer.Queue.Copy

  Draining as a loop over the destination, one iteration at a time, with every
  slice checked against its bounds. The loop is that of `drain_into` in the
  reference's `SegmentQueue`, with its variables `head`, `unread`, `r` and `copied`.

  `Copy.turn` is one iteration: it stops, or gives up an exhausted segment, or
  copies what the head segment and the room left allow. A slice that would leave
  its bounds is the outcome `outOfRange`, so that "no iteration leaves its
  bounds" is a statement about `turn` and not a side remark.
-/
import StreamBuffer.Queue.Basic

namespace StreamBuffer

/-- The bytes from index `lo` up to index `hi`, if both lie within. -/
def slice? (bytes : Bytes) (lo hi : Nat) : Option Bytes :=
  if lo ≤ hi ∧ hi ≤ bytes.length then some ((bytes.take hi).drop lo) else none

/-- Replace the bytes from index `start` on by `patch`, if they lie within. -/
def overwrite? (bytes : Bytes) (start : Nat) (patch : Bytes) : Option Bytes :=
  if start + patch.length ≤ bytes.length then
    some (bytes.take start ++ patch ++ bytes.drop (start + patch.length))
  else none

/-- The copy loop between two iterations: the segments left, the destination,
    and the number of its bytes already filled. -/
structure Copy where
  segments : List Segment
  dst : Bytes
  copied : Nat := 0
  deriving Repr, DecidableEq

namespace Copy

/-- What one iteration of the loop comes to. -/
inductive Turn where
  | finished
  | next (c : Copy)
  | outOfRange
  deriving Repr, DecidableEq

/-- One iteration of the loop. -/
def turn (c : Copy) : Turn :=
  if c.copied < c.dst.length then
    match c.segments with
    | [] => .finished
    | s :: rest =>
      match slice? s.data s.pos s.data.length with
      | none => .outOfRange
      | some [] => .next { c with segments := rest }
      | some (b :: bs) =>
        let r := min (b :: bs).length (c.dst.length - c.copied)
        match slice? (b :: bs) 0 r with
        | none => .outOfRange
        | some piece =>
          match overwrite? c.dst c.copied piece with
          | none => .outOfRange
          | some dst => .next { segments := s.advance r :: rest, dst, copied := c.copied + r }
  else .finished

/-- The loop's end, if it is reached after at most the given number of further
    iterations and none of them leaves its bounds. -/
def finish? : Nat → Copy → Option Copy
  | turns, c =>
    match c.turn, turns with
    | .finished, _ => some c
    | .next c', turns + 1 => finish? turns c'
    | .next _, 0 => none
    | .outOfRange, _ => none

end Copy

end StreamBuffer
