/-
  StreamBuffer.Queue.Basic

  The queue of written chunks. A chunk is kept whole, as one segment, together
  with the number of its bytes already taken out; new chunks go to the back and
  bytes leave from the front.

  The reference is `SegmentQueue` of ssh-buffer, a deque of `Segment`s with their
  `data` and `pos`: `append`, `drain_into` (`drainInto` here), `is_empty` and
  `segment_count`. What `with_capacity` reserves is seen nowhere.

  `SegmentQueue.unread` is the flat view: the bytes still to be taken, in order.
  Appending adds the chunk at its end (`unread_append`), draining takes a
  leading part of it (`drain_fst`, `unread_drain`), so the cutting into segments
  is not visible through the bytes. It is visible through `segmentCount`: a
  segment that was taken exactly to its end is kept until a later drain still
  has room when it meets it.
-/

namespace StreamBuffer

/-- A byte string. -/
abbrev Bytes := List UInt8

/-- One written chunk, of which the first `pos` bytes have been taken out. -/
structure Segment where
  data : Bytes
  pos : Nat := 0
  deriving Repr, DecidableEq

namespace Segment

/-- The bytes of the segment that are still to be taken. -/
def unread (s : Segment) : Bytes := s.data.drop s.pos

/-- The segment after `n` more of its bytes were taken. -/
def advance (s : Segment) (n : Nat) : Segment := { s with pos := s.pos + n }

/-- No more bytes were taken than the segment holds. -/
def InBounds (s : Segment) : Prop := s.pos ≤ s.data.length

@[simp] theorem unread_mk_zero (data : Bytes) : (Segment.mk data 0).unread = data := rfl

@[simp] theorem unread_advance (s : Segment) (n : Nat) :
    (s.advance n).unread = s.unread.drop n := by
  simp [unread, advance, List.drop_drop]

/-- Fill `room` bytes from the front of a list of segments. An exhausted segment
    is given up only while there is room left. -/
def drain : Nat → List Segment → Bytes × List Segment
  | _, [] => ([], [])
  | 0, segments => ([], segments)
  | room + 1, s :: rest =>
    if s.unread = [] then
      drain (room + 1) rest
    else if room + 1 ≤ s.unread.length then
      (s.unread.take (room + 1), s.advance (room + 1) :: rest)
    else
      let (bytes, left) := drain (room + 1 - s.unread.length) rest
      (s.unread ++ bytes, left)

end Segment

/-- A queue of written chunks, the oldest first. -/
structure SegmentQueue where
  segments : List Segment := []
  deriving Repr, DecidableEq

namespace SegmentQueue

/-- An empty queue. The hint may size storage beforehand; the queue grows beyond
    it and never shows it. -/
def ofCapacity (_hint : Nat) : SegmentQueue := {}

/-- Put a chunk at the back, as one segment; an empty chunk counts too. -/
def append (q : SegmentQueue) (chunk : Bytes) : SegmentQueue :=
  { q with segments := q.segments ++ [{ data := chunk }] }

/-- Take up to `n` bytes from the front, across segments. -/
def drain (q : SegmentQueue) (n : Nat) : Bytes × SegmentQueue :=
  let (bytes, left) := Segment.drain n q.segments
  (bytes, { segments := left })

/-- Fill a destination from the front of the queue: the count, the destination
    with its leading bytes replaced, and the queue that is left. -/
def drainInto (q : SegmentQueue) (dst : Bytes) : Nat × Bytes × SegmentQueue :=
  let (bytes, left) := q.drain dst.length
  (bytes.length, bytes ++ dst.drop bytes.length, left)

/-- The bytes still to be taken, in order. -/
def unread (q : SegmentQueue) : Bytes := q.segments.flatMap Segment.unread

/-- No byte is left to take; segments may still be held. -/
def isEmpty (q : SegmentQueue) : Bool := q.segments.all fun s => s.unread.isEmpty

/-- The number of segments held, exhausted ones included. -/
def segmentCount (q : SegmentQueue) : Nat := q.segments.length

end SegmentQueue

/-! ## The flat view -/

/-- Draining hands out a leading part of the unread bytes, as long as there is
    room for. -/
theorem Segment.drain_fst (room : Nat) (segments : List Segment) :
    (Segment.drain room segments).1 = (segments.flatMap Segment.unread).take room := by
  fun_induction Segment.drain room segments with
  | case1 => simp
  | case2 => simp
  | case3 room s rest hs ih => simp [ih, hs]
  | case4 room s rest hs hle => simp [List.take_append_of_le_length hle]
  | case5 room s rest hs hle bytes left hrec ih =>
    rw [hrec] at ih
    simp only [List.flatMap_cons] at ih ⊢
    rw [List.take_append, List.take_of_length_le (by omega), ih]

/-- Draining leaves the rest of the unread bytes. -/
theorem Segment.flatMap_unread_drain (room : Nat) (segments : List Segment) :
    (Segment.drain room segments).2.flatMap Segment.unread
      = (segments.flatMap Segment.unread).drop room := by
  fun_induction Segment.drain room segments with
  | case1 => simp
  | case2 => simp
  | case3 room s rest hs ih => simp [ih, hs]
  | case4 room s rest hs hle => simp [List.drop_append_of_le_length hle]
  | case5 room s rest hs hle bytes left hrec ih =>
    rw [hrec] at ih
    simp only [List.flatMap_cons] at ih ⊢
    rw [List.drop_append, List.drop_of_length_le (by omega), ih, List.nil_append]

namespace SegmentQueue

@[simp] theorem unread_ofCapacity (hint : Nat) : (ofCapacity hint).unread = [] := rfl

@[simp] theorem unread_append (q : SegmentQueue) (chunk : Bytes) :
    (q.append chunk).unread = q.unread ++ chunk := by
  simp [append, unread]

@[simp] theorem drain_fst (q : SegmentQueue) (n : Nat) : (q.drain n).1 = q.unread.take n :=
  Segment.drain_fst n q.segments

@[simp] theorem unread_drain (q : SegmentQueue) (n : Nat) :
    (q.drain n).2.unread = q.unread.drop n :=
  Segment.flatMap_unread_drain n q.segments

theorem isEmpty_iff (q : SegmentQueue) : q.isEmpty = true ↔ q.unread = [] := by
  simp [isEmpty, unread, List.flatMap_eq_nil_iff]

end SegmentQueue

end StreamBuffer
