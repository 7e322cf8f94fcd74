/-
  StreamBuffer.Proofs.Queue.Filling

  The copy loop fills a destination as `drainInto` says.

  `Copy.outcome` says where the loop leads from between any two iterations: what a drain
  of the room that is left hands out goes behind the bytes filled so far. An iteration
  changes the segments, the destination and the count, and leaves the outcome alone
  (`outcome_next`); for one that copies, this is the additivity of draining. At the end of
  the loop there is nothing more to come (`outcome_of_finished`), so that the loop has
  come to the outcome it had from the start.
-/
import StreamBuffer.Proofs.Queue.Additive
import StreamBuffer.Proofs.Queue.Bounds

namespace StreamBuffer

namespace Copy

/-- Where the loop leads. -/
def outcome (c : Copy) : Copy :=
  let (bytes, left) := Segment.drain (c.dst.length - c.copied) c.segments
  { segments := left
    dst := c.dst.take c.copied ++ bytes ++ c.dst.drop (c.copied + bytes.length)
    copied := c.copied + bytes.length }

theorem outcome_of_drain {c : Copy} {bytes : Bytes} {left : List Segment}
    (h : Segment.drain (c.dst.length - c.copied) c.segments = (bytes, left)) :
    c.outcome =
      { segments := left
        dst := c.dst.take c.copied ++ bytes ++ c.dst.drop (c.copied + bytes.length)
        copied := c.copied + bytes.length } := by
  rw [outcome, h]

/-! ## One iteration -/

/-- The loop ends where no byte is left to copy, or no room to copy it to. -/
theorem outcome_of_finished {c : Copy} (h : c.WithinBounds) (hturn : c.turn = .finished) :
    c.outcome = c := by
  have hnone : Segment.drain (c.dst.length - c.copied) c.segments = ([], c.segments) := by
    have hcases := turn_cases h
    rw [hturn] at hcases
    cases hcases with
    | full hfull => rw [hfull, Nat.sub_self, Segment.drain_zero]
    | dry hdry => rw [hdry, Segment.drain_nil]
  rw [outcome_of_drain hnone, List.length_nil, Nat.add_zero, List.append_nil,
    List.take_append_drop]

/-- To give up an exhausted segment is what a drain does first. -/
theorem outcome_giveUp {c : Copy} {s : Segment} {rest : List Segment}
    (hsegments : c.segments = s :: rest) (hroom : c.copied < c.dst.length)
    (hspent : s.unread = []) : (c.giveUp rest).outcome = c.outcome := by
  have hdrain : Segment.drain (c.dst.length - c.copied) c.segments
      = Segment.drain (c.dst.length - c.copied) rest := by
    rw [hsegments, Segment.drain_of_lt rest (by rw [hspent, List.length_nil]; omega), hspent,
      List.length_nil, Nat.sub_zero, List.nil_append]
  rw [outcome_of_drain hdrain]
  exact outcome_of_drain (c := c.giveUp rest) rfl

/-- A piece behind the bytes filled, and then what follows it, is both at once. -/
theorem fill_fill {dst : Bytes} {start : Nat} (hstart : start ≤ dst.length) (piece more : Bytes) :
    let filled := dst.take start ++ piece ++ dst.drop (start + piece.length)
    filled.take (start + piece.length) ++ more
        ++ filled.drop (start + piece.length + more.length)
      = dst.take start ++ (piece ++ more) ++ dst.drop (start + (piece ++ more).length) := by
  intro filled
  have hlen : (dst.take start ++ piece).length = start + piece.length := by
    rw [List.length_append, List.length_take_of_le hstart]
  have htake : filled.take (start + piece.length) = dst.take start ++ piece :=
    List.take_left' hlen
  have hdrop : filled.drop (start + piece.length + more.length)
      = dst.drop (start + (piece ++ more).length) := by
    rw [← List.drop_drop, List.drop_left' hlen, List.drop_drop, List.length_append,
      Nat.add_assoc]
  rw [htake, hdrop, List.append_assoc (dst.take start) piece more]

/-- A drain of the room that is left hands out the piece that the loop copies first, and
    then what the loop copies after it. -/
theorem outcome_taken {c : Copy} (h : c.WithinBounds) {s : Segment} {rest : List Segment}
    (hsegments : c.segments = s :: rest) (hroom : c.copied < c.dst.length)
    (hunread : s.unread ≠ []) : (c.taken s rest).outcome = c.outcome := by
  have hlen : 0 < s.unread.length := List.length_pos_iff.mpr hunread
  have hpos : 0 < c.reach s := by
    rw [reach]
    omega
  have hle : c.reach s ≤ s.unread.length := Nat.min_le_left _ _
  have hroom' : c.reach s ≤ c.dst.length - c.copied := Nat.min_le_right _ _
  -- the piece is the drain of as many bytes, which leaves the segment advanced
  let piece := s.unread.take (c.reach s)
  have hpiece : piece.length = c.reach s := List.length_take_of_le hle
  have hsplit : c.dst.length - c.copied
      = c.reach s + ((c.taken s rest).dst.length - (c.taken s rest).copied) := by
    rw [length_dst_taken h]
    show _ = c.reach s + (c.dst.length - (c.copied + c.reach s))
    omega
  cases hmore : Segment.drain ((c.taken s rest).dst.length - (c.taken s rest).copied)
      (c.taken s rest).segments with
  | mk more left =>
    have hboth : Segment.drain (c.dst.length - c.copied) c.segments = (piece ++ more, left) := by
      rw [hsplit, hsegments, Segment.drain_add, Segment.drain_of_le rest hpos hle]
      show (piece ++ (Segment.drain _ (c.taken s rest).segments).1,
        (Segment.drain _ (c.taken s rest).segments).2) = _
      rw [hmore]
    have hfill := fill_fill h.copied_le piece more
    rw [hpiece] at hfill
    have hcount : c.copied + c.reach s + more.length = c.copied + (piece ++ more).length := by
      rw [List.length_append, hpiece, Nat.add_assoc]
    rw [outcome_of_drain hmore, outcome_of_drain hboth, ← hfill, ← hcount]
    rfl

/-- No iteration changes where the loop leads. -/
theorem outcome_next {c c' : Copy} (h : c.WithinBounds) (hturn : c.turn = .next c') :
    c'.outcome = c.outcome := by
  have hcases := turn_cases h
  rw [hturn] at hcases
  cases hcases with
  | spent hsegments hroom hu => exact outcome_giveUp hsegments hroom hu
  | copies hsegments hroom hu => exact outcome_taken h hsegments hroom hu

/-! ## The whole loop -/

theorem finish?_zero_of_next {c c' : Copy} (h : c.turn = .next c') : finish? 0 c = none := by
  unfold finish?
  rw [h]

/-- The loop comes to its outcome: by recursion on the iterations that are granted, none
    of which leaves the bounds. -/
theorem finish?_eq_outcome {turns : Nat} {c out : Copy} (h : c.WithinBounds)
    (hfinish : finish? turns c = some out) : out = c.outcome := by
  cases hturn : c.turn with
  | finished =>
    rw [finish?_of_finished hturn] at hfinish
    rw [outcome_of_finished h hturn]
    exact (Option.some.inj hfinish).symm
  | next c' =>
    cases turns with
    | zero =>
      rw [finish?_zero_of_next hturn] at hfinish
      cases hfinish
    | succ turns =>
      rw [finish?_succ_of_next hturn] at hfinish
      rw [finish?_eq_outcome (h.next hturn) hfinish, outcome_next h hturn]
  | outOfRange => exact absurd hturn (turn_ne_outOfRange h)

end Copy

/-- The loop that fills a destination from a queue, before its first iteration. -/
def SegmentQueue.copyInto (q : SegmentQueue) (dst : Bytes) : Copy := { segments := q.segments, dst }

/-- The copy loop over a queue that was read within bounds ends, after two iterations for
    each segment at most, with the count, the destination and the queue of `drainInto`. -/
theorem SegmentQueue.InBounds.finish?_copyInto {q : SegmentQueue} (h : q.InBounds) (dst : Bytes) :
    Copy.finish? (2 * q.segmentCount) (q.copyInto dst)
      = some { segments := (q.drainInto dst).2.2.segments
               dst := (q.drainInto dst).2.1
               copied := (q.drainInto dst).1 } := by
  have hbounds : (q.copyInto dst).WithinBounds := ⟨h, Nat.zero_le _⟩
  obtain ⟨out, hout⟩ := Copy.exists_finish? hbounds
  have hfinish : Copy.finish? (2 * q.segmentCount) (q.copyInto dst) = some out := hout
  rw [hfinish, Copy.finish?_eq_outcome hbounds hfinish, Copy.outcome_of_drain rfl]
  simp only [copyInto, Nat.sub_zero, Nat.zero_add, List.take_zero, List.nil_append]
  rfl

end StreamBuffer
