/-
  StreamBuffer.Proofs.Queue.Retention

  Which segments a drain gives up, and which it holds on to.

  A drain with room for more than is unread leaves no segment at all
  (`Segment.drain_of_length_lt`). Any other one with room ends in the segment that holds
  the last byte it copies (`Segment.Holds`): the segments in front of that one are gone,
  it is in front with its read position just behind the byte, even if that is its end, and
  those behind it are as they were, empty ones included (`Segment.Holds.drain_eq`).

  So of the segments of a queue only the first was ever read (`Tidy`), and at most one
  is held of which bytes were taken.
-/
import StreamBuffer.Proofs.Queue.Flat

namespace StreamBuffer

namespace Segment

/-! ## Where a drain ends -/

/-- Of some segments, `s` holds the `n`-th unread byte, counted from one, with the
    segments `front` before it and `back` behind it. -/
structure Holds (segments : List Segment) (n : Nat) (front : List Segment) (s : Segment)
    (back : List Segment) : Prop where
  segments_eq : segments = front ++ s :: back
  before : (front.flatMap unread).length < n
  within : n ≤ (front.flatMap unread).length + s.unread.length

/-- The read position just behind that byte. -/
def endOf (n : Nat) (front : List Segment) (s : Segment) : Nat :=
  s.pos + (n - (front.flatMap unread).length)

theorem exists_holds {segments : List Segment} {n : Nat} (hn : 0 < n)
    (hle : n ≤ (segments.flatMap unread).length) :
    ∃ front s back, Holds segments n front s back := by
  induction segments generalizing n with
  | nil =>
    rw [List.flatMap_nil, List.length_nil] at hle
    omega
  | cons s rest ih =>
    rw [List.flatMap_cons, List.length_append] at hle
    by_cases hhere : n ≤ s.unread.length
    · refine ⟨[], s, rest, rfl, hn, ?_⟩
      rw [List.flatMap_nil, List.length_nil]
      omega
    · -- it is among the others, counted without the bytes of this segment
      obtain ⟨front, x, back, heq, hbefore, hwithin⟩ :=
        ih (n := n - s.unread.length) (by omega) (by omega)
      refine ⟨s :: front, x, back, by rw [heq, List.cons_append], ?_, ?_⟩
      · rw [List.flatMap_cons, List.length_append]
        omega
      · rw [List.flatMap_cons, List.length_append]
        omega

/-- A drain ends in the segment that holds its last byte: by induction on the segments
    before that one, which are given up. -/
theorem Holds.drain_eq {segments front back : List Segment} {s : Segment} {n : Nat}
    (h : Holds segments n front s back) :
    (drain n segments).2 = { s with pos := endOf n front s } :: back := by
  obtain ⟨rfl, hbefore, hwithin⟩ := h
  induction front generalizing n with
  | nil =>
    rw [List.flatMap_nil, List.length_nil] at hbefore hwithin
    rw [List.nil_append, drain_of_le back hbefore (by omega)]
    rfl
  | cons f front ih =>
    rw [List.flatMap_cons, List.length_append] at hbefore hwithin
    have hrest := ih (n := n - f.unread.length) (by omega) (by omega)
    have hend : endOf (n - f.unread.length) front s = endOf n (f :: front) s := by
      rw [endOf, endOf, List.flatMap_cons, List.length_append]
      omega
    -- what the drain has left to do behind `f` is the drain of the bytes that `f` has not
    rw [hend] at hrest
    rw [List.cons_append, drain_of_lt _ (by omega)]
    exact hrest

/-- The read position stands just behind the `n`-th unread byte. -/
theorem Holds.getElem?_eq {segments front back : List Segment} {s : Segment} {n : Nat}
    (h : Holds segments n front s back) :
    s.data[endOf n front s - 1]? = (segments.flatMap unread)[n - 1]? := by
  obtain ⟨rfl, hbefore, hwithin⟩ := h
  have hplace : s.pos + (n - 1 - (front.flatMap unread).length) = endOf n front s - 1 := by
    rw [endOf]
    omega
  rw [List.flatMap_append, List.flatMap_cons, List.getElem?_append_right (by omega),
    List.getElem?_append_left (by omega), ← hplace]
  exact List.getElem?_drop.symm

end Segment

/-! ## Segments behind the first -/

namespace SegmentQueue

/-- No segment was read beyond its end, and none behind the first was read at all. -/
structure Tidy (q : SegmentQueue) : Prop where
  inBounds : q.InBounds
  fresh : ∀ s ∈ q.segments.tail, s.pos = 0

theorem Tidy.append {q : SegmentQueue} (h : q.Tidy) (chunk : Bytes) : (q.append chunk).Tidy := by
  refine ⟨h.inBounds.append chunk, ?_⟩
  intro s hs
  cases hsegments : q.segments with
  | nil =>
    rw [SegmentQueue.append, hsegments] at hs
    cases hs
  | cons first rest =>
    rw [SegmentQueue.append, hsegments] at hs
    rcases List.mem_append.mp hs with hs | hs
    · apply h.fresh
      rw [hsegments]
      exact hs
    · rw [List.mem_singleton.mp hs]

/-- What a drain leaves behind its first segment stood behind a segment before. -/
theorem Tidy.drain {q : SegmentQueue} (h : q.Tidy) (n : Nat) : (q.drain n).2.Tidy := by
  refine ⟨h.inBounds.drain n, ?_⟩
  show ∀ s ∈ (Segment.drain n q.segments).2.tail, s.pos = 0
  by_cases hn : n = 0
  · rw [hn, Segment.drain_zero]
    exact h.fresh
  by_cases hlt : q.unread.length < n
  · rw [Segment.drain_of_length_lt hlt]
    intro s hs
    cases hs
  obtain ⟨front, x, back, hholds⟩ :=
    Segment.exists_holds (Nat.pos_of_ne_zero hn) (Nat.le_of_not_lt hlt)
  -- only the segment in front is not as it was
  rw [hholds.drain_eq]
  intro s hs
  apply h.fresh
  rw [hholds.segments_eq]
  cases front with
  | nil => exact hs
  | cons f front => exact List.mem_append_right front (List.mem_cons_of_mem x hs)

/-- At most one segment is held of which bytes were taken. -/
theorem Tidy.length_filter_le_one {q : SegmentQueue} (h : q.Tidy) :
    (q.segments.filter fun s => 0 < s.pos).length ≤ 1 := by
  have hfresh := h.fresh
  cases hsegments : q.segments with
  | nil => exact Nat.zero_le 1
  | cons first rest =>
    rw [hsegments] at hfresh
    have hrest : rest.filter (fun s => 0 < s.pos) = [] := by
      apply List.filter_eq_nil_iff.mpr
      intro s hs
      simp [hfresh s hs]
    rw [List.filter_cons, hrest]
    split
    · exact Nat.le_refl 1
    · exact Nat.zero_le 1

theorem Reachable.tidy {q : SegmentQueue} (h : q.Reachable) : q.Tidy := by
  apply h.induction
  · intro hint
    exact ⟨inBounds_ofCapacity hint, fun s hs => by cases hs⟩
  · intro q chunk hq
    exact hq.append chunk
  · intro q n hq
    exact hq.drain n

/-- What a reachable queue holds, and what a fill leaves of it. Of its segments only the
    first was ever read, and none beyond its end, so that at most one is held of which
    bytes were taken. A fill with room for more than is unread leaves no segment. One
    without room changes nothing. Any other one leaves the segment that held the last byte
    it copied, read just up to that byte, and those behind it as they were. -/
theorem exact_retention {q : SegmentQueue} (h : q.Reachable) :
    (∀ s ∈ q.segments, s.pos ≤ s.data.length)
      ∧ (∀ s ∈ q.segments.tail, s.pos = 0)
      ∧ (q.segments.filter fun s => 0 < s.pos).length ≤ 1
      ∧ ∀ dst : Bytes,
          (dst = [] → q.drainInto dst = (0, [], q))
            ∧ (q.unread.length < dst.length → (q.drainInto dst).2.2.segmentCount = 0)
            ∧ (0 < dst.length → dst.length ≤ q.unread.length →
                ∃ front s back, Segment.Holds q.segments dst.length front s back
                  ∧ (q.drainInto dst).2.2.segments
                      = { s with pos := Segment.endOf dst.length front s } :: back
                  ∧ s.data[Segment.endOf dst.length front s - 1]? = q.unread[dst.length - 1]?) := by
  have htidy := h.tidy
  refine ⟨htidy.inBounds, htidy.fresh, htidy.length_filter_le_one, fun dst => ⟨?_, ?_, ?_⟩⟩
  · rintro rfl
    rw [drainInto_eq, List.length_nil, drain_zero, Nat.zero_min, List.take_zero, List.drop_nil,
      List.append_nil]
  · intro hlt
    show (Segment.drain dst.length q.segments).2.length = 0
    rw [Segment.drain_of_length_lt hlt, List.length_nil]
  · intro hpos hle
    obtain ⟨front, s, back, hholds⟩ := Segment.exists_holds hpos hle
    exact ⟨front, s, back, hholds, hholds.drain_eq, hholds.getElem?_eq⟩

/-- One byte was read of the first of three chunks, the second is empty. A destination for
    one more byte takes the first chunk to its end, and leaves all three segments; one for
    three takes the last chunk to its end, and leaves that alone; and one for four leaves
    none. -/
theorem exact_retention_empty_between :
    let q := ((ofCapacity 4).runAll
      [.append [1, 2], .append [], .append [3, 4], .ask (.fill [0])]).2
    q.Reachable ∧ q.segments = [⟨[1, 2], 1⟩, ⟨[], 0⟩, ⟨[3, 4], 0⟩]
      ∧ (q.drainInto [0]).2.2.segments = [⟨[1, 2], 2⟩, ⟨[], 0⟩, ⟨[3, 4], 0⟩]
      ∧ (q.drainInto [0, 0, 0]).2.2.segments = [⟨[3, 4], 2⟩]
      ∧ (∃ front s back, Segment.Holds q.segments 3 front s back
          ∧ s.data[Segment.endOf 3 front s - 1]? = some 4)
      ∧ (q.drainInto [0, 0, 0, 0]).2.2.segmentCount = 0 := by
  intro q
  have hreach : q.Reachable := ⟨_, _, rfl⟩
  obtain ⟨-, -, -, hfills⟩ := exact_retention hreach
  obtain ⟨-, -, hholds⟩ := hfills [0, 0, 0]
  obtain ⟨-, hnone, -⟩ := hfills [0, 0, 0, 0]
  refine ⟨hreach, by decide +kernel, by decide +kernel, by decide +kernel, ?_,
    hnone (by decide +kernel)⟩
  obtain ⟨front, s, back, hs, -, hbyte⟩ := hholds (by decide) (by decide +kernel)
  exact ⟨front, s, back, hs, hbyte.trans (by decide +kernel)⟩

end SegmentQueue

end StreamBuffer
