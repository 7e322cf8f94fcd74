/-
  StreamBuffer.Proofs.Queue.Additive

  How a drain is split does not matter, neither for the bytes nor for the segments that
  are left.

  Everything is in `Segment.drain_add`: to drain `n + m` bytes is to drain `n` and then
  `m`. The segment in which the first drain ends is where the two could differ. If it ends
  inside, the second drain goes on at the read position. If it ends at the last byte, the
  segment is held as an exhausted one, and the second drain gives it up as soon as it has
  room, where the single drain gave it up on its way.
-/
import StreamBuffer.Queue.Basic

namespace StreamBuffer

/-! ## The head segment -/

namespace Segment

theorem advance_advance (s : Segment) (n m : Nat) :
    (s.advance n).advance m = s.advance (n + m) := by
  rw [advance, advance, advance, Nat.add_assoc]

@[simp] theorem drain_zero (segments : List Segment) : drain 0 segments = ([], segments) := by
  cases segments <;> rfl

@[simp] theorem drain_nil (room : Nat) : drain room [] = ([], []) := by
  cases room <;> rfl

/-- A head segment that has enough is the only one that is touched. -/
theorem drain_of_le {room : Nat} {s : Segment} (rest : List Segment) (hroom : 0 < room)
    (hle : room ≤ s.unread.length) :
    drain room (s :: rest) = (s.unread.take room, s.advance room :: rest) := by
  obtain ⟨room, rfl⟩ := Nat.exists_eq_succ_of_ne_zero (Nat.ne_of_gt hroom)
  have hne : s.unread ≠ [] := by
    apply List.ne_nil_of_length_pos
    omega
  rw [drain, if_neg hne, if_pos hle]

/-- A head segment that has too little is given up, an exhausted one too. -/
theorem drain_of_lt {room : Nat} {s : Segment} (rest : List Segment)
    (hlt : s.unread.length < room) :
    drain room (s :: rest)
      = (s.unread ++ (drain (room - s.unread.length) rest).1,
          (drain (room - s.unread.length) rest).2) := by
  obtain ⟨room, rfl⟩ := Nat.exists_eq_succ_of_ne_zero (Nat.ne_of_gt (Nat.zero_lt_of_lt hlt))
  by_cases hnil : s.unread = []
  · rw [drain, if_pos hnil, hnil, List.length_nil, List.nil_append, Nat.sub_zero]
  · rw [drain, if_neg hnil, if_neg (by omega)]

/-- A drain with room for more than is unread gives up every segment. -/
theorem drain_of_length_lt {segments : List Segment} {n : Nat}
    (hlt : (segments.flatMap unread).length < n) : (drain n segments).2 = [] := by
  induction segments generalizing n with
  | nil => rw [drain_nil]
  | cons s rest ih =>
    rw [List.flatMap_cons, List.length_append] at hlt
    rw [drain_of_lt rest (by omega)]
    exact ih (by omega)

/-! ## Two drains -/

/-- To drain `n + m` bytes is to drain `n` and then `m`: by induction on the segments, by
    where in the head segment the first drain ends. -/
theorem drain_add (n m : Nat) (segments : List Segment) :
    drain (n + m) segments
      = ((drain n segments).1 ++ (drain m (drain n segments).2).1,
          (drain m (drain n segments).2).2) := by
  induction segments generalizing n with
  | nil => simp only [drain_nil, List.append_nil]
  | cons s rest ih =>
    by_cases hn : n = 0
    · rw [hn, drain_zero, Nat.zero_add, List.nil_append]
    have hpos : 0 < n := by omega
    by_cases hend : n ≤ s.unread.length
    · -- the first drain ends in this segment, which the second one then finds in front
      rw [drain_of_le rest hpos hend]
      have hleft : (s.advance n).unread.length = s.unread.length - n := by
        rw [unread_advance, List.length_drop]
      by_cases hm : m = 0
      · rw [hm, drain_zero, Nat.add_zero, drain_of_le rest hpos hend, List.append_nil]
      by_cases hboth : n + m ≤ s.unread.length
      · rw [drain_of_le rest (by omega) hboth, drain_of_le rest (by omega) (by omega),
          unread_advance, advance_advance, List.take_add]
      · -- both give the segment up and go on behind it with the same room
        have hroom : n + m - s.unread.length = m - (s.unread.length - n) := by omega
        rw [drain_of_lt rest (by omega), drain_of_lt rest (by omega), hleft, hroom,
          unread_advance, ← List.append_assoc, List.take_append_drop]
    · -- neither of them ends here
      have hroom : n + m - s.unread.length = n - s.unread.length + m := by omega
      rw [drain_of_lt rest (by omega), drain_of_lt rest (by omega), hroom, ih,
        List.append_assoc]

end Segment

namespace SegmentQueue

theorem drain_zero (q : SegmentQueue) : q.drain 0 = ([], q) := by
  rw [drain, Segment.drain_zero]

theorem drain_add (q : SegmentQueue) (n m : Nat) :
    q.drain (n + m)
      = ((q.drain n).1 ++ ((q.drain n).2.drain m).1, ((q.drain n).2.drain m).2) := by
  simp only [drain, Segment.drain_add n m]

/-! ## Destinations one after the other -/

/-- A destination is filled from the front with what is unread, as far as both reach. -/
theorem drainInto_eq (q : SegmentQueue) (dst : Bytes) :
    q.drainInto dst
      = (min dst.length q.unread.length, q.unread.take dst.length ++ dst.drop q.unread.length,
          (q.drain dst.length).2) := by
  have hcount : (q.unread.take dst.length).length = min dst.length q.unread.length :=
    List.length_take
  have hkept : dst.drop (min dst.length q.unread.length) = dst.drop q.unread.length := by
    rw [Nat.min_comm]
    exact List.drop_eq_drop_min.symm
  have hbytes : (q.drain dst.length).1 = q.unread.take dst.length := q.drain_fst dst.length
  show ((q.drain dst.length).1.length,
    (q.drain dst.length).1 ++ dst.drop (q.drain dst.length).1.length, (q.drain dst.length).2) = _
  rw [hbytes, hcount, hkept]

/-- Fill destinations one after the other: each with the count that was copied into it and
    as it is then, and the queue that is left. -/
def drainEach (q : SegmentQueue) : List Bytes → List (Nat × Bytes) × SegmentQueue
  | [] => ([], q)
  | dst :: rest =>
    let (count, dst, left) := q.drainInto dst
    let (fills, left) := left.drainEach rest
    ((count, dst) :: fills, left)

/-- The bytes that were copied, by the counts. -/
def copiedBytes (fills : List (Nat × Bytes)) : Bytes := fills.flatMap fun f => f.2.take f.1

theorem drainEach_cons (q : SegmentQueue) (dst : Bytes) (rest : List Bytes) :
    q.drainEach (dst :: rest)
      = (((q.drainInto dst).1, (q.drainInto dst).2.1)
          :: ((q.drain dst.length).2.drainEach rest).1,
        ((q.drain dst.length).2.drainEach rest).2) := rfl

/-- The bytes copied into a destination are the unread ones that it has room for. -/
theorem take_drainInto (q : SegmentQueue) (dst : Bytes) :
    (q.drainInto dst).2.1.take (q.drainInto dst).1 = q.unread.take dst.length := by
  rw [drainInto_eq]
  apply List.take_left'
  exact List.length_take

theorem drainEach_eq_drain (q : SegmentQueue) (dsts : List Bytes) :
    copiedBytes (q.drainEach dsts).1 = (q.drain dsts.flatten.length).1
      ∧ (q.drainEach dsts).2 = (q.drain dsts.flatten.length).2 := by
  induction dsts generalizing q with
  | nil =>
    rw [List.flatten_nil, List.length_nil, drain_zero]
    exact ⟨rfl, rfl⟩
  | cons dst rest ih =>
    obtain ⟨hbytes, hleft⟩ := ih (q.drain dst.length).2
    rw [drainEach_cons, List.flatten_cons, List.length_append, drain_add]
    refine ⟨?_, hleft⟩
    rw [copiedBytes, List.flatMap_cons, take_drainInto, drain_fst q dst.length]
    exact congrArg (q.unread.take dst.length ++ ·) hbytes

/-- Where one destination is not filled, there is nothing for those behind it. -/
theorem fill_append (unread dst rest : Bytes) :
    (unread.take dst.length ++ dst.drop unread.length)
        ++ ((unread.drop dst.length).take rest.length
          ++ rest.drop (unread.drop dst.length).length)
      = unread.take (dst ++ rest).length ++ (dst ++ rest).drop unread.length := by
  have htake : unread.take (dst ++ rest).length
      = unread.take dst.length ++ (unread.drop dst.length).take rest.length := by
    rw [List.length_append, List.take_add]
  have hdrop : (dst ++ rest).drop unread.length
      = dst.drop unread.length ++ rest.drop (unread.drop dst.length).length := by
    rw [List.drop_append, List.length_drop]
  have hswap : dst.drop unread.length ++ (unread.drop dst.length).take rest.length
      = (unread.drop dst.length).take rest.length ++ dst.drop unread.length := by
    -- one of the two is empty: the first destination is full, or there are no bytes left over
    by_cases hshort : dst.length ≤ unread.length
    · rw [List.drop_of_length_le hshort, List.append_nil, List.nil_append]
    · rw [List.drop_of_length_le (Nat.le_of_not_le hshort), List.take_nil, List.append_nil,
        List.nil_append]
  rw [htake, hdrop, List.append_assoc, ← List.append_assoc (dst.drop _), hswap]
  simp only [List.append_assoc]

/-- Destinations filled one after the other are, one behind the other, the destination
    that is as large as all of them. -/
theorem flatMap_drainEach (q : SegmentQueue) (dsts : List Bytes) :
    (q.drainEach dsts).1.flatMap Prod.snd = (q.drainInto dsts.flatten).2.1 := by
  induction dsts generalizing q with
  | nil => rw [drainInto_eq]; simp [drainEach]
  | cons dst rest ih =>
    rw [drainEach_cons, List.flatMap_cons, ih, drainInto_eq q (dst :: rest).flatten,
      List.flatten_cons, ← fill_append, drainInto_eq, drainInto_eq, unread_drain]

/-- Draining is additive, for every queue and down to the segments that are left: to drain
    `n + m` bytes is to drain `n` and then `m`. So of destinations that are filled one
    after the other only their sizes together matter: the bytes copied, the queue left and
    the destinations themselves are those of one destination of that size. -/
theorem drain_additive (q : SegmentQueue) :
    (∀ n m, q.drain (n + m)
        = ((q.drain n).1 ++ ((q.drain n).2.drain m).1, ((q.drain n).2.drain m).2))
      ∧ ∀ dsts : List Bytes,
          copiedBytes (q.drainEach dsts).1 = (q.drain dsts.flatten.length).1
            ∧ (q.drainEach dsts).2 = (q.drain dsts.flatten.length).2
            ∧ (q.drainEach dsts).1.flatMap Prod.snd = (q.drainInto dsts.flatten).2.1 := by
  refine ⟨q.drain_add, fun dsts => ?_⟩
  obtain ⟨hbytes, hleft⟩ := q.drainEach_eq_drain dsts
  exact ⟨hbytes, hleft, q.flatMap_drainEach dsts⟩

end SegmentQueue

end StreamBuffer
